import Ece391Os.Properties.ClockRates

/-!
# The rates that `rtc_write` accepts

The loop of `rtc_write` doubles `mask` while it counts `rate` down, so that `mask` is
`2 ^ (16 - rate)` in every round; the round of the last mask decides between success and failure.
`rtcWrite_encodes` says for every word what the call makes of it.
-/

set_option autoImplicit false

namespace Ece391Os

/-- A power of two from `2` to `MAX_RTC_RATE`. -/
def IsRate (v : Word) : Prop := ∃ j : Nat, v.toInt = 2 ^ j ∧ 2 ≤ v.toInt ∧ v.toInt ≤ maxRtcRate

/-- The exponent of a rate. -/
theorem IsRate.exponent {v : Word} (h : IsRate v) {j : Nat} (hj : v.toInt = 2 ^ j) :
    1 ≤ j ∧ j ≤ 15 := by
  obtain ⟨-, -, hlow, hhigh⟩ := h
  have hiff : ∀ a b : Nat, (2 : Int) ^ a ≤ 2 ^ b ↔ a ≤ b := fun _ _ =>
    pow_le_pow_iff_right₀ (by decide)
  have hmin : (2 : Int) ^ 1 ≤ 2 ^ j := hj ▸ hlow
  have hmax : (2 : Int) ^ j ≤ 2 ^ 15 := hj ▸ hhigh
  exact ⟨(hiff 1 j).mp hmin, (hiff j 15).mp hmax⟩

/-! ## The search -/

/-- The search finds each word that one of its masks comes to. -/
theorem rateSearch_of_mask {fuel i mask : Nat} (hi : i < fuel) (hpos : 0 < mask)
    (hmask : mask * 2 ^ i ≤ maxRtcRate) (rate : UInt8) :
    rateSearch (BitVec.ofNat 32 (mask * 2 ^ i)) fuel mask rate = some (rate - UInt8.ofNat i) := by
  have hmax : maxRtcRate = 32768 := rfl
  induction fuel generalizing i mask rate with
  | zero => cases hi
  | succ fuel ih =>
      rw [rateSearch]
      cases i with
      | zero =>
          rw [pow_zero, mul_one, if_pos rfl]
          exact congrArg some (UInt8.sub_zero rate).symm
      | succ i =>
          have hstep : mask * 2 ^ (i + 1) = mask * 2 * 2 ^ i := by
            rw [pow_succ']
            exact (mul_assoc mask 2 (2 ^ i)).symm
          have hgrows : mask * 2 ≤ mask * 2 ^ (i + 1) := by
            rw [hstep]
            exact Nat.le_mul_of_pos_right _ (Nat.two_pow_pos i)
          -- this mask is a smaller one
          have hne : BitVec.ofNat 32 mask ≠ BitVec.ofNat 32 (mask * 2 ^ (i + 1)) := by
            intro heq
            have hvalue := congrArg BitVec.toNat heq
            rw [BitVec.toNat_ofNat, BitVec.toNat_ofNat, Nat.mod_eq_of_lt (by omega),
              Nat.mod_eq_of_lt (by omega)] at hvalue
            omega
          have hnext := @ih i (mask * 2) (by omega) (by omega) (by rw [← hstep]; exact hmask)
            (rate - 1)
          rw [if_neg hne, if_neg (by omega), hstep, hnext, UInt8.ofNat_add]
          congr 1
          grind

/-- The search of `rtc_write` finds the rates, and in each round `mask` is `2 ^ (16 - rate)`. -/
theorem rateSearch_eq_some_iff {v : Word} {rate : UInt8} :
    rateSearch v 15 2 15 = some rate ↔
      IsRate v ∧ rate.toNat < 16 ∧ (2 : Int) ^ (16 - rate.toNat) = v.toInt := by
  have htable : ∀ i, i < 15 → (BitVec.ofNat 32 (2 * 2 ^ i)).toInt = 2 ^ (i + 1) ∧
      2 * 2 ^ i ≤ maxRtcRate ∧ (15 - UInt8.ofNat i).toNat = 15 - i := by decide
  constructor
  · intro h
    obtain ⟨i, hi, rfl, rfl⟩ := rateSearch_eq_some h
    obtain ⟨hvalue, hmax, hrate⟩ := htable i hi
    have hplaces : 16 - (15 - i) = i + 1 := by omega
    have hsucc : (2 : Int) ^ (i + 1) = ((2 * 2 ^ i : Nat) : Int) := by
      rw [pow_succ']
      push_cast
      rfl
    have hpos := Nat.two_pow_pos i
    refine ⟨⟨i + 1, hvalue, ?_, ?_⟩, by omega, by rw [hrate, hplaces, hvalue]⟩
    · rw [hvalue, hsucc]
      omega
    · rw [hvalue, hsucc]
      exact_mod_cast hmax
  · rintro ⟨hv, hrate, hpow⟩
    have hplaces := hv.exponent hpow.symm
    obtain ⟨i, hi⟩ : ∃ i, 16 - rate.toNat = i + 1 := ⟨15 - rate.toNat, by omega⟩
    obtain ⟨hvalue, hle, hbyte⟩ := htable i (by omega)
    have hword : v = BitVec.ofNat 32 (2 * 2 ^ i) := by
      apply BitVec.eq_of_toInt_eq
      rw [hvalue, ← hpow, hi]
    have hfound : rate = 15 - UInt8.ofNat i := by
      apply UInt8.toNat_inj.mp
      rw [hbyte]
      omega
    rw [hword, hfound]
    exact rateSearch_of_mask (by omega) (by decide) hle 15

/-- It finds every rate. -/
theorem rateSearch_isSome_iff {v : Word} : (rateSearch v 15 2 15).isSome = true ↔ IsRate v := by
  constructor
  · intro h
    obtain ⟨rate, hrate⟩ := Option.isSome_iff_exists.mp h
    exact (rateSearch_eq_some_iff.mp hrate).1
  · intro hv
    have ⟨j, hj, _⟩ := hv
    obtain ⟨hpos, hle⟩ := hv.exponent hj
    have hbyte : (UInt8.ofNat (16 - j)).toNat = 16 - j := by
      rw [UInt8.toNat_ofNat']
      omega
    have hplaces : 16 - (16 - j) = j := by omega
    have hfound : rateSearch v 15 2 15 = some (UInt8.ofNat (16 - j)) :=
      rateSearch_eq_some_iff.mpr ⟨hv, by omega, by rw [hbyte, hplaces, hj]⟩
    rw [hfound]
    rfl

/-! ## The call -/

/-- The high bits of a register into which the driver has written a rate. -/
theorem highBits (register : UInt8) {rate : UInt8} (hrate : rate.toNat < 16) :
    ((register &&& 0xF0) ||| rate) &&& 0xF0 = register &&& 0xF0 := by
  have hlow : rate &&& 0xF0 = 0 := by
    have htable : ∀ n, n < 16 → UInt8.ofNat n &&& 0xF0 = 0 := by decide
    have hzero := htable rate.toNat hrate
    rwa [UInt8.ofNat_toNat] at hzero
  have hsplit : ((register &&& 0xF0) ||| rate) &&& 0xF0 =
      (register &&& 0xF0 &&& 0xF0) ||| (rate &&& 0xF0) :=
    UInt8.toBitVec_inj.mp BitVec.and_or_distrib_right
  rw [hsplit, hlow, UInt8.and_assoc, UInt8.and_self, UInt8.or_zero]

/-- The four low bits are the rate. -/
theorem lowBits (register : UInt8) {rate : UInt8} (hrate : rate.toNat < 16) :
    ((register &&& 0xF0) ||| rate) &&& 0x0F = rate := by
  have htable : ∀ n, n < 16 → UInt8.ofNat n &&& 0x0F = UInt8.ofNat n := by decide
  have hsame := htable rate.toNat hrate
  rw [UInt8.ofNat_toNat] at hsame
  rw [rateBits, hsame]

/-- The word in a buffer of four bytes. -/
theorem passedRate_four (res : Residue) (buf : Nat → UInt8) :
    passedRate res buf 4 = wordAt buf 0 := rfl

/-- A call with four bytes refuses, or it programs the rate that the search finds. -/
theorem rtcWrite_cases (res : Residue) (k : Kernel) (buf : Nat → UInt8) :
    let r := rtcWrite res k buf 4
    (rateSearch (wordAt buf 0) 15 2 15 = none ∧ r = ⟨.returned (-1), k.cli, []⟩) ∨
      ∃ rate, rateSearch (wordAt buf 0) 15 2 15 = some rate ∧ r.exit = .returned 0 ∧
        r.kernel.rtc.register = (k.rtc.register &&& 0xF0) ||| rate ∧
        r.kernel.rtc.rtcRunning = Function.update k.rtc.rtcRunning k.sched.currentProcess
          (wordAt buf 0).toInt := by
  have hsize : (0 : Int) ≤ 4 ∧ (4 : Int) ≤ 4 := by decide
  have hpassed := passedRate_four res buf
  rw [passedRate] at hpassed
  simp only [rtcWrite, if_pos hsize, hpassed]
  cases rateSearch (wordAt buf 0) 15 2 15 with
  | none => exact Or.inl ⟨rfl, rfl⟩
  | some rate => exact Or.inr ⟨rate, rfl, rfl, rfl, rfl⟩

/-- For every word in a buffer of four bytes, whatever the register holds and whichever terminal
calls: the call succeeds exactly on the powers of two from 2 to 32768, and then the rate `r` in
the low bits of the register has `2 ^ (16 - r)` equal to the word, the high bits are unchanged,
and the word is recorded for the terminal; otherwise it returns `-1` and changes nothing of the
clock. -/
theorem rtcWrite_encodes (res : Residue) (k : Kernel) {v : Word} {buf : Nat → UInt8}
    (hbuf : wordAt buf 0 = v) :
    let r := rtcWrite res k buf 4
    (r.exit = .returned 0 ↔ IsRate v) ∧
      (r.exit = .returned 0 →
        (2 : Int) ^ (16 - (r.kernel.rtc.register &&& 0x0F).toNat) = v.toInt ∧
          r.kernel.rtc.register &&& 0xF0 = k.rtc.register &&& 0xF0 ∧
          r.kernel.rtc.rtcRunning k.sched.currentProcess = v.toInt) ∧
      (r.exit ≠ .returned 0 → r.exit = .returned (-1) ∧ r.kernel.rtc = k.rtc) := by
  intro r
  have hne : Exit.returned (-1) ≠ .returned 0 := by decide
  rw [← rateSearch_isSome_iff, ← hbuf]
  rcases rtcWrite_cases res k buf with ⟨hnone, hr⟩ | ⟨rate, hsome, hexit, hregister, hrunning⟩
  · have hexit : r.exit = .returned (-1) := congrArg CallResult.exit hr
    have hkernel : r.kernel = k.cli := congrArg CallResult.kernel hr
    rw [hexit, hkernel, hnone]
    exact ⟨iff_of_false hne Bool.false_ne_true, fun h => absurd h hne, fun _ => ⟨rfl, rfl⟩⟩
  · obtain ⟨-, hrate, hpow⟩ := rateSearch_eq_some_iff.mp hsome
    have hexit : r.exit = .returned 0 := hexit
    have hregister : r.kernel.rtc.register = (k.rtc.register &&& 0xF0) ||| rate := hregister
    rw [hexit, hregister, hsome, lowBits _ hrate, highBits _ hrate]
    refine ⟨iff_of_true rfl rfl, fun _ => ⟨hpow, rfl, ?_⟩, fun h => absurd rfl h⟩
    exact (congrFun hrunning _).trans (Function.update_self _ _ _)

/-- The second terminal asks for 1024 Hz, with 2 Hz programmed. -/
theorem rtcWrite_encodes_kilohertz :
    let k := (bootKernel 0x7FFFC0).onTerminal 1 2
    let r := rtcWrite emptyResidue k (fun i => [0, 4, 0, 0].getD i 0) 4
    (r.exit = .returned 0 ↔ IsRate 1024) ∧
      (r.exit = .returned 0 →
        (2 : Int) ^ (16 - (r.kernel.rtc.register &&& 0x0F).toNat) = (1024 : Word).toInt ∧
          r.kernel.rtc.register &&& 0xF0 = k.rtc.register &&& 0xF0 ∧
          r.kernel.rtc.rtcRunning k.sched.currentProcess = (1024 : Word).toInt) ∧
      (r.exit ≠ .returned 0 → r.exit = .returned (-1) ∧ r.kernel.rtc = k.rtc) :=
  rtcWrite_encodes emptyResidue ((bootKernel 0x7FFFC0).onTerminal 1 2) (by decide)

end Ece391Os
