import Ece391Os.Model.RealTimeClock
import Ece391Os.Properties.FailedExecute
import Mathlib.Data.Nat.Find
import Mathlib.Data.Rat.Cast.Order
import Mathlib.Tactic.NormNum

/-!
# One clock for three terminals

`rtc_read` returns at the first interrupt, so a reader is released at the rate of the hardware,
and the rate of the hardware is that of the last request of all. `rtc_running`, which keeps the
rate of each terminal, is read by nobody. A terminal gets the rate it asked for exactly when the
last request, whoever made it, comes to the same rate.
-/

set_option autoImplicit false

namespace Ece391Os

open EventRun

/-! ## The rate of a reader -/

/-- The wait of `rtc_read` ends after some number of clock interrupts. -/
theorem rtcRead_released (k : Kernel) : ∃ n,
    rtcReadWaits (handleRTC^[n] (rtcReadStart k)) k.sched.currentProcess = false := by
  refine ⟨1, decide_eq_false ?_⟩
  simp [handleRTC, rtcReadStart]

/-- The clock interrupts that one `rtc_read` of the running process takes. -/
def interruptsPerRead (k : Kernel) : Nat := Nat.find (rtcRead_released k)

/-- How often in a second `rtc_read` releases a process of terminal `t`. -/
def releaseRate (k : Kernel) (t : Terminal) (pid : Pid) : ℚ :=
  periodicRate k.rtc.register / interruptsPerRead (k.onTerminal t pid)

/-- The rate that terminal `t` asked for last. -/
def RtcRun.lastRequest (s : RtcRun) (t : Terminal) : Option Nat :=
  ((s.requests.filter (·.1 = t)).getLast?).map Prod.snd

/-- Every terminal that has asked for a rate gets the one it asked for last. -/
def Virtualised (s : RtcRun) (t : Terminal) : Prop :=
  ∀ rate, s.lastRequest t = some rate → ∀ pid, releaseRate s.kernel t pid = rate

/-- The rate that a request comes to: the clock has none for the two fastest. -/
def grantedRate (rate : Nat) : Nat :=
  if rate = 16384 then 128 else if rate = 32768 then 256 else rate

/-- The last request of all comes to the rate that the terminal asked for last. -/
def RequestsAgree (s : RtcRun) (t : Terminal) : Prop :=
  ∀ rate, s.lastRequest t = some rate →
    (s.requests.getLast?).map (fun r => grantedRate r.2) = some rate

theorem interruptsPerRead_eq_one (k : Kernel) : interruptsPerRead k = 1 := by
  rw [interruptsPerRead, Nat.find_eq_iff]
  constructor
  · refine decide_eq_false ?_
    simp [handleRTC, rtcReadStart]
  · intro n hn
    obtain rfl : n = 0 := by omega
    simp [rtcReadWaits, rtcReadStart]

theorem releaseRate_eq (k : Kernel) (t : Terminal) (pid : Pid) :
    releaseRate k t pid = periodicRate k.rtc.register := by
  rw [releaseRate, interruptsPerRead_eq_one, Nat.cast_one, div_one]

/-! ## The rate of the hardware -/

/-- The search of `rtc_write` doubles the mask while it counts the rate down. -/
theorem rateSearch_eq_some {w : Word} {fuel mask : Nat} {rate r : UInt8}
    (h : rateSearch w fuel mask rate = some r) :
    ∃ i, i < fuel ∧ w = BitVec.ofNat 32 (mask * 2 ^ i) ∧ r = rate - UInt8.ofNat i := by
  induction fuel generalizing mask rate with
  | zero => cases h
  | succ fuel ih =>
      rw [rateSearch] at h
      split at h
      next hmask =>
        refine ⟨0, by omega, by rw [pow_zero, mul_one, hmask], ?_⟩
        obtain rfl := Option.some.inj h
        simp
      next hmask =>
        split at h
        · cases h
        · obtain ⟨i, hi, hw, hr⟩ := ih h
          refine ⟨i + 1, by omega, ?_, ?_⟩
          · rw [hw, pow_succ']
            congr 1
            exact mul_assoc mask 2 (2 ^ i)
          · rw [hr, UInt8.ofNat_add]
            grind

/-- The rate bits of a register into which the driver has written a rate. -/
theorem rateBits (register rate : UInt8) :
    ((register &&& 0xF0) ||| rate) &&& 0x0F = rate &&& 0x0F := by
  have hsplit : ((register &&& 0xF0) ||| rate) &&& 0x0F =
      (register &&& 0xF0 &&& 0x0F) ||| (rate &&& 0x0F) :=
    UInt8.toBitVec_inj.mp BitVec.and_or_distrib_right
  have hhigh : (0xF0 &&& 0x0F : UInt8) = 0 := by decide
  rw [hsplit, UInt8.and_assoc, hhigh, UInt8.and_zero, UInt8.zero_or]

/-- The rate of the hardware after a write of rate `15 - i`. -/
theorem periodicRate_write (register : UInt8) {i : Nat} (hi : i < 15) :
    periodicRate ((register &&& 0xF0) ||| (15 - UInt8.ofNat i)) = grantedRate (2 * 2 ^ i) := by
  have htable : ∀ i, i < 15 →
      periodicRate (15 - UInt8.ofNat i) = grantedRate (2 * 2 ^ i) := by decide
  have hbits : periodicRate ((register &&& 0xF0) ||| (15 - UInt8.ofNat i)) =
      periodicRate (15 - UInt8.ofNat i) := by
    rw [periodicRate, periodicRate, rateBits]
  rw [hbits]
  exact htable i hi

/-- The register after `rtc_write` has programmed the rate that its search found. -/
theorem periodicRate_of_rateSearch {w : Word} {rate : UInt8}
    (h : rateSearch w 15 2 15 = some rate) (register : UInt8) :
    periodicRate ((register &&& 0xF0) ||| rate) = grantedRate w.toNat := by
  obtain ⟨i, hi, rfl, rfl⟩ := rateSearch_eq_some h
  have hword : ∀ i, i < 15 → (BitVec.ofNat 32 (2 * 2 ^ i)).toNat = 2 * 2 ^ i := by decide
  rw [periodicRate_write register hi, hword i hi]

/-! ## Runs -/

/-- The hardware runs at the rate that the last request of all comes to. -/
def LastWins (s : RtcRun) : Prop :=
  ∀ r, s.requests.getLast? = some r → periodicRate s.kernel.rtc.register = grantedRate r.2

section Runs

variable {s s' : RtcRun}

/-- An event that asks for nothing and leaves the register alone. -/
theorem LastWins.of_same (h : LastWins s) (hrequests : s'.requests = s.requests)
    (hregister : s'.kernel.rtc.register = s.kernel.rtc.register) : LastWins s' := by
  intro r hr
  rw [hregister]
  exact h r (hrequests ▸ hr)

/-- An event that asks for a rate and programs it. -/
theorem lastWins_of_request {t : Terminal} {rate : Nat} (hrequests : s'.requests =
      s.requests ++ [(t, rate)])
    (hregister : periodicRate s'.kernel.rtc.register = grantedRate rate) : LastWins s' := by
  intro r hr
  rw [hrequests, List.getLast?_append_of_ne_nil _ (List.cons_ne_nil _ _)] at hr
  obtain rfl := Option.some.inj hr
  exact hregister

/-- `rtc_open` refuses, or it programs 2 Hz. -/
theorem rtcOpen_register (res : Residue) (k : Kernel) :
    ((rtcOpen res k).1 = -1 ∧ (rtcOpen res k).2.rtc.register = k.rtc.register) ∨
      ((rtcOpen res k).1 ≠ -1 ∧ periodicRate (rtcOpen res k).2.rtc.register = grantedRate 2) := by
  simp only [rtcOpen]
  split
  · exact Or.inl ⟨rfl, rfl⟩
  · split
    · exact Or.inl ⟨rfl, rfl⟩
    · right
      refine ⟨by omega, ?_⟩
      exact periodicRate_write k.rtc.register (i := 0) (by decide)

/-- `rtc_write` that returns refuses, or it programs the rate. -/
theorem rtcWrite_register {res : Residue} {k : Kernel} {buf : Nat → UInt8} {rateSize : Int}
    {v : Int} (h : (rtcWrite res k buf rateSize).exit = .returned v) :
    (v = -1 ∧ (rtcWrite res k buf rateSize).kernel.rtc.register = k.rtc.register) ∨
      (v ≠ -1 ∧ periodicRate (rtcWrite res k buf rateSize).kernel.rtc.register =
        grantedRate (passedRate res buf rateSize).toNat) := by
  by_cases hsize : 0 ≤ rateSize ∧ rateSize ≤ 4
  · cases hsearch : rateSearch (passedRate res buf rateSize) 15 2 15 with
    | none =>
        have hwrite : rtcWrite res k buf rateSize = ⟨.returned (-1), k.cli, []⟩ := by
          simp only [rtcWrite, if_pos hsize]
          simp only [passedRate] at hsearch
          rw [hsearch]
        rw [hwrite] at h ⊢
        exact Or.inl ⟨(Exit.returned.inj h).symm, rfl⟩
    | some rate =>
        have hexit : (rtcWrite res k buf rateSize).exit = .returned 0 ∧
            (rtcWrite res k buf rateSize).kernel.rtc.register =
              (k.rtc.register &&& 0xF0) ||| rate := by
          simp only [rtcWrite, if_pos hsize]
          simp only [passedRate] at hsearch
          rw [hsearch]
          exact ⟨rfl, rfl⟩
        obtain rfl := Exit.returned.inj (hexit.1.symm.trans h)
        right
        refine ⟨by decide, ?_⟩
        rw [hexit.2]
        exact periodicRate_of_rateSearch hsearch _
  · simp only [rtcWrite, if_neg hsize] at h
    cases h

/-- The step lemma. -/
theorem LastWins.step {e : RtcEvent} (h : LastWins s) (hstep : rtcStep s e = some s') :
    LastWins s' := by
  cases e with
  | «open» t pid res =>
      obtain rfl := Option.some.inj hstep
      rcases rtcOpen_register res (s.kernel.onTerminal t pid) with ⟨hret, hreg⟩ | ⟨hret, hreg⟩
      · exact h.of_same (if_pos hret) hreg
      · exact lastWins_of_request (if_neg hret) hreg
  | write t pid res buf rateSize =>
      simp only [rtcStep] at hstep
      split at hstep
      next v hexit =>
        obtain rfl := Option.some.inj hstep
        rcases rtcWrite_register hexit with ⟨hret, hreg⟩ | ⟨hret, hreg⟩
        · exact h.of_same (if_pos hret) hreg
        · exact lastWins_of_request (if_neg hret) hreg
      · cases hstep
      · cases hstep
  | read t pid =>
      obtain rfl := Option.some.inj hstep
      exact h.of_same rfl rfl
  | close t pid fd =>
      obtain rfl := Option.some.inj hstep
      exact h.of_same rfl (rtcClose_register (s.kernel.onTerminal t pid) fd)
  | interrupt =>
      obtain rfl := Option.some.inj hstep
      exact h.of_same rfl rfl

/-- After every run, a terminal gets the rate it asked for last exactly if the last request of all
comes to the same rate. -/
theorem virtualised_iff_requestsAgree {espBoot : Word} {events : List RtcEvent}
    (hrun : runFrom rtcStep (bootRtc espBoot) events = some s) (t : Terminal) :
    Virtualised s t ↔ RequestsAgree s t := by
  have hboot : LastWins (bootRtc espBoot) := nofun
  have hlast : LastWins s :=
    invariant_of_runFrom (fun _ _ _ h hstep => h.step hstep) hboot hrun
  have hrate : ∀ rate, s.lastRequest t = some rate →
      ((∀ pid, releaseRate s.kernel t pid = rate) ↔
        (s.requests.getLast?).map (fun r => grantedRate r.2) = some rate) := by
    intro rate hrate
    have hne : s.requests ≠ [] := by
      intro hnil
      rw [RtcRun.lastRequest, hnil] at hrate
      cases hrate
    obtain ⟨r, hr⟩ := Option.isSome_iff_exists.mp (List.getLast?_isSome.mpr hne)
    rw [hr, Option.map_some, Option.some.injEq, ← hlast r hr]
    constructor
    · intro hall
      have hzero := hall 0
      rw [releaseRate_eq] at hzero
      exact_mod_cast hzero
    · intro heq pid
      rw [releaseRate_eq, heq]
  constructor
  · intro h rate hrequest
    exact (hrate rate hrequest).mp (h rate hrequest)
  · intro h rate hrequest
    exact (hrate rate hrequest).mpr (h rate hrequest)

/-- A program of terminal 0 asks for 1024 Hz, then one of terminal 1 opens the clock. -/
def twoTerminalRates : List RtcEvent :=
  [.open 0 2 emptyResidue, .write 0 2 emptyResidue (fun i => [0, 4, 0, 0].getD i 0) 4,
    .open 1 3 emptyResidue]

/-- The clock after that. -/
def afterTwoRates : RtcRun :=
  (runFrom rtcStep (bootRtc 0x7FFFC0) twoTerminalRates).get (by decide +kernel)

/-- The program of terminal 0 is released at 2 Hz. -/
theorem not_virtualised_twoRates :
    runFrom rtcStep (bootRtc 0x7FFFC0) twoTerminalRates = some afterTwoRates ∧
      ¬ Virtualised afterTwoRates 0 := by
  refine ⟨(Option.some_get _).symm, fun h => ?_⟩
  have hrequest : afterTwoRates.lastRequest 0 = some 1024 := by decide
  have hhardware : periodicRate afterTwoRates.kernel.rtc.register = 2 := by decide
  have hrate := h 1024 hrequest 2
  rw [releaseRate_eq, hhardware] at hrate
  exact absurd hrate (by norm_num)

/-- The theorem after that run. -/
theorem virtualised_iff_twoRates : Virtualised afterTwoRates 1 ↔ RequestsAgree afterTwoRates 1 :=
  virtualised_iff_requestsAgree (Option.some_get _).symm 1

end Runs

end Ece391Os
