import Ece391Os.Model.MemoryRoutines
import Ece391Os.Properties.TextOutput

/-!
# Fills and copies of memory

`memset` fills exactly the bytes that it is asked to fill. `memcpy` and `memmove` work byte by byte
or word by word, so where the two ranges overlap they need not be copies: `memcpy_eq_copy_iff` and
`memmove_eq_copy_iff` say for which addresses and lengths they are, whatever the memory holds. The
copies of `terminal_switch` are between pages, and do to the text what the model of the switch says.
-/

set_option autoImplicit false

namespace Ece391Os

open CyclicMemory

/-! ## Bytes of a word -/

section Bytes

variable {m : Memory} {a v : Word} {i : Nat}

theorem byteOf_loadl (hi : i < 4) : byteOf (loadl m a) i = m (a + BitVec.ofNat 32 i) := by
  rw [← UInt8.toBitVec_inj, byteOf, loadl]
  ext j hj
  rw [BitVec.getElem_extractLsb', BitVec.getLsbD_append, BitVec.getLsbD_append,
    BitVec.getLsbD_append]
  obtain rfl | rfl | rfl | rfl : i = 0 ∨ i = 1 ∨ i = 2 ∨ i = 3 := by omega
  · rw [if_pos (by omega), Nat.mul_zero, Nat.zero_add, BitVec.add_zero]
    rfl
  · rw [if_neg (by omega), if_pos (by omega), Nat.add_sub_cancel_left]
    rfl
  · have hbit : 8 * 2 + j - 8 - 8 = j := by omega
    rw [if_neg (by omega), if_neg (by omega), if_pos (by omega), hbit]
    rfl
  · have hbit : 8 * 3 + j - 8 - 8 - 8 = j := by omega
    rw [if_neg (by omega), if_neg (by omega), if_neg (by omega), hbit]
    rfl

theorem byteOf_setWidth (b : UInt8) : byteOf (b.toBitVec.setWidth 32) 0 = b := by
  rw [← UInt8.toBitVec_inj, byteOf, Nat.mul_zero]
  ext j hj
  have hwide : j < 32 := by omega
  rw [BitVec.getElem_extractLsb', Nat.zero_add, BitVec.getLsbD_setWidth,
    BitVec.getLsbD_eq_getElem hj, decide_eq_true hwide, Bool.true_and]

theorem getLsbD_lowByte (k : Nat) : BitVec.getLsbD (0xFF : Word) k = decide (k < 8) :=
  Nat.testBit_two_pow_sub_one 8 k

/-- All bytes of the word that `memset` makes of `c` are the low byte of it. -/
theorem byteOf_repeated (c : Word) (hi : i < 4) :
    byteOf ((c &&& 0xFF) <<< 24 ||| (c &&& 0xFF) <<< 16 ||| (c &&& 0xFF) <<< 8 ||| (c &&& 0xFF)) i =
      byteOf c 0 := by
  rw [← UInt8.toBitVec_inj, byteOf, byteOf, Nat.mul_zero]
  ext j hj
  simp only [BitVec.getElem_extractLsb', BitVec.getLsbD_or, BitVec.getLsbD_shiftLeft,
    BitVec.getLsbD_and, getLsbD_lowByte]
  obtain rfl | rfl | rfl | rfl : i = 0 ∨ i = 1 ∨ i = 2 ∨ i = 3 := by omega
  all_goals grind

theorem store_loadl (m : Memory) (edi esi : Word) :
    store 4 m edi (loadl m esi) = copy m edi esi 4 :=
  fill_congr fun _ hi => byteOf_loadl hi

theorem movByte_eq (r : CopyState) :
    movByte r = ⟨copy r.memory r.edi r.esi 1, r.esi + 1, r.edi + 1⟩ := by
  have hbyte : store 1 r.memory r.edi ((r.memory r.esi).toBitVec.setWidth 32) =
      copy r.memory r.edi r.esi 1 := by
    apply fill_congr
    intro i hi
    obtain rfl : i = 0 := by omega
    rw [byteOf_setWidth, BitVec.add_zero]
  rw [movByte, hbyte]

end Bytes

/-! ## Filling -/

section Fill

variable {m : Memory} {edi eax : Word} {b : UInt8} {n k : Nat}

/-- Stores of a word go on with its bytes in turn. -/
theorem repStos_eq (hk : 0 < k) (hn : k * n ≤ 2 ^ 32) :
    repStos k eax n m edi =
      (fill m edi (fun i => byteOf eax (i % k)) (k * n), edi + BitVec.ofNat 32 (k * n)) := by
  induction n generalizing m edi with
  | zero => rw [repStos, Nat.mul_zero, fill_zero, BitVec.add_zero]
  | succ n ih =>
      rw [Nat.mul_succ] at hn
      have hfirst : store k m edi eax = fill m edi (fun i => byteOf eax (i % k)) k :=
        fill_congr fun i hi => by rw [Nat.mod_eq_of_lt hi]
      have hrest : fill (fill m edi (fun i => byteOf eax (i % k)) k) (edi + BitVec.ofNat 32 k)
          (fun i => byteOf eax ((k + i) % k)) (k * n) =
          fill m edi (fun i => byteOf eax (i % k)) (k + k * n) := fill_add (by omega)
      simp only [Nat.add_mod_left] at hrest
      rw [repStos, ih (by omega), hfirst, hrest, ofNat_add_ofNat, Nat.mul_succ, Nat.add_comm k]

theorem memsetBottom_eq (hb : byteOf eax 0 = b) (hn : n ≤ 2 ^ 32) :
    memsetBottom eax n m edi = fill m edi (fun _ => b) n := by
  induction n generalizing m edi with
  | zero => rw [memsetBottom, fill_zero]
  | succ n ih =>
      have hfirst : store 1 m edi eax = fill m edi (fun _ => b) 1 :=
        fill_congr fun i hi => by rw [Nat.lt_one_iff.mp hi, hb]
      rw [memsetBottom, ih (by omega), hfirst, Nat.add_comm n]
      exact fill_add (f := fun _ => b) (by omega)

/-- A word whose bytes agree is stored like these. -/
theorem memsetTop_eq (hb : ∀ i, i < 4 → byteOf eax i = b) (hn : n ≤ 2 ^ 32) :
    memsetTop eax n m edi = fill m edi (fun _ => b) n := by
  have hb0 : byteOf eax 0 = b := hb 0 (by omega)
  induction n generalizing m edi with
  | zero => rw [memsetTop, fill_zero]
  | succ n ih =>
      rw [memsetTop]
      split
      · -- aligned: the double words, and then the bytes that are left
        have hsplit : 4 * ((n + 1) / 4) + (n + 1) % 4 = n + 1 := Nat.div_add_mod _ _
        have hbytes : (fun i => byteOf eax (i % 4)) = fun _ => b := by
          funext i
          exact hb _ (Nat.mod_lt i (by omega))
        have hparts : fill (fill m edi (fun _ => b) (4 * ((n + 1) / 4)))
            (edi + BitVec.ofNat 32 (4 * ((n + 1) / 4))) (fun _ => b) ((n + 1) % 4) =
            fill m edi (fun _ => b) (4 * ((n + 1) / 4) + (n + 1) % 4) := fill_add (by omega)
        rw [hsplit] at hparts
        rw [memsetAligned, repStos_eq (by omega) (by omega), hbytes]
        exact (memsetBottom_eq hb0 (by omega)).trans hparts
      · have hfirst : store 1 m edi eax = fill m edi (fun _ => b) 1 :=
          fill_congr fun i hi => by rw [Nat.lt_one_iff.mp hi, hb0]
        rw [ih (by omega), hfirst, Nat.add_comm n]
        exact fill_add (f := fun _ => b) (by omega)

/-- `memset` fills `n` bytes with the low byte of `c`, wherever the range starts. -/
theorem memset_eq_fill (m : Memory) (s c n : Word) :
    memset m s c n = fill m s (fun _ => byteOf c 0) n.toNat :=
  memsetTop_eq (fun _ hi => byteOf_repeated c hi) (Nat.le_of_lt n.isLt)

end Fill

/-! ## Copying -/

section Copy

variable {dest src n : Word}

/-- The blocks that `memcpy` copies, with the bytes up to a multiple of four first. -/
def memcpyBlocks : Nat → Word → List Nat
  | 0, _ => []
  | n + 1, edi =>
      if edi &&& 3 = 0 then List.replicate ((n + 1) / 4) 4 ++ List.replicate ((n + 1) % 4) 1
      else 1 :: memcpyBlocks n (edi + 1)

theorem sum_memcpyBlocks (n : Nat) (edi : Word) : (memcpyBlocks n edi).sum = n := by
  induction n generalizing edi with
  | zero => rfl
  | succ n ih =>
      rw [memcpyBlocks]
      split
      · rw [List.sum_append, List.sum_replicate_nat, List.sum_replicate_nat]
        omega
      · rw [List.sum_cons, ih, Nat.add_comm]

theorem pos_of_mem_memcpyBlocks {n b : Nat} {edi : Word} (h : b ∈ memcpyBlocks n edi) : 0 < b := by
  induction n generalizing edi with
  | zero => exact absurd h List.not_mem_nil
  | succ n ih =>
      rw [memcpyBlocks] at h
      split at h
      · rcases List.mem_append.mp h with h | h <;> rw [List.eq_of_mem_replicate h] <;> omega
      · rcases List.mem_cons.mp h with rfl | h
        · exact Nat.one_pos
        · exact ih h

/-- There is one block at most if it is a byte or a word. -/
theorem length_memcpyBlocks (n : Nat) (edi : Word) :
    (memcpyBlocks n edi).length ≤ 1 ↔ n ≤ 1 ∨ n = 4 ∧ edi &&& 3 = 0 := by
  cases n with
  | zero => exact iff_of_true (Nat.zero_le 1) (Or.inl (Nat.zero_le 1))
  | succ n =>
      rw [memcpyBlocks]
      split
      next h =>
        rw [List.length_append, List.length_replicate, List.length_replicate, and_iff_left h]
        omega
      next h =>
        have hsum := sum_memcpyBlocks n (edi + 1)
        rw [List.length_cons]
        constructor
        · intro hlen
          have hnil : memcpyBlocks n (edi + 1) = [] := List.length_eq_zero_iff.mp (by omega)
          rw [hnil, List.sum_nil] at hsum
          omega
        · rintro (hle | ⟨-, haligned⟩)
          · obtain rfl : n = 0 := by omega
            exact le_rfl
          · exact absurd haligned h

theorem repMovsl_eq (n : Nat) (r : CopyState) :
    repMovsl n r = ⟨copyBlocks (List.replicate n 4) r.memory r.edi r.esi,
      r.esi + BitVec.ofNat 32 (4 * n), r.edi + BitVec.ofNat 32 (4 * n)⟩ := by
  induction n generalizing r with
  | zero => rw [repMovsl, Nat.mul_zero, BitVec.add_zero, BitVec.add_zero]; rfl
  | succ n ih =>
      have hfour : (4 : Word) = BitVec.ofNat 32 4 := rfl
      rw [repMovsl, ih, store_loadl, List.replicate_succ, copyBlocks, hfour]
      simp only
      rw [ofNat_add_ofNat, ofNat_add_ofNat, Nat.mul_succ, Nat.add_comm 4]

theorem memcpyBottom_eq (n : Nat) (r : CopyState) :
    (memcpyBottom n r).memory = copyBlocks (List.replicate n 1) r.memory r.edi r.esi := by
  induction n generalizing r with
  | zero => rfl
  | succ n ih => rw [memcpyBottom, ih, movByte_eq, List.replicate_succ, copyBlocks]; rfl

theorem memcpyTop_eq (n : Nat) (r : CopyState) :
    (memcpyTop n r).memory = copyBlocks (memcpyBlocks n r.edi) r.memory r.edi r.esi := by
  induction n generalizing r with
  | zero => rfl
  | succ n ih =>
      rw [memcpyTop, memcpyBlocks]
      split
      · rw [memcpyAligned, memcpyBottom_eq, repMovsl_eq, copyBlocks_append, List.sum_replicate_nat,
          Nat.mul_comm]
      · rw [ih, movByte_eq, copyBlocks]
        rfl

/-- `memcpy` is a copy of `n` bytes, whatever the memory holds, exactly if the destination is the
source, lies at least `n` bytes behind it, or is the address of the one word that is copied. -/
theorem memcpy_eq_copy_iff : (∀ m, memcpy m dest src n = copy m dest src n.toNat) ↔
    dest = src ∨ n ≤ dest - src ∨ n = 4 ∧ dest &&& 3 = 0 := by
  have : Nontrivial UInt8 := ⟨0, 1, by decide⟩
  have hblocks : ∀ m, memcpy m dest src n = copyBlocks (memcpyBlocks n.toNat dest) m dest src :=
    fun m => memcpyTop_eq n.toNat ⟨m, src, dest⟩
  have hsum := sum_memcpyBlocks n.toNat dest
  have hiff := copyBlocks_eq_copy_iff UInt8 dest src (fun b hb => pos_of_mem_memcpyBlocks hb)
    (by rw [hsum]; exact Nat.le_of_lt n.isLt)
  rw [hsum, length_memcpyBlocks] at hiff
  simp only [hblocks]
  rw [hiff, BitVec.le_def]
  have hfour : n.toNat = 4 ↔ n = 4 := by
    rw [BitVec.toNat_eq]
    rfl
  rw [hfour]
  -- a copy of one byte is among the first two cases
  have hone : n.toNat ≤ 1 → dest = src ∨ n.toNat ≤ (dest - src).toNat := by
    intro hle
    by_cases heq : dest = src
    · exact Or.inl heq
    · right
      have hpos : (dest - src).toNat ≠ 0 := fun h => heq (by
        rw [← add_ofNat_toNat_sub src dest, h, BitVec.add_zero])
      omega
  tauto

theorem repMovsb_up (n : Nat) (r : CopyState) :
    (repMovsb false n r).memory = copyBlocks (List.replicate n 1) r.memory r.edi r.esi := by
  induction n generalizing r with
  | zero => rfl
  | succ n ih =>
      have hcell : copy r.memory r.edi r.esi 1 =
          Function.update r.memory r.edi (r.memory r.esi) := by
        rw [copy, fill_one, BitVec.add_zero]
      rw [repMovsb, if_neg Bool.false_ne_true, ih, List.replicate_succ, copyBlocks, hcell]
      rfl

theorem repMovsb_down (n : Nat) (r : CopyState) :
    (repMovsb true n r).memory = copyDown n r.memory r.edi r.esi := by
  induction n generalizing r with
  | zero => rfl
  | succ n ih => rw [repMovsb, if_pos rfl, ih, copyDown]

/-- `memmove` is a copy of `n` bytes, whatever the memory holds, exactly if neither range runs round
the end of the addresses into the other one. -/
theorem memmove_eq_copy_iff : (∀ m, (memmove m dest src n).1 = copy m dest src n.toNat) ↔
    n.toNat ≤ 1 ∨ n.toNat + (src.toNat - dest.toNat) ≤ 2 ^ 32 ∧
      n.toNat + (dest.toNat - src.toNat) ≤ 2 ^ 32 := by
  have : Nontrivial UInt8 := ⟨0, 1, by decide⟩
  have hn : n.toNat ≤ 2 ^ 32 := Nat.le_of_lt n.isLt
  have hdest := dest.isLt
  have hsrc := src.isLt
  rcases Nat.lt_or_ge src.toNat dest.toNat with hlt | hge
  · -- the source is below: the copy runs down from the last byte of both ranges
    have hdown : ∀ m, (memmove m dest src n).1 =
        copyDown n.toNat m (dest + n - 1) (src + n - 1) := by
      intro m
      rw [memmove, if_neg (by omega)]
      exact repMovsb_down _ _
    have hends : ∀ a : Word, a + n - 1 + 1 - BitVec.ofNat 32 n.toNat = a := by
      intro a
      rw [BitVec.sub_add_cancel, BitVec.ofNat_toNat, BitVec.setWidth_eq, BitVec.add_sub_cancel]
    have hdistance : (src + n - 1 - (dest + n - 1)).toNat = 2 ^ 32 - dest.toNat + src.toNat := by
      have hsub : src + n - 1 - (dest + n - 1) = src - dest := by abel
      rw [hsub, BitVec.toNat_sub, Nat.mod_eq_of_lt (by omega)]
    have hne : dest + n - 1 ≠ src + n - 1 := by
      intro heq
      rw [heq, BitVec.sub_self, BitVec.toNat_zero] at hdistance
      omega
    have hiff := copyDown_eq_copy_iff UInt8 (dest + n - 1) (src + n - 1) hn
    rw [hends, hends, hdistance, or_iff_right hne] at hiff
    simp only [hdown]
    rw [hiff]
    omega
  · -- the source is not below: the copy runs up
    have hup : ∀ m, (memmove m dest src n).1 =
        copyBlocks (List.replicate n.toNat 1) m dest src := by
      intro m
      rw [memmove, if_pos hge]
      exact repMovsb_up _ _
    by_cases heq : dest = src
    · have hcopy := (copyCells_eq_copy_iff UInt8 dest src hn).mpr (Or.inl heq)
      rw [heq] at hup hcopy ⊢
      exact iff_of_true (fun m => (hup m).trans (hcopy m)) (Or.inr (by omega))
    · have hne : dest.toNat ≠ src.toNat := fun h => heq (BitVec.eq_of_toNat_eq h)
      have hdistance : (dest - src).toNat = 2 ^ 32 - src.toNat + dest.toNat := by
        rw [BitVec.toNat_sub, Nat.mod_eq_of_lt (by omega)]
      have hiff := copyCells_eq_copy_iff UInt8 dest src hn
      rw [hdistance, or_iff_right heq] at hiff
      simp only [hup]
      rw [hiff]
      omega

end Copy

/-! ## The pages of the terminals -/

section Pages

variable {m : Memory} {v : Video}

/-- The text pages lie in the memory as the state of the screen says: two bytes for each cell of the
0x1000 bytes of a page. -/
def HoldsPages (m : Memory) (v : Video) : Prop :=
  ∀ (r : FrameRef) (i : Nat), i < 0x800 →
    (m (frameAddr r + BitVec.ofNat 32 (2 * i)), m (frameAddr r + BitVec.ofNat 32 (2 * i + 1))) =
      v.page r i

/-- The pages do not overlap. -/
theorem frameAddr_apart {r r' : FrameRef} (h : r ≠ r') :
    0x1000 ≤ (frameAddr r - frameAddr r').toNat := by
  cases r with
  | screen =>
      cases r' with
      | screen => exact absurd rfl h
      | backing t => revert t; decide
  | backing t =>
      cases r' with
      | screen => revert t; decide
      | backing t' =>
          have hne : t ≠ t' := fun heq => h (congrArg FrameRef.backing heq)
          revert t t'; decide

/-- Bytes of another page. -/
theorem frameAddr_byte {r r' : FrameRef} (h : r ≠ r') {j : Nat} (hj : j < 0x1000) :
    0x1000 ≤ (frameAddr r + BitVec.ofNat 32 j - frameAddr r').toNat := by
  have hup := frameAddr_apart h
  have hdown := frameAddr_apart h.symm
  have hlt := (frameAddr r - frameAddr r').isLt
  rw [← neg_sub, BitVec.toNat_neg, Nat.mod_eq_of_lt (by omega)] at hdown
  have hsum : frameAddr r + BitVec.ofNat 32 j - frameAddr r' =
      frameAddr r - frameAddr r' + BitVec.ofNat 32 j := by
    abel
  rw [hsum, BitVec.toNat_add, BitVec.toNat_ofNat, Nat.mod_eq_of_lt (by omega : j < 2 ^ 32),
    Nat.mod_eq_of_lt (by omega)]
  omega

/-- A copy of a page, which lies apart from the other one. -/
theorem memcpy_page {r r' : FrameRef} (h : r ≠ r') (m : Memory) :
    memcpy m (frameAddr r) (frameAddr r') 0x1000 = copy m (frameAddr r) (frameAddr r') 0x1000 :=
  memcpy_eq_copy_iff.mpr (Or.inr (Or.inl (frameAddr_apart h : (0x1000 : Word).toNat ≤ _))) m

theorem HoldsPages.copyPage (h : HoldsPages m v) {r r' : FrameRef} (hne : r ≠ r') :
    HoldsPages (memcpy m (frameAddr r) (frameAddr r') 0x1000) (v.setPage r (v.page r')) := by
  intro f i hi
  rw [memcpy_page hne, copy]
  by_cases hf : f = r
  · rw [hf, fill_add_ofNat (by omega), fill_add_ofNat (by omega), if_pos (by omega),
      if_pos (by omega), h r' i hi, Video.page_setPage_self]
  · have hkept : ∀ j, j < 0x1000 →
        fill m (frameAddr r) (fun i => m (frameAddr r' + BitVec.ofNat 32 i)) 0x1000
          (frameAddr f + BitVec.ofNat 32 j) = m (frameAddr f + BitVec.ofNat 32 j) :=
      fun j hj => if_neg (Nat.not_lt.mpr (frameAddr_byte hf hj))
    rw [hkept _ (by omega), hkept _ (by omega), h f i hi, Video.page_setPage_of_ne hf]

/-- The copies of a switch leave the pages as the switch of the model does, and no other byte is
written. -/
theorem copyPages_swapPages {previous next : Terminal} (hne : previous ≠ next)
    (h : HoldsPages m v) : HoldsPages (copyPages m previous next) (swapPages v previous next) ∧
      ∀ x, 0x1000 ≤ (x - frameAddr .screen).toNat →
        0x1000 ≤ (x - frameAddr (.backing previous)).toNat → copyPages m previous next x = m x := by
  have hback : FrameRef.backing previous ≠ .screen := FrameRef.noConfusion
  have hscreen : FrameRef.screen ≠ .backing next := FrameRef.noConfusion
  have hnext : FrameRef.backing next ≠ .backing previous := fun h =>
    hne (FrameRef.backing.inj h).symm
  constructor
  · have hswap : swapPages v previous next =
        (v.setPage (.backing previous) (v.page .screen)).setPage .screen
          ((v.setPage (.backing previous) (v.page .screen)).page (.backing next)) := by
      rw [Video.page_setPage_of_ne hnext]
      rfl
    rw [hswap]
    exact (h.copyPage hback).copyPage hscreen
  · intro x hx hx'
    rw [copyPages, memcpy_page hscreen, memcpy_page hback]
    exact (if_neg (Nat.not_lt.mpr hx)).trans (if_neg (Nat.not_lt.mpr hx'))

end Pages

/-- A switch from the first terminal to the second one, with a screen full of one byte. -/
theorem copyPages_swapPages_filled :
    HoldsPages (copyPages (fun x => if x < 0xB9000 then 65 else 0) 0 1)
      (swapPages ⟨fun _ => (65, 65), fun _ _ => (0, 0), 0, 0, .video, .screen, 0⟩ 0 1) := by
  have hne : (0 : Terminal) ≠ 1 := by decide
  refine (copyPages_swapPages hne fun r i hi => ?_).1
  have hbyte : ∀ j, j < 0x1000 →
      (if frameAddr r + BitVec.ofNat 32 j < 0xB9000 then 65 else 0) =
        (if r = .screen then 65 else 0 : UInt8) := by
    intro j hj
    refine if_congr ?_ rfl rfl
    have hend : (0xB9000 : Word).toNat = 0xB9000 := rfl
    rw [BitVec.lt_def, BitVec.toNat_add, BitVec.toNat_ofNat, hend]
    cases r with
    | screen =>
        have haddr : (frameAddr .screen).toNat = 0xB8000 := rfl
        rw [haddr]
        simp only [iff_true]
        omega
    | backing t =>
        have haddr : (frameAddr (.backing t)).toNat = 0xB9000 + 0x1000 * t.val := by
          revert t
          decide
        rw [haddr]
        simp only [reduceCtorEq, iff_false]
        omega
  rw [hbyte _ (by omega), hbyte _ (by omega)]
  cases r <;> rfl

end Ece391Os
