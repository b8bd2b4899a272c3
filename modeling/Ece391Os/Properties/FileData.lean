import Ece391Os.Model.FileSystem
import Mathlib.Data.BitVec
import Mathlib.Tactic.Cases

/-!
# What `read_data` transfers

The loop of `read_data` keeps a block pointer, an offset in the block and the number of
the block. Together they are the index `q` of a byte of the file; `readFrom` is the loop
in terms of `q`, and `readFrom_full`, `readFrom_cut` and `readFrom_eof` are its three
exits: the request is inside the file, it starts inside and runs past the end, or it
starts at position `0` and runs past the end.
-/

set_option autoImplicit false

namespace Ece391Os

/-- Where byte `q` of a file lies: data block and offset. -/
def dataIndex (node : NodeBlock) (q : Nat) : Word × Nat :=
  (node.dataBlocks (q / fileSize), q % fileSize)

/-- Byte `q` behind the start of a file, or `none` if its page is not mapped. -/
def fileByte (img : FsImage) (node : NodeBlock) (q : Nat) : Option UInt8 :=
  img.dataList (dataIndex node q).1 (dataIndex node q).2

/-- The stores of the bytes `p + i`, `p + i + 1`, … at the indices `i`, `i + 1`, … -/
def bytesStored (img : FsImage) (node : NodeBlock) (p : Nat) : Nat → Nat → Stores
  | 0, _ => []
  | m + 1, i => (i, (fileByte img node (p + i)).getD 0) :: bytesStored img node p m (i + 1)

/-- The fetches of the bytes `q`, `q + 1`, … -/
def bytesFetched (node : NodeBlock) : Nat → Nat → List (Word × Nat)
  | 0, _ => []
  | m + 1, q => dataIndex node q :: bytesFetched node m (q + 1)

/-- The loop of `read_data` at byte `q` of the file. -/
def readFrom (img : FsImage) (node : NodeBlock) (block : FdBlock) (rem i q : Nat) :
    ReadResult :=
  readLoop img node block rem i (q % fileSize) (q / fileSize) (node.dataBlocks (q / fileSize))

@[simp] theorem advance_filePosition_toNat (b : FdBlock) (i : Nat) :
    (b.advance i).filePosition.toNat = (b.filePosition.toNat + i) % 2 ^ 32 := by
  simp [FdBlock.advance]

@[simp] theorem readFrom_zero (img : FsImage) (node : NodeBlock) (block : FdBlock) (i q : Nat) :
    readFrom img node block 0 i q = ⟨.returned i, block.advance i, [], []⟩ := rfl

/-- One iteration in terms of the byte index: the reload of the block pointer keeps the
three loop variables in step with `q`. -/
theorem readFrom_succ (img : FsImage) (node : NodeBlock) (block : FdBlock) (rem i q : Nat) :
    readFrom img node block (rem + 1) i q =
      if i = node.bLength.toNat then
        match fileByte img node q with
        | none => ⟨.pageFault, block, [], [dataIndex node q]⟩
        | some b => ⟨.returned i, block.advance i, [(i, b)], [dataIndex node q]⟩
      else if (block.advance i).filePosition.toNat ≥ node.bLength.toNat then
        ⟨.returned 0, block, [], []⟩
      else
        match fileByte img node q with
        | none => ⟨.pageFault, block, [], [dataIndex node q]⟩
        | some b => (readFrom img node block rem (i + 1) (q + 1)).afterByte i b
            (dataIndex node q) := by
  -- the two counters of the loop, block and byte in the block, are those of the next byte
  have hnext : (if (q % fileSize + 1) % fileSize = 0 then
        readLoop img node block rem (i + 1) 0 (q / fileSize + 1)
          (node.dataBlocks (q / fileSize + 1))
      else
        readLoop img node block rem (i + 1) (q % fileSize + 1) (q / fileSize)
          (node.dataBlocks (q / fileSize))) = readFrom img node block rem (i + 1) (q + 1) := by
    by_cases hend : (q % fileSize + 1) % fileSize = 0
    · have hdiv : (q + 1) / fileSize = q / fileSize + 1 := by
        simp only [fileSize] at hend ⊢
        omega
      have hmod : (q + 1) % fileSize = 0 := by
        simp only [fileSize] at hend ⊢
        omega
      rw [if_pos hend, readFrom, hdiv, hmod]
    · have hdiv : (q + 1) / fileSize = q / fileSize := by
        simp only [fileSize] at hend ⊢
        omega
      have hmod : (q + 1) % fileSize = q % fileSize + 1 := by
        simp only [fileSize] at hend ⊢
        omega
      rw [if_neg hend, readFrom, hdiv, hmod]
  rw [← hnext]
  simp only [readFrom, readLoop, fileByte, dataIndex]
  split
  · rfl
  · split
    · rfl
    · cases img.dataList (node.dataBlocks (q / fileSize)) (q % fileSize) with
      | none => rfl
      | some b =>
          simp only
          split <;> rfl

section Exits

variable {img : FsImage} {node : NodeBlock} {block : FdBlock}

/-- A request inside the file: the whole count is transferred. -/
theorem readFrom_full {rem i p : Nat} (hp : block.filePosition.toNat = p)
    (hend : p + i + rem ≤ node.bLength.toNat)
    (hmap : ∀ m, m < rem → (fileByte img node (p + i + m)).isSome) :
    readFrom img node block rem i (p + i) =
      ⟨.returned ((i + rem : Nat) : Int), block.advance (i + rem),
        bytesStored img node p rem i, bytesFetched node rem (p + i)⟩ := by
  induction rem generalizing i with
  | zero => simp [bytesStored, bytesFetched]
  | succ rem ih =>
      have hlt := node.bLength.isLt
      have hpos : (block.advance i).filePosition.toNat = p + i := by
        rw [advance_filePosition_toNat, hp]
        exact Nat.mod_eq_of_lt (by omega)
      obtain ⟨b, hb⟩ := Option.isSome_iff_exists.mp (hmap 0 (by omega))
      rw [Nat.add_zero] at hb
      have hrest := ih (i := i + 1) (by omega) fun m hm => by
        have h := hmap (m + 1) (by omega)
        rwa [show p + i + (m + 1) = p + (i + 1) + m by omega] at h
      rw [readFrom_succ, if_neg (by omega), if_neg (by omega), hb]
      simp only
      rw [show p + i + 1 = p + (i + 1) by omega, hrest]
      simp only [ReadResult.afterByte, bytesStored, bytesFetched, hb, Option.getD_some]
      rw [show i + 1 + rem = i + (rem + 1) by omega, show p + (i + 1) = p + i + 1 by omega]

/-- A request that starts inside the file and runs past its end returns `0` and leaves the
position where it was, after it stored the rest of the file. -/
theorem readFrom_cut {rem i p : Nat} (hp : block.filePosition.toNat = p) (hpos : 0 < p)
    (hi : p + i ≤ node.bLength.toNat) (hend : node.bLength.toNat < p + i + rem)
    (hmap : ∀ q, p + i ≤ q → q < node.bLength.toNat → (fileByte img node q).isSome) :
    readFrom img node block rem i (p + i) =
      ⟨.returned 0, block, bytesStored img node p (node.bLength.toNat - (p + i)) i,
        bytesFetched node (node.bLength.toNat - (p + i)) (p + i)⟩ := by
  induction rem generalizing i with
  | zero => omega
  | succ rem ih =>
      have hlt := node.bLength.isLt
      have hadv : (block.advance i).filePosition.toNat = p + i := by
        rw [advance_filePosition_toNat, hp]
        exact Nat.mod_eq_of_lt (by omega)
      rw [readFrom_succ, if_neg (by omega)]
      by_cases hlast : p + i = node.bLength.toNat
      · rw [if_pos (by omega), hlast, Nat.sub_self]
        rfl
      · obtain ⟨b, hb⟩ := Option.isSome_iff_exists.mp (hmap (p + i) (by omega) (by omega))
        have hrest := ih (i := i + 1) (by omega) (by omega)
          fun q hq hqn => hmap q (by omega) hqn
        rw [if_neg (by omega), hb]
        simp only
        rw [show p + i + 1 = p + (i + 1) by omega, hrest]
        rw [show node.bLength.toNat - (p + i) = node.bLength.toNat - (p + (i + 1)) + 1 by omega]
        simp only [ReadResult.afterByte, bytesStored, bytesFetched, hb, Option.getD_some]
        rw [show p + (i + 1) = p + i + 1 by omega]

/-- A request from position `0` past the end of the file: one more byte is fetched and
stored, and if its page is mapped the length of the file is returned. -/
theorem readFrom_eof {rem i n : Nat} (hn : node.bLength.toNat = n)
    (hp : block.filePosition.toNat = 0) (hi : i ≤ n) (hend : n < i + rem)
    (hmap : ∀ q, i ≤ q → q < n → (fileByte img node q).isSome) :
    readFrom img node block rem i i =
      match fileByte img node n with
      | none => ⟨.pageFault, block, bytesStored img node 0 (n - i) i,
          bytesFetched node (n - i + 1) i⟩
      | some _ => ⟨.returned n, block.advance n, bytesStored img node 0 (n - i + 1) i,
          bytesFetched node (n - i + 1) i⟩ := by
  induction rem generalizing i with
  | zero => omega
  | succ rem ih =>
      have hlt := node.bLength.isLt
      rw [readFrom_succ, hn]
      by_cases hlast : i = n
      · subst hlast
        cases hb : fileByte img node i <;> simp [bytesStored, bytesFetched, hb]
      · have hadv : (block.advance i).filePosition.toNat = i := by
          rw [advance_filePosition_toNat, hp, Nat.zero_add]
          exact Nat.mod_eq_of_lt (by omega)
        obtain ⟨b, hb⟩ := Option.isSome_iff_exists.mp (hmap i (by omega) (by omega))
        have hrest := ih (i := i + 1) (by omega) (by omega)
          fun q hq hqn => hmap q (by omega) hqn
        rw [if_neg hlast, if_neg (by omega), hb]
        simp only
        rw [hrest, show n - i = n - (i + 1) + 1 by omega]
        cases fileByte img node n <;>
          simp [ReadResult.afterByte, bytesStored, bytesFetched, hb]

/-- A read from position `0` that comes to an unmapped byte faults. -/
theorem readFrom_fault {rem i n q : Nat} (hn : node.bLength.toNat = n)
    (hp : block.filePosition.toNat = 0) (hi : i ≤ q) (hrem : q < i + rem) (hq : q ≤ n)
    (hmap : fileByte img node q = none) :
    (readFrom img node block rem i i).exit = .pageFault := by
  induction rem generalizing i with
  | zero => omega
  | succ rem ih =>
      have hlt := node.bLength.isLt
      rw [readFrom_succ, hn]
      by_cases hlast : i = n
      · have hqi : q = i := by omega
        rw [if_pos hlast, ← hqi, hmap]
      · have hadv : (block.advance i).filePosition.toNat = i := by
          rw [advance_filePosition_toNat, hp, Nat.zero_add]
          exact Nat.mod_eq_of_lt (by omega)
        rw [if_neg hlast, if_neg (by omega)]
        cases hb : fileByte img node i with
        | none => rfl
        | some b =>
            have hne : q ≠ i := by
              rintro rfl
              rw [hmap] at hb
              cases hb
            exact ih (by omega) (by omega)

end Exits

/-! ## The buffer after the stores -/

/-- The stores of file bytes `p + i`, `p + i + 1`, … replace the bytes of the buffer from index
`i` on. -/
theorem applyStores_bytesStored (img : FsImage) (node : NodeBlock) (p m i j : Nat)
    (buf : Nat → UInt8) :
    applyStores buf (bytesStored img node p m i) j =
      if i ≤ j ∧ j < i + m then (fileByte img node (p + j)).getD 0 else buf j := by
  induction m generalizing i buf with
  | zero => simp [bytesStored, applyStores]
  | succ m ih =>
      have hrest := ih (i + 1) (Function.update buf i ((fileByte img node (p + i)).getD 0))
      have hcons : applyStores buf (bytesStored img node p (m + 1) i) j =
          applyStores (Function.update buf i ((fileByte img node (p + i)).getD 0))
            (bytesStored img node p m (i + 1)) j := rfl
      rw [hcons, hrest]
      rcases eq_or_ne j i with rfl | hne
      · rw [if_neg (by omega), if_pos (by omega), Function.update_self]
      · by_cases hin : i + 1 ≤ j ∧ j < i + 1 + m
        · rw [if_pos hin, if_pos (by omega)]
        · rw [if_neg hin, if_neg (by omega), Function.update_of_ne hne]

/-- The stores of a name replace the bytes of the buffer up to the `NUL` of the name. -/
theorem applyStores_copyName (name : Nat → UInt8) (rem i j : Nat) (buf : Nat → UInt8) :
    applyStores buf (copyName name rem i).2 j =
      if i ≤ j ∧ j < i + rem ∧ ∀ l, i ≤ l → l < j → name l ≠ 0 then name j else buf j := by
  -- over the rounds that are left
  induction rem generalizing i buf with
  | zero =>
      rw [if_neg (by omega)]
      rfl
  | succ rem ih =>
      rw [copyName]
      by_cases hnul : name i = 0
      · -- the `NUL` is stored, and the copy ends
        rw [if_pos hnul]
        have hone : applyStores buf [(i, 0)] j = Function.update buf i 0 j := rfl
        rw [hone]
        rcases eq_or_ne j i with rfl | hne
        · rw [Function.update_self, if_pos ⟨by omega, by omega, fun l _ _ => by omega⟩, hnul]
        · rw [Function.update_of_ne hne, if_neg]
          rintro ⟨hij, _, hall⟩
          exact hall i le_rfl (by omega) hnul
      · rw [if_neg hnul]
        have hcons : applyStores buf ((i, name i) :: (copyName name rem (i + 1)).2) j =
            applyStores (Function.update buf i (name i)) (copyName name rem (i + 1)).2 j := rfl
        rw [hcons, ih]
        rcases eq_or_ne j i with rfl | hne
        · rw [if_neg (by omega), Function.update_self,
            if_pos ⟨by omega, by omega, fun l _ _ => by omega⟩]
        · -- the byte at `i` is no `NUL`, so it stops neither loop
          have hiff : (i + 1 ≤ j ∧ j < i + 1 + rem ∧ ∀ l, i + 1 ≤ l → l < j → name l ≠ 0) ↔
              (i ≤ j ∧ j < i + (rem + 1) ∧ ∀ l, i ≤ l → l < j → name l ≠ 0) := by
            constructor
            · rintro ⟨hij, hlt, hall⟩
              refine ⟨by omega, by omega, fun l hl hlj => ?_⟩
              rcases eq_or_ne l i with rfl | hli
              · exact hnul
              · exact hall l (by omega) hlj
            · rintro ⟨hij, hlt, hall⟩
              exact ⟨by omega, by omega, fun l hl hlj => hall l (by omega) hlj⟩
          rw [Function.update_of_ne hne]
          exact if_congr hiff rfl rfl

end Ece391Os
