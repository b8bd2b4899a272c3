import Ece391Os.Library.Cursor
import Ece391Os.Library.PaddedText
import Ece391Os.Properties.Executables

/-!
# What a directory lists

`directory_read` counts its progress twice: the position runs over all slots of the directory, and
the flags count down the entries that are left. `directoryLoop_at` brings the two together: the
call delivers the next named entry. `enumerates_iff` and `listing_agrees` are about whole
enumerations, and about lookups of what they list.
-/

set_option autoImplicit false

namespace Ece391Os

/-! ## Names -/

/-- The name of an entry: the bytes of its field up to the first `NUL`. -/
def DirEntry.name (d : DirEntry) : List UInt8 := PaddedText.read 0 filenameSize d.filename

/-- The slots from `p` on whose name is not empty. -/
def namedFrom (img : FsImage) (p : Nat) : List Nat :=
  (List.range' p (maxDirEntries - p)).filter fun q => (img.dirEntries q).filename 0 ≠ 0

/-- An image whose boot block counts its named entries and has them at indices that
`read_dentry_by_index` accepts. -/
structure FsImage.Listed (img : FsImage) : Prop where
  count : img.numDirEntries.toNat = (namedFrom img 0).length
  below : ∀ q ∈ namedFrom img 0, q < img.inodes.toNat

section Names

variable {img : FsImage}

theorem mem_namedFrom {p q : Nat} :
    q ∈ namedFrom img p ↔ p ≤ q ∧ q < maxDirEntries ∧ (img.dirEntries q).filename 0 ≠ 0 := by
  rw [namedFrom, List.mem_filter, List.mem_range'_1, decide_eq_true_iff]
  constructor
  · rintro ⟨⟨hle, hlt⟩, hname⟩
    exact ⟨hle, by omega, hname⟩
  · rintro ⟨hle, hlt, hname⟩
    exact ⟨⟨hle, by omega⟩, hname⟩

theorem namedFrom_end : namedFrom img maxDirEntries = [] := by
  rw [namedFrom, Nat.sub_self]
  rfl

theorem namedFrom_of_lt {p : Nat} (hp : p < maxDirEntries) :
    namedFrom img p =
      if (img.dirEntries p).filename 0 ≠ 0 then p :: namedFrom img (p + 1)
      else namedFrom img (p + 1) := by
  have hsize : maxDirEntries - p = (maxDirEntries - (p + 1)) + 1 := by omega
  rw [namedFrom, hsize, List.range'_succ, List.filter_cons]
  simp only [decide_eq_true_eq]
  rfl

/-- The first named slot from `p` on, and those behind it. -/
theorem namedFrom_cons {p q : Nat} {l : List Nat} (h : namedFrom img p = q :: l) :
    p ≤ q ∧ q < maxDirEntries ∧ (img.dirEntries q).filename 0 ≠ 0 ∧ namedFrom img (q + 1) = l := by
  obtain ⟨hle, hlt, hname⟩ := mem_namedFrom.mp (h ▸ List.mem_cons_self)
  refine ⟨hle, hlt, hname, ?_⟩
  induction hk : maxDirEntries - p generalizing p with
  | zero => omega
  | succ k ih =>
      have hp : p < maxDirEntries := by omega
      rw [namedFrom_of_lt hp] at h
      split at h
      · obtain ⟨rfl, rfl⟩ := List.cons.inj h
        rfl
      · have hnext := (mem_namedFrom.mp (h ▸ List.mem_cons_self : q ∈ namedFrom img (p + 1))).1
        exact ih h hnext (by omega)

end Names

/-! ## One call -/

/-- What a call delivers when it comes to slot `q`. -/
def deliver (img : FsImage) (behind : Nat → UInt8) (nbytes : Int) (block : FdBlock) (q : Nat) :
    ReadResult :=
  let r := copyName ((img.dirEntries q).byteAt behind) nbytes.toNat 0
  { exit := .returned ((r.1.map fun n : Nat => (n : Int)).getD nbytes)
    block := { block with filePosition := BitVec.ofNat 32 (q + 1), flags := block.flags - 1 }
    stores := r.2
    fetches := [] }

/-- A directory descriptor before the named slots `l`. -/
structure BeforeEntries (img : FsImage) (block : FdBlock) (l : List Nat) : Prop where
  position_le : block.filePosition.toNat ≤ maxDirEntries
  rest : namedFrom img block.filePosition.toNat = l
  flags : block.flags.toNat = l.length

section Call

variable {img : FsImage} {behind : Nat → UInt8} {nbytes : Int}

theorem flags_eq_zero_iff {img : FsImage} {block : FdBlock} {l : List Nat}
    (h : BeforeEntries img block l) : block.flags = 0 ↔ l = [] := by
  rw [← List.length_eq_zero_iff, ← h.flags]
  exact ⟨fun h => by rw [h]; rfl, fun h => BitVec.eq_of_toNat_eq h⟩

/-- Without entries a call returns `0`. -/
theorem directoryLoop_end {fuel : Nat} {dentry : DirEntry} {block : FdBlock}
    (h : BeforeEntries img block []) :
    directoryLoop img behind nbytes (fuel + 1) dentry block = ⟨.returned 0, block, [], []⟩ := by
  exact directoryLoop_of_end (Or.inl ((flags_eq_zero_iff h).mpr rfl))

/-- The call passes over the slots without a name and delivers the next one with a name. -/
theorem directoryLoop_at (himg : img.Listed) (hn : 0 ≤ nbytes) {q : Nat} {l : List Nat}
    {fuel : Nat} {dentry : DirEntry} {block : FdBlock} (h : BeforeEntries img block (q :: l))
    (hfuel : maxDirEntries ≤ block.filePosition.toNat + fuel) :
    directoryLoop img behind nbytes (fuel + 1) dentry block =
      deliver img behind nbytes block q := by
  induction fuel generalizing dentry block with
  | zero =>
      -- no rounds are left only behind the last slot, where no entry is to come
      have hrest := h.rest
      have hend : block.filePosition.toNat = maxDirEntries := by
        have := h.position_le
        omega
      rw [hend, namedFrom_end] at hrest
      cases hrest
  | succ fuel ih =>
      obtain ⟨hle, hlt, hname, hrest⟩ := namedFrom_cons h.rest
      have hlen := himg.below q (mem_namedFrom.mpr ⟨Nat.zero_le q, hlt, hname⟩)
      have hgo : ¬ (block.flags = 0 ∨ block.filePosition.toNat = maxDirEntries) := by
        rintro (hzero | hend)
        · exact absurd ((flags_eq_zero_iff h).mp hzero) (List.cons_ne_nil q l)
        · omega
      -- a slot in front of a named one is accepted by `read_dentry_by_index`
      have hvisible : ¬ block.filePosition > img.inodes - 1 := by
        intro hgt
        have hgt := BitVec.lt_def.mp hgt
        rw [BitVec.toNat_sub] at hgt
        have hone : (1 : Word).toNat = 1 := rfl
        rw [hone] at hgt
        omega
      have hread : readDentryByIndex img block.filePosition dentry =
          img.dirEntries block.filePosition.toNat := by
        rw [readDentryByIndex, if_neg hvisible]
      by_cases hempty : (img.dirEntries block.filePosition.toNat).filename 0 = 0
      · -- an empty slot: the descriptor moves on before the same entries
        have hnext : (block.filePosition + 1).toNat = block.filePosition.toNat + 1 :=
          toNat_position_succ (by omega)
        have hrest' : namedFrom img (block.filePosition.toNat + 1) = q :: l := by
          have hskip := h.rest
          rw [namedFrom_of_lt (by omega), if_neg (not_not.mpr hempty)] at hskip
          exact hskip
        have hbefore : BeforeEntries img { block with filePosition := block.filePosition + 1 }
            (q :: l) :=
          ⟨by simp only [hnext]; omega, by simp only [hnext]; exact hrest', h.flags⟩
        rw [directoryLoop_of_empty hgo (by rw [hread]; exact hempty),
          ih hbefore (by simp only [hnext]; omega)]
        rfl
      · -- the slot is the first of the named ones that are to come
        have hhere : block.filePosition.toNat = q := by
          have hfirst := h.rest
          rw [namedFrom_of_lt (by omega), if_pos hempty] at hfirst
          exact (List.cons.inj hfirst).1
        have hblock : block.nextEntry = { block with
            filePosition := BitVec.ofNat 32 (q + 1), flags := block.flags - 1 } := by
          have hpos : block.filePosition + 1 = BitVec.ofNat 32 (q + 1) := by
            apply BitVec.eq_of_toNat_eq
            rw [BitVec.toNat_add, hhere, BitVec.toNat_ofNat]
            rfl
          rw [FdBlock.nextEntry, hpos]
        rw [directoryLoop_of_name hgo (by rw [hread]; exact hempty) hn, hread, hhere, hblock]
        rfl

/-- The descriptor then stands before the entries behind the delivered one. -/
theorem BeforeEntries.deliver {q : Nat} {l : List Nat} {block : FdBlock}
    (h : BeforeEntries img block (q :: l)) :
    BeforeEntries img (deliver img behind nbytes block q).block l := by
  obtain ⟨-, hlt, -, hrest⟩ := namedFrom_cons h.rest
  have hpos : (Ece391Os.deliver img behind nbytes block q).block.filePosition.toNat = q + 1 := by
    simp only [Ece391Os.deliver, BitVec.toNat_ofNat]
    simp only [maxDirEntries] at hlt
    omega
  have hflags : (block.flags - 1).toNat = l.length := by
    have hcount := h.flags
    rw [List.length_cons] at hcount
    have hone : (1 : Word).toNat = 1 := rfl
    rw [BitVec.toNat_sub, hone]
    have := block.flags.isLt
    omega
  exact ⟨by rw [hpos]; exact hlt, by rw [hpos]; exact hrest, hflags⟩

/-! ### What is delivered -/

/-- The index of the `NUL` at which the copy ends. -/
theorem copyName_fst (name : Nat → UInt8) (n i : Nat) :
    (copyName name n i).1 =
      if (PaddedText.read 0 n fun j => name (i + j)).length < n then
        some (i + (PaddedText.read 0 n fun j => name (i + j)).length)
      else none := by
  induction n generalizing i with
  | zero => rfl
  | succ n ih =>
      rw [copyName, PaddedText.read_succ]
      by_cases hnul : name i = 0
      · have hnul' : name (i + 0) = 0 := hnul
        rw [if_pos hnul, if_pos hnul', List.length_nil, if_pos (Nat.succ_pos n)]
        rfl
      · have hnul' : ¬ name (i + 0) = 0 := hnul
        have hshift : (fun j => name (i + 1 + j)) = fun j => name (i + (j + 1)) := by
          funext j
          congr 1
          omega
        rw [if_neg hnul, if_neg hnul', List.length_cons]
        simp only [ih, hshift]
        by_cases hlt : (PaddedText.read 0 n fun j => name (i + (j + 1))).length < n
        · rw [if_pos hlt, if_pos (by omega)]
          congr 1
          omega
        · rw [if_neg hlt, if_neg (by omega)]

/-- A delivery returns the length of the text that it finds, and stores the text. -/
theorem deliver_text {n : Nat} (block : FdBlock) (q : Nat) :
    (deliver img behind n block q).exit = .returned
        (PaddedText.read 0 n ((img.dirEntries q).byteAt behind)).length ∧
      ∀ buf j, j < (PaddedText.read 0 n ((img.dirEntries q).byteAt behind)).length →
        applyStores buf (deliver img behind n block q).stores j =
          (img.dirEntries q).byteAt behind j := by
  obtain ⟨hle, hall, -⟩ := PaddedText.length_read_iff.mp
    (rfl : (PaddedText.read 0 n ((img.dirEntries q).byteAt behind)).length = _)
  constructor
  · have hcopy : (copyName ((img.dirEntries q).byteAt behind) n 0).1 =
        if (PaddedText.read 0 n ((img.dirEntries q).byteAt behind)).length < n then
          some (PaddedText.read 0 n ((img.dirEntries q).byteAt behind)).length
        else none := by
      have hfrom := copyName_fst ((img.dirEntries q).byteAt behind) n 0
      simp only [Nat.zero_add] at hfrom
      exact hfrom
    simp only [deliver, Int.toNat_natCast, hcopy]
    split
    · rfl
    next hlt =>
      have hfull : (PaddedText.read 0 n ((img.dirEntries q).byteAt behind)).length = n := by omega
      rw [Option.map_none, Option.getD_none, hfull]
  · intro buf j hj
    have hbyte := applyStores_copyName ((img.dirEntries q).byteAt behind) n 0 j buf
    rw [if_pos ⟨Nat.zero_le j, by omega, fun l _ hl => hall l (by omega)⟩] at hbyte
    exact hbyte

end Call

/-- A call with count `n` delivers the first bytes of the name of `d`. -/
structure Delivers (d : DirEntry) (n : Int) (r : ReadResult) : Prop where
  exit : r.exit = .returned (min n d.name.length)
  stores : ∀ buf : Nat → UInt8, ∀ j : Nat, (j : Int) < min n d.name.length →
    applyStores buf r.stores j = d.name.getD j 0

/-- The name of `d` fills its field, the count goes past it, and the byte behind the field, the
first one of the file type, is no `NUL`. -/
def Overruns (d : DirEntry) (n : Int) : Prop :=
  d.name.length = filenameSize ∧ (filenameSize : Int) < n ∧ byteOfWord d.fileType 0 ≠ 0

instance (d : DirEntry) (n : Int) : Decidable (Overruns d n) :=
  inferInstanceAs (Decidable (_ ∧ _))

section Delivers

variable {img : FsImage} {behind : Nat → UInt8}

/-- The bytes behind the name field are those of the file type. -/
theorem byteAt_name {d : DirEntry} {i : Nat} (hi : i < filenameSize) :
    d.byteAt behind i = d.filename i := if_pos hi

/-- The text that a call with count `n` finds: the first bytes of the name, unless it overruns. -/
theorem length_read_byteAt (d : DirEntry) (n : Nat) :
    (PaddedText.read 0 n (d.byteAt behind)).length = min n d.name.length ↔ ¬ Overruns d n := by
  obtain ⟨hle, hall, hend⟩ := PaddedText.length_read_iff.mp (rfl : d.name.length = _)
  have hsize : filenameSize = 32 := rfl
  have hfield : ∀ i, i < d.name.length → d.byteAt behind i ≠ 0 := by
    intro i hi
    rw [byteAt_name (by omega)]
    exact hall i hi
  rw [PaddedText.length_read_iff]
  constructor
  · rintro ⟨-, -, hstop⟩ ⟨hfull, hover, htype⟩
    rw [hsize] at hfull hover
    have hbyte : d.byteAt behind 32 = byteOfWord d.fileType 0 := rfl
    apply htype
    rw [← hbyte]
    have hmin : min n d.name.length = 32 := by omega
    rw [hmin] at hstop
    exact hstop (by omega)
  · intro hnot
    refine ⟨by omega, fun i hi => hfield i (by omega), fun hlt => ?_⟩
    have hmin : min n d.name.length = d.name.length := by omega
    rw [hmin] at hlt ⊢
    rcases Nat.lt_or_eq_of_le hle with hshort | hfull
    · rw [byteAt_name hshort]
      exact hend hshort
    · have hbyte : d.byteAt behind 32 = byteOfWord d.fileType 0 := rfl
      rw [hfull, hsize, hbyte]
      by_contra htype
      exact hnot ⟨hfull, by omega, htype⟩

/-- A call delivers the name exactly if it does not overrun it. -/
theorem delivers_iff {n : Nat} (block : FdBlock) (q : Nat) :
    Delivers (img.dirEntries q) n (deliver img behind n block q) ↔
      ¬ Overruns (img.dirEntries q) n := by
  obtain ⟨hexit, hstores⟩ := @deliver_text img behind n block q
  rw [← @length_read_byteAt behind]
  constructor
  · intro h
    have hval := Exit.returned.inj (hexit.symm.trans h.exit)
    omega
  · intro hlen
    refine ⟨by rw [hexit, hlen]; simp, fun buf j hj => ?_⟩
    have hfield := (PaddedText.length_read_iff.mp (rfl : (img.dirEntries q).name.length = _)).1
    have hin : j < (img.dirEntries q).name.length := by omega
    rw [hstores buf j (by omega), byteAt_name (by omega)]
    exact (PaddedText.getD_read hin 0).symm

end Delivers

/-! ## Enumerations -/

/-- A call of `directory_read` on a descriptor. -/
def readNext (img : FsImage) (block : FdBlock) (c : Residue × Int) : ReadResult × FdBlock :=
  let r := directoryRead img c.1 block c.2
  (r, r.block)

/-- A sequence of calls, each with its count. -/
def directoryReads (img : FsImage) (block : FdBlock) (calls : List (Residue × Int)) :
    List ReadResult :=
  Cursor.results (readNext img) block calls

/-- Call `i` delivers the name of the named entry `i`; behind the last one `0` is returned. -/
def Enumerates (img : FsImage) (block : FdBlock) (calls : List (Residue × Int)) : Prop :=
  ∀ (i : Nat) (c : Residue × Int), calls[i]? = some c →
    ∃ r, (directoryReads img block calls)[i]? = some r ∧
      match (namedFrom img 0)[i]? with
      | some q => Delivers (img.dirEntries q) c.2 r
      | none => r.exit = .returned 0

section Enumerations

variable {img : FsImage} {block : FdBlock}

/-- The descriptor stands before the next named entry. -/
theorem moves_readNext (himg : img.Listed) :
    Cursor.Moves (readNext img) (fun c => 0 ≤ c.2) (BeforeEntries img) where
  step := by
    intro block q l c hc h
    have hread : directoryRead img c.1 block c.2 = deliver img c.1.behind c.2 block q :=
      directoryLoop_at himg hc h (Nat.le_add_left _ _)
    simp only [readNext, hread]
    exact h.deliver
  stay := by
    intro block c _ h
    have hread : directoryRead img c.1 block c.2 = ⟨.returned 0, block, [], []⟩ :=
      directoryLoop_end h
    simp only [readNext, hread]
    exact h

/-- What call `i` returns. -/
theorem directoryReads_at (himg : img.Listed) (hblock : BeforeEntries img block (namedFrom img 0))
    {calls : List (Residue × Int)} (hcalls : ∀ c ∈ calls, 0 ≤ c.2) {i : Nat} {c : Residue × Int}
    (hc : calls[i]? = some c) :
    (∃ q block', (namedFrom img 0)[i]? = some q ∧ (directoryReads img block calls)[i]? =
        some (deliver img c.1.behind c.2 block' q)) ∨
      ∃ block', (namedFrom img 0)[i]? = none ∧
        (directoryReads img block calls)[i]? = some ⟨.returned 0, block', [], []⟩ := by
  obtain ⟨t, ht, hresult⟩ := (moves_readNext himg).exists_at hblock hcalls hc
  have hindex : (namedFrom img 0)[i]? = ((namedFrom img 0).drop i)[0]? := by
    rw [List.getElem?_drop, Nat.add_zero]
  cases hdrop : (namedFrom img 0).drop i with
  | nil =>
      rw [hdrop] at ht hindex
      have hread : directoryRead img c.1 t c.2 = ⟨.returned 0, t, [], []⟩ := directoryLoop_end ht
      exact Or.inr ⟨t, hindex, by rw [directoryReads, hresult, readNext, hread]⟩
  | cons q l =>
      rw [hdrop] at ht hindex
      have hread : directoryRead img c.1 t c.2 = deliver img c.1.behind c.2 t q :=
        directoryLoop_at himg (hcalls c (List.mem_of_getElem? hc)) ht (Nat.le_add_left _ _)
      exact Or.inl ⟨q, t, hindex, by rw [directoryReads, hresult, readNext, hread]⟩

/-- A directory that has just been opened. -/
theorem directoryOpen_before (himg : img.Listed) {k k' : Kernel} {filename : CString} {fd : Fin 8}
    (hopen : directoryOpen img k filename = ((fd.val : Int), k')) :
    BeforeEntries img (k'.fdTable fd) (namedFrom img 0) := by
  have hblock : k'.fdTable fd = ⟨some .dir, 0, 0, img.numDirEntries⟩ := by
    simp only [directoryOpen] at hopen
    split at hopen
    · exact absurd (congrArg Prod.fst hopen) (by simp only; omega)
    · split at hopen
      · exact absurd (congrArg Prod.fst hopen) (by simp only; omega)
      next fd' _ =>
        obtain ⟨hval, rfl⟩ := Prod.mk.inj hopen
        obtain rfl : fd' = fd := Fin.ext (by exact_mod_cast hval)
        rw [Kernel.setFd_fdTable, Function.update_self]
  rw [hblock]
  exact ⟨Nat.zero_le _, rfl, himg.count⟩

end Enumerations

/-- Calls with positive counts on a freshly opened directory enumerate its names exactly if none of
them overruns the name that it comes to. -/
theorem enumerates_iff {img : FsImage} (himg : img.Listed) {k k' : Kernel} {filename : CString}
    {fd : Fin 8} (hopen : directoryOpen img k filename = ((fd.val : Int), k'))
    {calls : List (Residue × Int)} (hcalls : ∀ c ∈ calls, 1 ≤ c.2) :
    Enumerates img (k'.fdTable fd) calls ↔
      ∀ (i : Nat) (c : Residue × Int) (q : Nat), calls[i]? = some c →
        (namedFrom img 0)[i]? = some q → ¬ Overruns (img.dirEntries q) c.2 := by
  have hblock := directoryOpen_before himg hopen
  have hnonneg : ∀ c ∈ calls, 0 ≤ c.2 := fun c hc => by
    have := hcalls c hc
    omega
  -- one call is right exactly if the name fits what it asks for
  have hdelivers : ∀ (c : Residue × Int), c ∈ calls → ∀ (b : FdBlock) (q : Nat),
      Delivers (img.dirEntries q) c.2 (deliver img c.1.behind c.2 b q) ↔
        ¬ Overruns (img.dirEntries q) c.2 := by
    intro c hc b q
    obtain ⟨n, hn⟩ := Int.eq_ofNat_of_zero_le (hnonneg c hc)
    rw [hn]
    exact delivers_iff b q
  constructor
  · intro h i c q hc hq
    obtain ⟨r, hr, hmeets⟩ := h i c hc
    rcases directoryReads_at himg hblock hnonneg hc with
      ⟨q', b, hq', hresult⟩ | ⟨b, hnone, -⟩
    · obtain rfl := Option.some.inj (hq'.symm.trans hq)
      obtain rfl := Option.some.inj (hr.symm.trans hresult)
      rw [hq] at hmeets
      exact (hdelivers c (List.mem_of_getElem? hc) b q').mp hmeets
    · rw [hnone] at hq
      cases hq
  · intro h i c hc
    rcases directoryReads_at himg hblock hnonneg hc with
      ⟨q, b, hq, hresult⟩ | ⟨b, hnone, hresult⟩
    · refine ⟨_, hresult, ?_⟩
      rw [hq]
      exact (hdelivers c (List.mem_of_getElem? hc) b q).mpr (h i c q hc hq)
    · refine ⟨_, hresult, ?_⟩
      rw [hnone]

/-- An image whose two named entries, the directory itself and a file with a name of 32 bytes, stand
between unnamed ones. -/
def gapImage : FsImage :=
  { imageOf [⟨[], 0, []⟩, ⟨[46], typeDir, []⟩, ⟨[], 0, []⟩,
      ⟨List.replicate 32 97, typeFile, []⟩] with numDirEntries := 2 }

/-- The kernel in which the directory of that image has just been opened. -/
def listingKernel : Kernel := (directoryOpen gapImage (bootKernel 0) [46]).2

theorem directoryOpen_gapImage :
    directoryOpen gapImage (bootKernel 0) [46] = (((2 : Fin 8).val : Int), listingKernel) := by rfl

theorem namedFrom_gapImage : namedFrom gapImage 0 = [1, 3] := by decide

theorem listed_gapImage : gapImage.Listed where
  count := by rw [namedFrom_gapImage]; rfl
  below := by rw [namedFrom_gapImage]; decide

/-- Three calls with buffers of 32, of 32 and of 5 bytes. -/
theorem enumerates_gapImage :
    Enumerates gapImage (listingKernel.fdTable 2)
      [(emptyResidue, 32), (emptyResidue, 32), (emptyResidue, 5)] := by
  apply (enumerates_iff listed_gapImage directoryOpen_gapImage (by simp)).mpr
  intro i c q hc _ hover
  -- none of the counts goes past the name field
  have hcount := hover.2.1
  have hmem := List.mem_of_getElem? hc
  simp only [List.mem_cons, List.not_mem_nil, or_false] at hmem
  rcases hmem with rfl | rfl | rfl
  · exact absurd hcount (by decide)
  · exact absurd hcount (by decide)
  · exact absurd hcount (by decide)

/-- With buffers of 33 bytes the second call returns `33` for the name of 32 bytes: the byte behind
the name is the file type. -/
theorem not_enumerates_gapImage :
    gapImage.Listed ∧
      (directoryOpen gapImage (bootKernel 0) [46]).1 = 2 ∧
      ¬ Enumerates gapImage (listingKernel.fdTable 2)
        [(emptyResidue, 33), (emptyResidue, 33)] := by
  refine ⟨listed_gapImage, by rfl, fun h => ?_⟩
  obtain ⟨r, hr, hmeets⟩ := h 1 (emptyResidue, 33) rfl
  rw [namedFrom_gapImage] at hmeets
  have hexit : ((directoryReads gapImage (listingKernel.fdTable 2)
      [(emptyResidue, 33), (emptyResidue, 33)])[1]?).map ReadResult.exit =
        some (.returned 33) := by rfl
  rw [hr] at hexit
  have hval := Exit.returned.inj (hmeets.exit.symm.trans (Option.some.inj hexit))
  exact absurd hval (by decide)

/-! ## Lookups -/

section Lookups

variable {img : FsImage} {w : CString}

theorem signedByte_sub_eq_zero_iff {b c : UInt8} : signedByte b - signedByte c = 0 ↔ b = c := by
  constructor
  · intro h
    have hint : b.toBitVec.toInt = c.toBitVec.toInt := by
      simp only [signedByte] at h
      omega
    exact UInt8.toBitVec_inj.mp (BitVec.eq_of_toInt_eq hint)
  · rintro rfl
    exact Int.sub_self _

/-- `strncmp` compares the texts in the first `n` bytes. -/
theorem strncmpFrom_eq_zero_iff (s1 s2 : Nat → UInt8) (n i : Nat) :
    strncmpFrom s1 s2 n i = 0 ↔
      PaddedText.read 0 n (fun j => s1 (i + j)) = PaddedText.read 0 n fun j => s2 (i + j) := by
  -- over the characters that are left to compare
  induction n generalizing i with
  | zero => simp [strncmpFrom]
  | succ n ih =>
      have hshift : ∀ s : Nat → UInt8, (fun j => s (i + 1 + j)) = fun j => s (i + (j + 1)) := by
        intro s
        funext j
        congr 1
        omega
      rw [strncmpFrom, PaddedText.read_succ, PaddedText.read_succ]
      simp only [Nat.add_zero]
      by_cases heq : s1 i = s2 i
      · by_cases hnul : s1 i = 0
        · rw [if_pos (Or.inr hnul), if_pos hnul, if_pos (heq ▸ hnul)]
          exact ⟨fun _ => rfl, fun _ => signedByte_sub_eq_zero_iff.mpr heq⟩
        · have hgo : ¬ (s1 i ≠ s2 i ∨ s1 i = 0) := not_or.mpr ⟨not_not.mpr heq, hnul⟩
          rw [if_neg hgo, if_neg hnul, if_neg (heq ▸ hnul), ih, hshift, hshift, heq,
            List.cons.injEq]
          exact ⟨fun h => ⟨rfl, h⟩, fun h => h.2⟩
      · -- at the first difference the value is not zero, and the texts differ there
        rw [if_pos (Or.inl heq), signedByte_sub_eq_zero_iff]
        refine ⟨fun h => absurd h heq, fun h => ?_⟩
        split at h
        next hnul =>
          split at h
          next hnul' => exact hnul.trans hnul'.symm
          · cases h
        · split at h
          · cases h
          · exact (List.cons.inj h).1

/-- The text of a string that is not longer than `n`. -/
theorem read_charAt {n : Nat} (hn : w.strlen ≤ n) : PaddedText.read 0 n w.charAt = w.text := by
  induction w generalizing n with
  | nil =>
      cases n with
      | zero => rfl
      | succ n =>
          rw [PaddedText.read_succ, if_pos (by rfl)]
          rfl
  | cons c w ih =>
      by_cases hc : c = 0
      · cases n with
        | zero =>
            rw [PaddedText.read_zero, CString.text, List.takeWhile_cons, if_neg (by simp [hc])]
        | succ n =>
            have hnul : CString.charAt (c :: w) 0 = 0 := hc
            rw [PaddedText.read_succ, if_pos hnul, CString.text, List.takeWhile_cons,
              if_neg (by simp [hc])]
      · simp only [CString.strlen, if_neg hc] at hn
        obtain ⟨m, rfl⟩ : ∃ m, n = m + 1 := ⟨n - 1, by omega⟩
        have hne : ¬ CString.charAt (c :: w) 0 = 0 := hc
        have hrest := ih (n := m) (by omega)
        have htail : (fun i => CString.charAt (c :: w) (i + 1)) = CString.charAt w := rfl
        rw [PaddedText.read_succ, if_neg hne, htail, hrest, CString.text, CString.text,
          List.takeWhile_cons, if_pos (by simp [hc])]
        rfl

/-- The test of an entry in `read_dentry_by_name`, on a name that passed the first tests. -/
theorem matches_iff (hw : w.strlen ≤ 32) (d : DirEntry) :
    d.matches w = true ↔ d.filename 0 ≠ 0 ∧ d.name = w.text := by
  have hread : PaddedText.read 0 filenameSize w.charAt = w.text := read_charAt hw
  have hcompare := strncmpFrom_eq_zero_iff d.filename w.charAt filenameSize 0
  simp only [Nat.zero_add] at hcompare
  rw [DirEntry.matches, Bool.and_eq_true, decide_eq_true_iff, decide_eq_true_iff, strncmp,
    hcompare, DirEntry.name]
  rw [hread]

theorem length_name_pos {d : DirEntry} (h : d.filename 0 ≠ 0) : 0 < d.name.length := by
  obtain ⟨-, -, hend⟩ := PaddedText.length_read_iff.mp (rfl : d.name.length = _)
  by_contra hzero
  have hlen : d.name.length = 0 := by omega
  rw [hlen] at hend
  exact h (hend (by decide))

/-- What a lookup finds is a named entry with this name. -/
theorem named_of_lookup {d : DirEntry} (h : readDentryByName img w = some d) :
    ∃ q, q ∈ namedFrom img 0 ∧ d = img.dirEntries q ∧ d.name = w.text := by
  simp only [readDentryByName] at h
  split at h
  · cases h
  · split at h
    · cases h
    next hlen =>
      obtain ⟨q, hq, rfl⟩ := Option.map_eq_some_iff.mp h
      have hmatch := List.find?_some hq
      obtain ⟨hname, htext⟩ := (matches_iff (by omega) _).mp hmatch
      have hlt := List.mem_range.mp (List.mem_of_find?_eq_some hq)
      exact ⟨q, mem_namedFrom.mpr ⟨Nat.zero_le q, hlt, hname⟩, rfl, htext⟩

/-- A lookup of the name of an entry finds the entry, if the names are distinct. -/
theorem lookup_of_named (hdistinct : ((namedFrom img 0).map fun q => (img.dirEntries q).name).Nodup)
    {q : Nat} (hq : q ∈ namedFrom img 0) (htext : (img.dirEntries q).name = w.text) :
    readDentryByName img w = some (img.dirEntries q) := by
  obtain ⟨-, hlt, hname⟩ := mem_namedFrom.mp hq
  have hpos := length_name_pos hname
  have hsize := PaddedText.length_read_le 0 filenameSize (img.dirEntries q).filename
  have hlen : w.strlen = (img.dirEntries q).name.length := by
    rw [CString.strlen_eq_length_text, htext]
  have hbound : filenameSize = 32 := rfl
  have hle : w.strlen ≤ 32 := by
    rw [hlen, ← hbound]
    exact hsize
  rw [readDentryByName, if_neg (by omega), if_neg (by omega), Option.map_eq_some_iff]
  have hmatch : (img.dirEntries q).matches w = true := (matches_iff hle _).mpr ⟨hname, htext⟩
  have hfound : ((List.range maxDirEntries).find? fun i => (img.dirEntries i).matches w).isSome :=
    List.find?_isSome.mpr ⟨q, List.mem_range.mpr hlt, hmatch⟩
  obtain ⟨p, hp⟩ := Option.isSome_iff_exists.mp hfound
  -- the first match has the same name, so it is this entry
  have hfirst := List.find?_some hp
  obtain ⟨hname', htext'⟩ := (matches_iff hle _).mp hfirst
  have hplt := List.mem_range.mp (List.mem_of_find?_eq_some hp)
  have hmem : p ∈ namedFrom img 0 := mem_namedFrom.mpr ⟨Nat.zero_le p, hplt, hname'⟩
  obtain rfl := List.inj_on_of_nodup_map hdistinct hmem hq (htext'.trans htext.symm)
  exact ⟨p, hp, rfl⟩

end Lookups

/-- The string that a call leaves in the buffer, with a `NUL` put behind the returned count. -/
def listedName (buf : Nat → UInt8) (r : ReadResult) : CString :=
  match r.exit with
  | .returned v => (List.range v.toNat).map (applyStores buf r.stores)
  | .pageFault | .endless => []

/-- A call with a buffer of the size of the name field delivers the whole name. -/
theorem listedName_deliver {img : FsImage} {behind : Nat → UInt8} (block : FdBlock) (q : Nat)
    (buf : Nat → UInt8) :
    listedName buf (deliver img behind 32 block q) = (img.dirEntries q).name := by
  have hnot : ¬ Overruns (img.dirEntries q) (32 : Nat) := fun h => absurd h.2.1 (by decide)
  have hdelivers : Delivers (img.dirEntries q) 32 (deliver img behind 32 block q) :=
    (delivers_iff block q).mpr hnot
  have hsize := PaddedText.length_read_le 0 filenameSize (img.dirEntries q).filename
  have hle : (img.dirEntries q).name.length ≤ 32 := hsize
  have hexit : (deliver img behind 32 block q).exit =
      .returned ((img.dirEntries q).name.length : Int) := by
    rw [hdelivers.exit]
    congr 1
    omega
  have hname : (img.dirEntries q).name =
      (List.range (img.dirEntries q).name.length).map (img.dirEntries q).filename :=
    PaddedText.read_eq_map rfl
  rw [listedName, hexit]
  simp only [Int.toNat_natCast]
  rw [hname]
  simp only [List.length_map, List.length_range]
  apply List.map_congr_left
  intro j hj
  have hj := List.mem_range.mp hj
  rw [hdelivers.stores buf j (by omega)]
  exact PaddedText.getD_read hj 0

/-! ## Whole listings -/

/-- Call `i` of a listing with buffers of the size of the name field delivers entry `i`, or finds
the end of the directory. -/
def ListsAt (img : FsImage) (i : Nat) (r : ReadResult) : Prop :=
  (∃ q behind block, (namedFrom img 0)[i]? = some q ∧ r = deliver img behind 32 block q) ∨
    ∃ block, (namedFrom img 0)[i]? = none ∧ r = ⟨.returned 0, block, [], []⟩

section Listings

variable {img : FsImage} {i : Nat} {r : ReadResult} {listing : List ReadResult}

theorem directoryReads_listsAt (himg : img.Listed) {block : FdBlock}
    (hblock : BeforeEntries img block (namedFrom img 0)) (residues : List Residue)
    (hr : (directoryReads img block (residues.map fun res => (res, 32)))[i]? = some r) :
    ListsAt img i r := by
  have hcalls : ∀ c ∈ residues.map fun res => (res, (32 : Int)), 0 ≤ c.2 := by
    intro c hc
    obtain ⟨res, -, rfl⟩ := List.mem_map.mp hc
    exact Int.natCast_nonneg 32
  have hi : i < residues.length := by
    have hlt := (List.getElem?_eq_some_iff.mp hr).1
    rwa [directoryReads, Cursor.length_results, List.length_map] at hlt
  have hc : (residues.map fun res => (res, (32 : Int)))[i]? = some (residues[i], 32) := by
    rw [List.getElem?_map, List.getElem?_eq_getElem hi]
    rfl
  rcases directoryReads_at himg hblock hcalls hc with ⟨q, b, hq, hresult⟩ | ⟨b, hnone, hresult⟩
  · exact Or.inl ⟨q, _, b, hq, Option.some.inj (hr.symm.trans hresult)⟩
  · exact Or.inr ⟨b, hnone, Option.some.inj (hr.symm.trans hresult)⟩

/-- Entry `i` is listed with its name. -/
theorem ListsAt.name_eq (h : ListsAt img i r) {q : Nat} (hq : (namedFrom img 0)[i]? = some q)
    (buf : Nat → UInt8) : listedName buf r = (img.dirEntries q).name := by
  rcases h with ⟨p, behind, b, hp, rfl⟩ | ⟨b, hnone, -⟩
  · obtain rfl := Option.some.inj (hp.symm.trans hq)
    exact listedName_deliver b p buf
  · rw [hnone] at hq
    cases hq

/-- A name that is listed is that of entry `i`. -/
theorem ListsAt.entry (h : ListsAt img i r) {buf : Nat → UInt8} (hname : listedName buf r ≠ []) :
    ∃ q, (namedFrom img 0)[i]? = some q ∧ listedName buf r = (img.dirEntries q).name := by
  rcases h with ⟨q, behind, b, hq, rfl⟩ | ⟨b, -, rfl⟩
  · exact ⟨q, hq, listedName_deliver b q buf⟩
  · exact absurd rfl hname

/-- Only the end of the directory is reported with 0. -/
theorem ListsAt.exit_zero (h : ListsAt img i r) :
    r.exit = .returned 0 ↔ (namedFrom img 0)[i]? = none := by
  rcases h with ⟨q, behind, b, hq, rfl⟩ | ⟨b, hnone, rfl⟩
  · refine iff_of_false (fun hexit => ?_) (by rw [hq]; exact nofun)
    have hlisted : listedName (fun _ => 0) (deliver img behind 32 b q) = (img.dirEntries q).name :=
      listedName_deliver b q _
    rw [listedName, hexit] at hlisted
    have hpos := length_name_pos (mem_namedFrom.mp (List.mem_of_getElem? hq)).2.2
    rw [← hlisted] at hpos
    cases hpos
  · exact iff_of_true rfl hnone

/-- The name of an entry has no `NUL` in it. -/
theorem text_name (d : DirEntry) : CString.text d.name = d.name := by
  apply List.takeWhile_eq_self_iff.mpr
  intro c hc
  apply decide_eq_true
  rintro rfl
  exact PaddedText.not_mem_read _ _ _ hc

end Listings

/-- A listing of a freshly opened directory with buffers of the size of the name field. Each name
that is listed is found, and the lookup gives the entry that was listed. The listing comes to its
end exactly if it has more calls than the directory has names, and then each name that a lookup
accepts is listed exactly once. -/
theorem listing_agrees {img : FsImage} (himg : img.Listed)
    (hdistinct : ((namedFrom img 0).map fun q => (img.dirEntries q).name).Nodup) {k k' : Kernel}
    {filename : CString} {fd : Fin 8}
    (hopen : directoryOpen img k filename = ((fd.val : Int), k')) (residues : List Residue)
    (buf : Nat → UInt8) :
    let listing := directoryReads img (k'.fdTable fd) (residues.map fun res => (res, 32))
    (∀ (i : Nat) (r : ReadResult) (v : Int), listing[i]? = some r → r.exit = .returned v → 0 < v →
        ∃ q, (namedFrom img 0)[i]? = some q ∧
          readDentryByName img (listedName buf r) = some (img.dirEntries q)) ∧
      ((∃ r ∈ listing, r.exit = .returned 0) ↔ (namedFrom img 0).length < residues.length) ∧
      ((namedFrom img 0).length < residues.length →
        ∀ w d, readDentryByName img w = some d →
          ∃! i : Nat, ∃ r : ReadResult, listing[i]? = some r ∧ listedName buf r = w.text) := by
  intro listing
  have hat : ∀ i r, listing[i]? = some r → ListsAt img i r := fun i r hr =>
    directoryReads_listsAt himg (directoryOpen_before himg hopen) residues hr
  have hlength : listing.length = residues.length :=
    (Cursor.length_results _ _).trans (List.length_map _)
  refine ⟨?_, ⟨?_, ?_⟩, ?_⟩
  · intro i r v hr hv hpos
    have hcall := hat i r hr
    have hmore : (namedFrom img 0)[i]? ≠ none := by
      intro hnone
      have hzero := Exit.returned.inj (hv.symm.trans (hcall.exit_zero.mpr hnone))
      omega
    obtain ⟨q, hq⟩ := Option.ne_none_iff_exists'.mp hmore
    refine ⟨q, hq, lookup_of_named hdistinct (List.mem_of_getElem? hq) ?_⟩
    rw [hcall.name_eq hq, text_name]
  · rintro ⟨r, hr, hend⟩
    obtain ⟨j, hj, hrj⟩ := List.mem_iff_getElem.mp hr
    have hnone := (hat j r (List.getElem?_eq_some_iff.mpr ⟨hj, hrj⟩)).exit_zero.mp hend
    have hlong := List.getElem?_eq_none_iff.mp hnone
    omega
  · intro hlong
    -- the call behind the last entry
    have hget := List.getElem?_eq_getElem (hlength ▸ hlong)
    exact ⟨_, List.mem_of_getElem? hget,
      (hat _ _ hget).exit_zero.mpr (List.getElem?_eq_none_iff.mpr le_rfl)⟩
  · intro hlong w d hd
    obtain ⟨q, hq, rfl, htext⟩ := named_of_lookup hd
    obtain ⟨i, hi, hindex⟩ := List.mem_iff_getElem.mp hq
    have hget : (namedFrom img 0)[i]? = some q := List.getElem?_eq_some_iff.mpr ⟨hi, hindex⟩
    have hr := List.getElem?_eq_getElem (hlength ▸ hi.trans hlong)
    refine ⟨i, ⟨_, hr, ((hat i _ hr).name_eq hget buf).trans htext⟩, ?_⟩
    -- the names are distinct, and so are the slots
    rintro l ⟨r', hr', htext'⟩
    have hpos := length_name_pos (mem_namedFrom.mp hq).2.2
    have hname : listedName buf r' ≠ [] := by
      rw [htext', ← htext]
      exact List.length_pos_iff.mp hpos
    obtain ⟨p, hp, hlisted⟩ := (hat l r' hr').entry hname
    have hsame := List.inj_on_of_nodup_map hdistinct (List.mem_of_getElem? hp) hq
      (hlisted.symm.trans (htext'.trans htext.symm))
    subst hsame
    obtain ⟨hl, hlp⟩ := List.getElem?_eq_some_iff.mp hp
    have hnodup : (namedFrom img 0).Nodup := List.Nodup.of_map _ hdistinct
    exact (List.Nodup.getElem_inj_iff hnodup).mp (hlp.trans hindex.symm)

/-- The three calls that list the image with the gaps. -/
theorem listing_agrees_gapImage :
    let listing := directoryReads gapImage (listingKernel.fdTable 2)
      ([emptyResidue, emptyResidue, emptyResidue].map fun res => (res, 32))
    (∀ (i : Nat) (r : ReadResult) (v : Int), listing[i]? = some r → r.exit = .returned v → 0 < v →
        ∃ q, (namedFrom gapImage 0)[i]? = some q ∧
          readDentryByName gapImage (listedName (fun _ => 0) r) =
            some (gapImage.dirEntries q)) ∧
      (∃ r ∈ listing, r.exit = .returned 0) ∧
      ∀ w d, readDentryByName gapImage w = some d →
        ∃! i : Nat, ∃ r : ReadResult,
          listing[i]? = some r ∧ listedName (fun _ => 0) r = w.text := by
  have hlong : (namedFrom gapImage 0).length <
      [emptyResidue, emptyResidue, emptyResidue].length := by
    decide
  obtain ⟨hfound, hend, hlisted⟩ := listing_agrees listed_gapImage (by decide)
    directoryOpen_gapImage [emptyResidue, emptyResidue, emptyResidue] (fun _ => 0)
  exact ⟨hfound, hend.mpr hlong, hlisted hlong⟩

end Ece391Os
