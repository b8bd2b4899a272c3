import Ece391Os.Properties.SlotStates

/-!
# The loop of `directory_read`

An iteration of the loop returns, moves on to the next slot, or, when an entry with a name meets a
negative count, changes nothing. `directoryReadEnds_iff` says exactly when the loop ends; the
position of a directory never passes the end of the boot block (`slotRule_inSlots`), so that this
covers every descriptor that a run of calls can reach.
-/

set_option autoImplicit false

namespace Ece391Os

open EventRun

/-- The loop of `directory_read` ends after finitely many iterations. -/
def DirectoryReadEnds (img : FsImage) (behind : Nat → UInt8) (nbytes : Int) (dentry : DirEntry)
    (block : FdBlock) : Prop :=
  ∃ fuel, (directoryLoop img behind nbytes fuel dentry block).exit ≠ .endless

/-- From position `p` on the loop comes to an entry with a name: at the first index what `dentry`
then holds, also when the index is refused, and behind it an entry whose index is accepted. -/
def MeetsName (img : FsImage) (dentry : DirEntry) (p : Word) : Prop :=
  (readDentryByIndex img p dentry).filename 0 ≠ 0 ∨
    ∃ q, p.toNat < q ∧ q < maxDirEntries ∧ q ≤ (img.inodes - 1).toNat ∧
      (img.dirEntries q).filename 0 ≠ 0

/-! ## One iteration -/

section Iteration

variable {img : FsImage} {behind : Nat → UInt8} {nbytes : Int} {dentry : DirEntry}
  {block : FdBlock}

/-- A second read of the same index finds the same entry. -/
theorem readDentryByIndex_idem (p : Word) :
    readDentryByIndex img p (readDentryByIndex img p dentry) = readDentryByIndex img p dentry := by
  rw [readDentryByIndex]
  split
  · rfl
  next hle => rw [readDentryByIndex, if_neg hle]

/-- The loop returns `0` at the end of the directory. -/
theorem directoryReadEnds_of_end
    (hend : block.flags = 0 ∨ block.filePosition.toNat = maxDirEntries) :
    DirectoryReadEnds img behind nbytes dentry block := by
  refine ⟨1, ?_⟩
  rw [directoryLoop_of_end hend]
  exact Exit.noConfusion

/-- A slot without a name is passed over. -/
theorem directoryReadEnds_of_empty
    (hgo : ¬ (block.flags = 0 ∨ block.filePosition.toNat = maxDirEntries))
    (hempty : (readDentryByIndex img block.filePosition dentry).filename 0 = 0) :
    DirectoryReadEnds img behind nbytes dentry block ↔
      DirectoryReadEnds img behind nbytes (readDentryByIndex img block.filePosition dentry)
        { block with filePosition := block.filePosition + 1 } := by
  constructor
  · rintro ⟨fuel, hends⟩
    cases fuel with
    | zero => exact absurd rfl hends
    | succ fuel =>
        rw [directoryLoop_of_empty hgo hempty] at hends
        exact ⟨fuel, hends⟩
  · rintro ⟨fuel, hends⟩
    refine ⟨fuel + 1, ?_⟩
    rw [directoryLoop_of_empty hgo hempty]
    exact hends

/-- With a count that is not negative an entry with a name is delivered. -/
theorem directoryReadEnds_of_nonneg
    (hgo : ¬ (block.flags = 0 ∨ block.filePosition.toNat = maxDirEntries))
    (hname : (readDentryByIndex img block.filePosition dentry).filename 0 ≠ 0)
    (hn : 0 ≤ nbytes) : DirectoryReadEnds img behind nbytes dentry block := by
  refine ⟨1, ?_⟩
  rw [directoryLoop_of_name hgo hname hn]
  exact Exit.noConfusion

/-- With a negative count it is not: the next round finds the state of this one. -/
theorem not_directoryReadEnds_of_neg
    (hgo : ¬ (block.flags = 0 ∨ block.filePosition.toNat = maxDirEntries))
    (hname : (readDentryByIndex img block.filePosition dentry).filename 0 ≠ 0)
    (hn : nbytes < 0) : ¬ DirectoryReadEnds img behind nbytes dentry block := by
  rintro ⟨fuel, hends⟩
  apply hends
  clear hends
  induction fuel generalizing dentry with
  | zero => rfl
  | succ fuel ih =>
      have hcopy : nbytes.toNat = 0 := by omega
      have hne : ((0 : Nat) : Int) ≠ nbytes := by omega
      rw [directoryLoop, if_neg hgo]
      simp only [if_neg hname, hcopy, copyName, if_neg hne]
      exact ih (by rwa [readDentryByIndex_idem])

end Iteration

/-! ## The loop -/

section Loop

variable {img : FsImage} {behind : Nat → UInt8} {nbytes : Int} {dentry : DirEntry}
  {block : FdBlock}

/-- Behind a slot without a name the loop meets a name from the next slot on. -/
theorem meetsName_succ_iff {p : Word} (hp : p.toNat < maxDirEntries)
    (hempty : (readDentryByIndex img p dentry).filename 0 = 0) :
    MeetsName img dentry p ↔ (p + 1).toNat ≠ maxDirEntries ∧
      MeetsName img (readDentryByIndex img p dentry) (p + 1) := by
  have hnext := toNat_position_succ hp
  -- a refused index leaves the empty entry; an accepted one is an entry behind `p`
  have hread : (readDentryByIndex img (p + 1) (readDentryByIndex img p dentry)).filename 0 ≠ 0 ↔
      p.toNat + 1 ≤ (img.inodes - 1).toNat ∧ (img.dirEntries (p.toNat + 1)).filename 0 ≠ 0 := by
    rw [readDentryByIndex]
    split
    next hgt =>
      have hout : ¬ p.toNat + 1 ≤ (img.inodes - 1).toNat := by
        have := BitVec.lt_def.mp hgt
        omega
      simp only [hempty, hout, false_and, ne_eq, not_true_eq_false]
    next hle =>
      have hin : p.toNat + 1 ≤ (img.inodes - 1).toNat := by
        have := BitVec.not_lt.mp hle
        rw [BitVec.le_def, hnext] at this
        exact this
      rw [hnext]
      simp only [hin, true_and]
  simp only [MeetsName, hempty, hread, hnext, ne_eq, not_true_eq_false, false_or]
  constructor
  · rintro ⟨q, hlt, hmax, hin, hname⟩
    refine ⟨by omega, ?_⟩
    rcases Nat.lt_or_ge (p.toNat + 1) q with hbehind | hhere
    · exact Or.inr ⟨q, hbehind, hmax, hin, hname⟩
    · obtain rfl : q = p.toNat + 1 := by omega
      exact Or.inl ⟨hin, hname⟩
  · rintro ⟨hend, ⟨hin, hname⟩ | ⟨q, hlt, hmax, hin, hname⟩⟩
    · exact ⟨p.toNat + 1, by omega, by omega, hin, hname⟩
    · exact ⟨q, by omega, hmax, hin, hname⟩

/-- The loop ends exactly if the count is not negative, the countdown or the position says that
the directory is at its end, or no entry with a name is left. -/
theorem directoryReadEnds_iff (hpos : block.filePosition.toNat ≤ maxDirEntries) :
    DirectoryReadEnds img behind nbytes dentry block ↔
      0 ≤ nbytes ∨ block.flags = 0 ∨ block.filePosition.toNat = maxDirEntries ∨
        ¬ MeetsName img dentry block.filePosition := by
  -- the number of slots that are left decreases
  induction hleft : maxDirEntries - block.filePosition.toNat generalizing dentry block with
  | zero =>
      have hend : block.filePosition.toNat = maxDirEntries := by omega
      exact ⟨fun _ => Or.inr (Or.inr (Or.inl hend)),
        fun _ => directoryReadEnds_of_end (Or.inr hend)⟩
  | succ left ih =>
      by_cases hend : block.flags = 0 ∨ block.filePosition.toNat = maxDirEntries
      · exact ⟨fun _ => Or.inr (hend.imp_right Or.inl), fun _ => directoryReadEnds_of_end hend⟩
      obtain ⟨hflags, hslot⟩ := not_or.mp hend
      have hlt : block.filePosition.toNat < maxDirEntries := by omega
      have hnext := toNat_position_succ hlt
      by_cases hempty : (readDentryByIndex img block.filePosition dentry).filename 0 = 0
      · rw [directoryReadEnds_of_empty hend hempty,
          ih (by simp only [hnext]; omega) (by simp only [hnext]; omega),
          meetsName_succ_iff hlt hempty]
        simp only [hflags, hslot, false_or, not_and_or, not_not, ne_eq]
      · have hmeets : MeetsName img dentry block.filePosition := Or.inl hempty
        by_cases hn : 0 ≤ nbytes
        · exact ⟨fun _ => Or.inl hn, fun _ => directoryReadEnds_of_nonneg hend hempty hn⟩
        · have hnot : ¬ DirectoryReadEnds img behind nbytes dentry block :=
            not_directoryReadEnds_of_neg hend hempty (not_le.mp hn)
          simp only [hnot, hn, hflags, hslot, hmeets, not_true_eq_false, or_self]

end Loop

/-! ## Runs -/

/-- The position of a directory is one of the slots or the end of the boot block. -/
def FdBlock.InSlots (b : FdBlock) : Prop :=
  b.fileOperationsPointer = some .dir → b.filePosition.toNat ≤ maxDirEntries

/-- The loop stops at the end of the boot block. -/
theorem directoryLoop_position {img : FsImage} {behind : Nat → UInt8} {nbytes : Int} {fuel : Nat}
    {dentry : DirEntry} {block : FdBlock} (hpos : block.filePosition.toNat ≤ maxDirEntries) :
    (directoryLoop img behind nbytes fuel dentry block).block.filePosition.toNat ≤
      maxDirEntries := by
  induction fuel generalizing dentry block with
  | zero => exact hpos
  | succ fuel ih =>
      rw [directoryLoop]
      split
      · exact hpos
      next hgo =>
        have hlt : block.filePosition.toNat < maxDirEntries := by
          have := (not_or.mp hgo).2
          omega
        have hnext : (block.filePosition + 1).toNat ≤ maxDirEntries := by
          rw [toNat_position_succ hlt]
          exact hlt
        dsimp only
        split
        · exact ih hnext
        · split
          · exact hnext
          · split
            · exact hnext
            · exact ih hpos

theorem slotRule_inSlots (img : FsImage) : SlotRule img FdBlock.InSlots where
  cleared := fun _ hops => by cases hops
  file := fun _ _ _ hops => by cases hops
  dir := fun _ => Nat.zero_le maxDirEntries
  rtc := fun _ hops => by cases hops
  fileRead := by
    intro b nbytes hops _ hdir
    rw [(fileRead_flags b nbytes).1, hops] at hdir
    cases hdir
  directoryRead := fun _ _ _ hops h _ => directoryLoop_position (h hops)

/-- A descriptor that calls of `open`, `read`, `write` and `close` can reach and that `read`
passes on to `directory_read`. The loop of that call ends exactly if the count is not negative,
the directory is at its end, or no entry with a name is left. -/
theorem directoryRead_ends_iff {img : FsImage} {espBoot : Word} {calls : List SlotCall}
    {k : Kernel} (hrun : runFrom (slotStep img) (bootKernel espBoot) calls = some k) {p : Pid}
    {fd : Fin 8} (hdir : (k.runAs p).driver fd = some .dir) (res : Residue) (nbytes : Int) :
    DirectoryReadEnds img res.behind nbytes res.dentry (k.fdTableOf p fd) ↔
      0 ≤ nbytes ∨ (k.fdTableOf p fd).flags = 0 ∨
        (k.fdTableOf p fd).filePosition.toNat = maxDirEntries ∨
        ¬ MeetsName img res.dentry (k.fdTableOf p fd).filePosition := by
  have hinit : ∀ i : Fin 8, 0 ≤ i → (initialFds i).InSlots := by
    intro i _
    have hnone : ∀ i : Fin 8, (initialFds i).fileOperationsPointer ≠ some .dir := by decide
    exact fun hops => absurd hops (hnone i)
  have hslots : EverySlot 0 FdBlock.InSlots k := everySlot_of_run (slotRule_inSlots img) hinit hrun
  exact directoryReadEnds_iff (hslots p fd (Fin.zero_le fd) (pointer_of_driver hdir))

/-- A process opens a directory. -/
def opensDirectory : List SlotCall :=
  [.table (.create 0), .table (.openFile 1 (some [46]) emptyResidue)]

/-- The kernel after that run. -/
def directoryKernel : Kernel :=
  (runFrom (slotStep gapImage) (bootKernel 0) opensDirectory).getD (bootKernel 0)

theorem runFrom_opensDirectory :
    runFrom (slotStep gapImage) (bootKernel 0) opensDirectory = some directoryKernel := by rfl

theorem driver_directoryKernel : (directoryKernel.runAs 1).driver 2 = some .dir := by rfl

/-- A read into a buffer of 32 bytes ends. -/
theorem directoryRead_ends_opensDirectory :
    DirectoryReadEnds gapImage emptyResidue.behind 32 emptyResidue.dentry
      (directoryKernel.fdTableOf 1 2) :=
  (directoryRead_ends_iff runFrom_opensDirectory driver_directoryKernel emptyResidue 32).mpr
    (Or.inl (by decide))

/-- A read of `-1` bytes from the same descriptor does not: it comes to the name in slot `1`. -/
theorem not_directoryRead_ends_opensDirectory :
    runFrom (slotStep gapImage) (bootKernel 0) opensDirectory = some directoryKernel ∧
      (directoryKernel.runAs 1).driver 2 = some .dir ∧
      ¬ DirectoryReadEnds gapImage emptyResidue.behind (-1) emptyResidue.dentry
        (directoryKernel.fdTableOf 1 2) := by
  refine ⟨runFrom_opensDirectory, driver_directoryKernel, ?_⟩
  have hblock : directoryKernel.fdTableOf 1 2 = ⟨some .dir, 0, 0, 2⟩ := by rfl
  have hmeets : MeetsName gapImage emptyResidue.dentry 0 :=
    Or.inr ⟨1, by decide, by decide, by decide, by decide⟩
  rw [hblock, directoryReadEnds_iff (by decide)]
  rintro (hn | hflags | hend | hnone)
  · exact absurd hn (by decide)
  · exact absurd hflags (by decide)
  · exact absurd hend (by decide)
  · exact hnone hmeets

end Ece391Os
