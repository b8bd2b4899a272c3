import Ece391Os.Properties.ExitStatus
import Ece391Os.Properties.FailedExecute
import Ece391Os.Properties.Listing

/-!
# The states of a descriptor

The field `flags` marks a free descriptor with `-1` and one of a file or of the rtc with `1`, and
`directory_read` counts the entries that are left down in it. `FdBlock.Kept` says what each driver
keeps in the three fields; it is kept by `open`, `read`, `write` and `close`. From it follow the
equivalences of `FieldsAgree`, and that a call on a descriptor that is not open reaches no driver.
-/

set_option autoImplicit false

namespace Ece391Os

open EventRun

/-! ## One descriptor -/

/-- The three fields that say whether a descriptor is open say the same. -/
structure FdBlock.FieldsAgree (b : FdBlock) : Prop where
  flags_iff : b.flags = freeFlags ↔ b.fileOperationsPointer = none
  inode_iff : b.fileOperationsPointer = none ↔ b.inode = freeFlags

/-- What the driver behind a descriptor keeps in its fields. A directory counts down from at most
the number of slots of the boot block. -/
def FdBlock.Kept (b : FdBlock) : Prop :=
  match b.fileOperationsPointer with
  | none => b.flags = freeFlags ∧ b.inode = freeFlags
  | some .file => b.flags = 1 ∧ b.inode ≠ freeFlags
  | some .dir => b.flags.toNat ≤ maxDirEntries ∧ b.inode = 0
  | some .rtc => b.flags = 1 ∧ b.inode = 0
  | some .stdin => False
  | some .stdout => False

section Block

variable {b : FdBlock}

theorem ne_freeFlags_of_le {w : Word} (h : w.toNat ≤ maxDirEntries) : w ≠ freeFlags := by
  rintro rfl
  exact absurd h (by decide)

theorem FdBlock.Kept.fieldsAgree (h : b.Kept) : b.FieldsAgree := by
  rw [FdBlock.Kept] at h
  rcases hops : b.fileOperationsPointer with _ | _ | _ | _ | _ | _
  · rw [hops] at h
    exact ⟨⟨fun _ => hops, fun _ => h.1⟩, ⟨fun _ => h.2, fun _ => hops⟩⟩
  · rw [hops] at h
    exact h.elim
  · rw [hops] at h
    exact h.elim
  all_goals
    rw [hops] at h
    have hflags : b.flags ≠ freeFlags := by
      first
        | exact ne_freeFlags_of_le h.1
        | (rw [h.1]; decide)
    have hinode : b.inode ≠ freeFlags := by
      first
        | exact h.2
        | (rw [h.2]; decide)
    refine ⟨⟨fun hfree => absurd hfree hflags, fun hnone => ?_⟩,
      ⟨fun hnone => ?_, fun hfree => absurd hfree hinode⟩⟩
    · rw [hops] at hnone
      cases hnone
    · rw [hops] at hnone
      cases hnone

theorem kept_cleared : b.cleared.Kept := ⟨rfl, rfl⟩

/-- A descriptor that is not open has no driver. -/
theorem FdBlock.Kept.pointer_of_free (h : b.Kept) (hfree : b.Free) :
    b.fileOperationsPointer = none := h.fieldsAgree.flags_iff.mp hfree

/-- A read of a file keeps the descriptor. -/
theorem FdBlock.Kept.fileRead {img : FsImage} (h : b.Kept)
    (hops : b.fileOperationsPointer = some .file) (nbytes : Int) :
    (Ece391Os.fileRead img b nbytes).block.Kept := by
  obtain ⟨pos, hblock⟩ := @fileRead_block img b nbytes
  rw [hblock]
  simp only [FdBlock.Kept, hops] at h ⊢
  exact h

/-- The countdown of a directory stays below the number of its slots. -/
theorem FdBlock.Kept.directoryRead {img : FsImage} (h : b.Kept)
    (hops : b.fileOperationsPointer = some .dir) (res : Residue) (nbytes : Int) :
    (Ece391Os.directoryRead img res b nbytes).block.Kept := by
  obtain ⟨pos, flags, hle, hblock⟩ :=
    @directoryLoop_block img res.behind nbytes (maxDirEntries + 1) res.dentry b
  rw [Ece391Os.directoryRead, hblock]
  simp only [FdBlock.Kept, hops] at h ⊢
  exact ⟨hle.trans h.1, h.2⟩

end Block

/-! ## Descriptors that are not open -/

/-- `read`, `write` and `close` on a descriptor return `-1`, and no driver is called. -/
structure NoDriver (img : FsImage) (k : Kernel) (fd : Fin 8) : Prop where
  driver : k.driver fd = none
  closeDriver : k.closeDriver fd = none
  read : ∀ (res : Residue) (buf : Option Word) (nbytes : Int),
    sysRead img res k fd.val buf nbytes = ⟨.returned (-1), k.cli, []⟩
  write : ∀ (res : Residue) (buf : Option (Nat → UInt8)) (nbytes : Int),
    sysWrite res k fd.val buf nbytes = ⟨.returned (-1), k.cli, []⟩
  close : sysClose k fd.val = (-1, k.cli)

theorem noDriver_of_free {img : FsImage} {k : Kernel} {fd : Fin 8} (hkept : (k.fdTable fd).Kept)
    (hfree : (k.fdTable fd).Free) : NoDriver img k fd := by
  have hdriver : k.driver fd = none := if_pos hfree
  have hclose : k.closeDriver fd = none := by
    rw [Kernel.closeDriver, hkept.pointer_of_free hfree, ite_self]
  refine ⟨hdriver, hclose, ?_, ?_, ?_⟩
  · intro res buf nbytes
    cases buf with
    | none => rfl
    | some buf => rw [sysRead_driver, hdriver, Option.elim_none]
  · intro res buf nbytes
    cases buf with
    | none => rfl
    | some buf => rw [sysWrite_driver, hdriver, Option.elim_none]
  · rw [sysClose_driver, hclose, Option.elim_none]

/-! ## Calls -/

/-- `P` holds of the descriptors from `lo` on of every process. -/
def EverySlot (lo : Fin 8) (P : FdBlock → Prop) (k : Kernel) : Prop :=
  ∀ (p : Pid) (i : Fin 8), lo ≤ i → P (k.fdTableOf p i)

/-- The descriptors from `2` on of every process are kept by their drivers. -/
def KeptSlots (k : Kernel) : Prop := ∀ (p : Pid) (i : Fin 8), 2 ≤ i → (k.fdTableOf p i).Kept

/-- `P` holds of what the open functions and the close functions write into a slot, and is kept
by the drivers that write a slot back. -/
structure SlotRule (img : FsImage) (P : FdBlock → Prop) : Prop where
  cleared : ∀ b : FdBlock, P b.cleared
  file : ∀ (name : CString) (dentry : DirEntry), readDentryByName img name = some dentry →
    P ⟨some .file, dentry.inodeNum, 0, 1⟩
  dir : P ⟨some .dir, 0, 0, img.numDirEntries⟩
  rtc : ∀ position : Word, P ⟨some .rtc, 0, position, 1⟩
  fileRead : ∀ (b : FdBlock) (nbytes : Int), b.fileOperationsPointer = some .file → P b →
    P (Ece391Os.fileRead img b nbytes).block
  directoryRead : ∀ (b : FdBlock) (res : Residue) (nbytes : Int),
    b.fileOperationsPointer = some .dir → P b → P (Ece391Os.directoryRead img res b nbytes).block

/-- An image that counts at most 63 entries, none with the index node `0xFFFFFFFF`. -/
structure FsImage.Markable (img : FsImage) : Prop where
  count : img.numDirEntries.toNat ≤ maxDirEntries
  inodes : ∀ i, i < maxDirEntries → (img.dirEntries i).inodeNum ≠ freeFlags

section Calls

variable {img : FsImage} {res : Residue} {k k' : Kernel} {lo : Fin 8}
  {P : FdBlock → Prop}

theorem EverySlot.of_procs (h : EverySlot lo P k) (hprocs : k'.procs = k.procs) :
    EverySlot lo P k' := by
  intro p i hi
  rw [Kernel.fdTableOf, hprocs]
  exact h p i hi

/-- A new content of one descriptor of a process. -/
theorem EverySlot.setPcb (h : EverySlot lo P k) {pid : Pid} {pcb : Pcb} {fd : Fin 8} {b : FdBlock}
    (hpcb : pcb.fdTable = Function.update (k.fdTableOf pid) fd b) (hb : lo ≤ fd → P b) :
    EverySlot lo P (k.setPcb pid pcb) := by
  intro p i hi
  rw [setPcb_fdTableOf]
  split
  · rw [hpcb]
    rcases eq_or_ne i fd with rfl | hne
    · rw [Function.update_self]
      exact hb hi
    · rw [Function.update_of_ne hne]
      exact h pid i hi
  · exact h p i hi

theorem EverySlot.setFd (h : EverySlot lo P k) {fd : Fin 8} {b : FdBlock} (hb : lo ≤ fd → P b) :
    EverySlot lo P (k.setFd fd b) :=
  h.setPcb rfl hb

theorem readDentryByName_inode (himg : img.Markable) {name : CString} {d : DirEntry}
    (hfound : readDentryByName img name = some d) : d.inodeNum ≠ freeFlags := by
  simp only [readDentryByName] at hfound
  split at hfound
  · cases hfound
  · split at hfound
    · cases hfound
    · obtain ⟨i, hi, rfl⟩ := Option.map_eq_some_iff.mp hfound
      exact himg.inodes i (List.mem_range.mp (List.mem_of_find?_eq_some hi))

/-- `open` gives the lowest free descriptor, or descriptor `0`, what its driver expects. -/
theorem EverySlot.sysOpen (hP : SlotRule img P) (h : EverySlot lo P k) (filename : Option CString) :
    EverySlot lo P (Ece391Os.sysOpen img res k filename).2 := by
  have hcli : EverySlot lo P k.cli := h.of_procs rfl
  rcases sysOpen_cases img res k filename with
    ⟨v, hopen⟩ | hopen | ⟨name, dentry, hfound, hopen | hopen⟩
  · rw [hopen]
    exact hcli
  · rw [hopen]
    simp only [rtcOpen]
    split
    · exact hcli
    · split
      · exact hcli
      next fd _ =>
        have hset : EverySlot lo P (k.setFd fd ⟨some .rtc, 0, res.filePosition, 1⟩) :=
          h.setFd fun _ => hP.rtc res.filePosition
        exact hset.of_procs rfl
  · rw [hopen]
    simp only [directoryOpen, hfound]
    split
    · exact hcli
    · exact hcli.setFd fun _ => hP.dir
  · rw [hopen]
    simp only [fileOpen, hfound]
    split
    · exact hcli
    · exact hcli.setFd fun _ => hP.file name dentry hfound

/-- `close` clears a descriptor or changes nothing. -/
theorem EverySlot.sysClose (hP : SlotRule img P) (h : EverySlot lo P k) (fd : Int) :
    EverySlot lo P (Ece391Os.sysClose k fd).2 := by
  have hcli : EverySlot lo P k.cli := h.of_procs rfl
  by_cases hfd : 2 ≤ fd ∧ fd < 8
  · obtain ⟨i, rfl⟩ := exists_fd (n := fd) ⟨by omega, hfd.2⟩
    have hi : 2 ≤ i := Fin.le_def.mpr (by exact_mod_cast hfd.1)
    have hclear : EverySlot lo P (k.cli.setFd i (k.cli.fdTable i).cleared) :=
      hcli.setFd fun _ => hP.cleared _
    have hcloses : EverySlot lo P (fileClose k.cli i.val).2 := by
      simp only [fileClose, dif_pos hfd, Int.toNat_natCast]
      split
      · exact hcli
      · exact hclear
    rw [sysClose_of_le k hi]
    rcases (k.fdTable i).fileOperationsPointer with _ | _ | _ | _ | _ | _
    · exact hcli
    · exact hcli.setPcb rfl fun _ => hP.cleared _
    · exact hcli.setFd fun _ => hP.cleared _
    · exact hcloses
    · exact hcloses
    · simp only [Option.elim_some, OpTable.close, rtcClose, dif_pos hfd, Int.toNat_natCast]
      split
      · exact hcli.of_procs rfl
      · exact hclear.of_procs rfl
  · rw [sysClose_of_out hfd]
    exact hcli

/-- What `read` does to the control blocks: nothing, or the driver of a descriptor writes it
back. -/
theorem sysRead_procs (fd : Int) (buf : Option Word) (nbytes : Int) :
    (sysRead img res k fd buf nbytes).kernel.procs = k.procs ∨
      ∃ i b, (sysRead img res k fd buf nbytes).kernel.procs = (k.setFd i b).procs ∧
        b.fileOperationsPointer = (k.fdTable i).fileOperationsPointer ∧
        ∀ P, SlotRule img P → P (k.fdTable i) → P b := by
  rcases sysRead_dispatch img res k fd buf nbytes with hread | ⟨i, op, -, hdriver, hread⟩
  · rw [hread]
    exact Or.inl rfl
  · rw [hread]
    cases op with
    | stdin =>
        simp only [OpTable.read, terminalRead]
        split
        · exact Or.inl rfl
        · exact Or.inl rfl
    | stdout => exact Or.inl rfl
    | file =>
        exact Or.inr ⟨i, _, rfl, (fileRead_flags _ _).1, fun P hP =>
          hP.fileRead _ nbytes (pointer_of_driver hdriver)⟩
    | dir =>
        exact Or.inr ⟨i, _, rfl, directoryLoop_pointer _ _ _ _ _, fun P hP =>
          hP.directoryRead _ res nbytes (pointer_of_driver hdriver)⟩
    | rtc => exact Or.inl rfl

theorem EverySlot.sysRead (hP : SlotRule img P) (h : EverySlot lo P k) (fd : Int)
    (buf : Option Word) (nbytes : Int) :
    EverySlot lo P (Ece391Os.sysRead img res k fd buf nbytes).kernel := by
  rcases @sysRead_procs img res k fd buf nbytes with hprocs | ⟨i, b, hprocs, -, hb⟩
  · exact h.of_procs hprocs
  · exact (h.setFd fun hi => hb P hP (h k.procs.currentPid i hi)).of_procs hprocs

/-- A read leaves the same driver on every descriptor. -/
theorem sysRead_pointer (fd : Int) (buf : Option Word) (nbytes : Int) (p : Pid) (i : Fin 8) :
    ((sysRead img res k fd buf nbytes).kernel.fdTableOf p i).fileOperationsPointer =
      (k.fdTableOf p i).fileOperationsPointer := by
  rw [Kernel.fdTableOf]
  rcases @sysRead_procs img res k fd buf nbytes with hprocs | ⟨j, b, hprocs, hb, -⟩
  · rw [hprocs]
    rfl
  · rw [hprocs]
    change ((k.setFd j b).fdTableOf p i).fileOperationsPointer = _
    rw [Kernel.setFd, setPcb_fdTableOf]
    split
    next hp =>
      subst hp
      simp only
      rcases eq_or_ne i j with rfl | hne
      · rw [Function.update_self]
        exact hb
      · rw [Function.update_of_ne hne]
        rfl
    next => rfl

theorem EverySlot.sysWrite (h : EverySlot lo P k) (fd : Int) (buf : Option (Nat → UInt8))
    (nbytes : Int) : EverySlot lo P (Ece391Os.sysWrite res k fd buf nbytes).kernel :=
  h.of_procs (procs_sysWrite fd buf nbytes)

end Calls

/-! ## Runs -/

/-- The calls of a run. -/
inductive SlotCall where
  | table (call : TableCall)
  | read (pid : Pid) (fd : Int) (buf : Option Word) (nbytes : Int) (res : Residue)
  | write (pid : Pid) (fd : Int) (buf : Option (Nat → UInt8)) (nbytes : Int) (res : Residue)

/-- One call. A read or a write that does not return ends the run. -/
def slotStep (img : FsImage) (k : Kernel) : SlotCall → Option Kernel
  | .table call => tableStep img k call
  | .read pid fd buf nbytes res =>
      (sysRead img res (k.runAs pid) fd buf nbytes).value?.map Prod.snd
  | .write pid fd buf nbytes res =>
      (sysWrite res (k.runAs pid) fd buf nbytes).value?.map Prod.snd

/-- The kernel after a call that returned. -/
theorem kernel_of_value {r : CallResult} {k : Kernel} (h : r.value?.map Prod.snd = some k) :
    r.kernel = k := by
  obtain ⟨x, hx, rfl⟩ := Option.map_eq_some_iff.mp h
  exact kernel_of_value? hx

section Runs

variable {img : FsImage} {k k' : Kernel} {lo : Fin 8}
  {P : FdBlock → Prop}

/-- The step lemma of a slot rule. -/
theorem EverySlot.step (hP : SlotRule img P) {c : SlotCall} (h : EverySlot lo P k)
    (hstep : slotStep img k c = some k') : EverySlot lo P k' := by
  have hrun : ∀ pid, EverySlot lo P (k.runAs pid) := fun _ => h
  cases c with
  | table c =>
      cases hstep
      cases c with
      | create parent =>
          simp only [TableCall.run]
          split
          · exact h
          next pid k' hcreate =>
            intro p i hi
            rw [createNewPcb_fdTableOf hcreate]
            split
            · -- a new table has its slots from `2` on cleared, whatever its memory held
              simp only [FdTable.reset]
              split
              · exact hP.cleared _
              · exact h pid i hi
            · exact h p i hi
      | destroy pid =>
          intro p i hi
          rw [TableCall.run, destroyPcb_fdTableOf]
          exact h p i hi
      | openFile pid filename res => exact (hrun pid).sysOpen hP filename
      | closeFile pid fd => exact (hrun pid).sysClose hP fd
  | read pid fd buf nbytes res =>
      rw [← kernel_of_value hstep]
      exact (hrun pid).sysRead hP fd buf nbytes
  | write pid fd buf nbytes res =>
      rw [← kernel_of_value hstep]
      exact (hrun pid).sysWrite fd buf nbytes

/-- The run lemma: what holds of the initial descriptors and follows the rule holds of all
descriptors after every run. -/
theorem everySlot_of_run (hP : SlotRule img P) (hinit : ∀ i, lo ≤ i → P (initialFds i))
    {espBoot : Word} {calls : List SlotCall}
    (hrun : runFrom (slotStep img) (bootKernel espBoot) calls = some k) : EverySlot lo P k := by
  have hboot : EverySlot lo P (bootKernel espBoot) := fun _ i hi => hinit i hi
  exact invariant_of_runFrom (fun _ _ _ h hstep => EverySlot.step hP h hstep) hboot hrun

/-- What the drivers keep is such a rule, on a markable image. -/
theorem slotRule_kept (himg : img.Markable) : SlotRule img FdBlock.Kept where
  cleared := fun _ => kept_cleared
  file := fun _ _ hfound => ⟨rfl, readDentryByName_inode himg hfound⟩
  dir := ⟨himg.count, rfl⟩
  rtc := fun _ => ⟨rfl, rfl⟩
  fileRead := fun _ nbytes hops h => h.fileRead hops nbytes
  directoryRead := fun _ res nbytes hops h => h.directoryRead hops res nbytes

/-- The initial descriptors from `2` on are cleared. -/
theorem kept_initialFds : ∀ i : Fin 8, 2 ≤ i → (initialFds i).Kept := by
  intro i hi
  have hslot : ∀ i : Fin 8, 2 ≤ i → initialFds i = (initialFds i).cleared := by decide
  rw [hslot i hi]
  exact kept_cleared

theorem KeptSlots.step (himg : img.Markable) {c : SlotCall} (h : KeptSlots k)
    (hstep : slotStep img k c = some k') : KeptSlots k' :=
  EverySlot.step (slotRule_kept himg) h hstep

/-- A descriptor is free after a read or a write exactly if it was free before. -/
theorem free_iff_of_pointer (h : KeptSlots k) (h' : KeptSlots k') {p : Pid} {i : Fin 8}
    (hi : 2 ≤ i) (hops : (k'.fdTableOf p i).fileOperationsPointer =
      (k.fdTableOf p i).fileOperationsPointer) :
    (k'.fdTableOf p i).Free ↔ (k.fdTableOf p i).Free := by
  have hfree := (h p i hi).fieldsAgree.flags_iff
  have hfree' := (h' p i hi).fieldsAgree.flags_iff
  rw [hops] at hfree'
  exact hfree'.trans hfree.symm

end Runs

/-- The descriptors from `2` on of every process: their fields agree, a call of `read`, `write` or
`close` on one that is not open reaches no driver, and no read and no write opens or frees one. -/
structure ConsistentSlots (img : FsImage) (k : Kernel) : Prop where
  agree : ∀ (p : Pid) (i : Fin 8), 2 ≤ i → (k.fdTableOf p i).FieldsAgree
  refused : ∀ (p : Pid) (i : Fin 8), 2 ≤ i → (k.fdTableOf p i).Free → NoDriver img (k.runAs p) i
  read_keeps : ∀ (pid : Pid) (fd : Int) (buf : Option Word) (nbytes : Int) (res : Residue)
    (k' : Kernel), slotStep img k (.read pid fd buf nbytes res) = some k' →
      ∀ (p : Pid) (i : Fin 8), 2 ≤ i → ((k'.fdTableOf p i).Free ↔ (k.fdTableOf p i).Free)
  write_keeps : ∀ (pid : Pid) (fd : Int) (buf : Option (Nat → UInt8)) (nbytes : Int)
    (res : Residue) (k' : Kernel), slotStep img k (.write pid fd buf nbytes res) = some k' →
      ∀ (p : Pid) (i : Fin 8), 2 ≤ i → ((k'.fdTableOf p i).Free ↔ (k.fdTableOf p i).Free)

theorem KeptSlots.consistent {img : FsImage} {k : Kernel} (himg : img.Markable)
    (h : KeptSlots k) : ConsistentSlots img k where
  agree := fun p i hi => (h p i hi).fieldsAgree
  refused := fun p i hi hfree => noDriver_of_free (h p i hi) hfree
  read_keeps := by
    intro pid fd buf nbytes res k' hstep p i hi
    have h' := h.step himg hstep
    rw [← kernel_of_value hstep] at h' ⊢
    exact free_iff_of_pointer h h' hi (sysRead_pointer fd buf nbytes p i)
  write_keeps := by
    intro pid fd buf nbytes res k' hstep p i hi
    have h' := h.step himg hstep
    rw [← kernel_of_value hstep] at h' ⊢
    apply free_iff_of_pointer h h' hi
    rw [Kernel.fdTableOf, procs_sysWrite]
    rfl

/-- In every run of `open`, `read`, `write` and `close` by any processes, the descriptors of all
processes stay consistent. -/
theorem consistentSlots_of_run {img : FsImage} (himg : img.Markable) (espBoot : Word)
    {calls : List SlotCall} {k : Kernel}
    (hrun : runFrom (slotStep img) (bootKernel espBoot) calls = some k) :
    ConsistentSlots img k := by
  have hkept : KeptSlots k := everySlot_of_run (slotRule_kept himg) kept_initialFds hrun
  exact hkept.consistent himg

/-- A process opens a directory and reads its two names. -/
def twoNames : List SlotCall :=
  [.table (.create 0), .table (.openFile 1 (some [46]) emptyResidue),
    .read 1 2 (some 0x8048000) 32 emptyResidue, .read 1 2 (some 0x8048000) 32 emptyResidue]

/-- After that run the countdown is at `0`, and the directory is still open. -/
theorem consistentSlots_twoNames :
    ∃ k, runFrom (slotStep gapImage) (bootKernel 0) twoNames = some k ∧
      (k.fdTableOf 1 2).flags = 0 ∧ (k.fdTableOf 1 2).fileOperationsPointer = some .dir ∧
      ConsistentSlots gapImage k := by
  have himg : gapImage.Markable := ⟨by decide, by decide⟩
  obtain ⟨k, hrun⟩ : ∃ k, runFrom (slotStep gapImage) (bootKernel 0) twoNames = some k :=
    ⟨_, rfl⟩
  have hslot : (runFrom (slotStep gapImage) (bootKernel 0) twoNames).map
      (fun k => ((k.fdTableOf 1 2).flags, (k.fdTableOf 1 2).fileOperationsPointer)) =
        some (0, some .dir) := by rfl
  rw [hrun] at hslot
  obtain ⟨hflags, hops⟩ := Prod.mk.inj (Option.some.inj hslot)
  exact ⟨k, hrun, hflags, hops, consistentSlots_of_run himg 0 hrun⟩

end Ece391Os
