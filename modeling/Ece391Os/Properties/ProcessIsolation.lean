import Ece391Os.Properties.ExitStatus
import Ece391Os.Properties.ProcessAccounting
import Ece391Os.Properties.ProgramImage
import Ece391Os.Properties.SlotStates
import Ece391Os.Properties.TerminalInput

/-!
# What the others do to a process

While a process is in none of its own handlers, the calls of the other processes, the programs that
they start and end, the timer and the keyboard leave its control block and its page alone
(`sameProcess_of_run`). The close functions of the two terminals are the exception: they clear a
descriptor of the process with the number of the displayed terminal. They are not reached, as no
descriptor from `2` on ever has a terminal behind it.
-/

set_option autoImplicit false

namespace Ece391Os

open EventRun

/-! ## Descriptors that are no terminals -/

/-- The driver of the descriptor, if any, is none of the two terminals. -/
def FdBlock.Private (b : FdBlock) : Prop :=
  b.fileOperationsPointer ≠ some .stdin ∧ b.fileOperationsPointer ≠ some .stdout

theorem FdBlock.private_of_ops {b : FdBlock} {op : OpTable}
    (hop : b.fileOperationsPointer = some op) (hstdin : op ≠ .stdin) (hstdout : op ≠ .stdout) :
    b.Private :=
  ⟨fun h => hstdin (Option.some.inj (hop.symm.trans h)),
    fun h => hstdout (Option.some.inj (hop.symm.trans h))⟩

/-- No descriptor from `2` on is a terminal. -/
abbrev PrivateSlots (k : Kernel) : Prop := EverySlot 2 FdBlock.Private k

/-- Descriptor `1` is the console. -/
structure StdOut (fds : FdTable) : Prop where
  stdout : (fds 1).fileOperationsPointer = some .stdout
  in_use : ¬ (fds 1).Free

/-- Descriptor `1` of every process is the console, and no descriptor from `2` on is a terminal. -/
structure ConsoleSlots (k : Kernel) : Prop where
  one : ∀ p, StdOut (k.fdTableOf p)
  behind : PrivateSlots k

section Console

variable {fds fds' : FdTable} {k k' : Kernel}

theorem StdOut.of_eq (h : StdOut fds) (heq : fds' 1 = fds 1) : StdOut fds' := by
  constructor
  · rw [heq]
    exact h.stdout
  · rw [heq]
    exact h.in_use

theorem ne_one_of_two_le {fd : Fin 8} (hfd : 2 ≤ fd) : fd ≠ 1 := by
  rintro rfl
  exact absurd hfd (by decide)

theorem ConsoleSlots.of_tables (h : ConsoleSlots k) (htables : k'.fdTableOf = k.fdTableOf) :
    ConsoleSlots k' := by
  refine ⟨fun p => ?_, fun p i hi => ?_⟩
  · rw [htables]
    exact h.one p
  · rw [htables]
    exact h.behind p i hi

theorem ConsoleSlots.of_procs (h : ConsoleSlots k) (hprocs : k'.procs = k.procs) :
    ConsoleSlots k' := by
  apply h.of_tables
  funext p
  rw [Kernel.fdTableOf, Kernel.fdTableOf, hprocs]

theorem setFd_fdTableOf_one (k : Kernel) {fd : Fin 8} (hfd : fd ≠ 1) (b : FdBlock) (p : Pid) :
    (k.setFd fd b).fdTableOf p 1 = k.fdTableOf p 1 := by
  rw [Kernel.setFd, setPcb_fdTableOf]
  split
  next hp =>
    rw [hp]
    exact Function.update_of_ne hfd.symm b k.fdTable
  · rfl

/-- A new content of a descriptor other than `1`. -/
theorem ConsoleSlots.setFd (h : ConsoleSlots k) {fd : Fin 8} (hfd : fd ≠ 1) {b : FdBlock}
    (hb : b.Private) : ConsoleSlots (k.setFd fd b) :=
  ⟨fun p => (h.one p).of_eq (setFd_fdTableOf_one k hfd b p), h.behind.setFd fun _ => hb⟩

end Console

section Slots

variable {img : FsImage} {res : Residue} {frame : ExecuteFrame} {k k' : Kernel} {p : Pid}

/-- What `open`, `read` and `close` write into a slot is no terminal. -/
theorem slotRule_private (img : FsImage) : SlotRule img FdBlock.Private where
  cleared := fun _ => ⟨(Option.some_ne_none _).symm, (Option.some_ne_none _).symm⟩
  file := fun _ _ _ => FdBlock.private_of_ops rfl (by decide) (by decide)
  dir := FdBlock.private_of_ops rfl (by decide) (by decide)
  rtc := fun _ => FdBlock.private_of_ops rfl (by decide) (by decide)
  fileRead := fun b nbytes _ h => by
    rw [FdBlock.Private, (fileRead_flags b nbytes).1]
    exact h
  directoryRead := fun b res nbytes _ h => by
    rw [FdBlock.Private, directoryRead, directoryLoop_pointer]
    exact h

theorem private_initialFds {i : Fin 8} (hi : 2 ≤ i) : (initialFds i).Private := by
  have hslot : ∀ i : Fin 8, 2 ≤ i → initialFds i = (initialFds i).cleared := by decide
  rw [hslot i hi]
  exact (slotRule_private fiveByteImage).cleared _

theorem stdOut_initialFds : StdOut initialFds := ⟨rfl, by decide⟩

theorem consoleSlots_boot (espBoot : Word) : ConsoleSlots (bootKernel espBoot) :=
  ⟨fun _ => stdOut_initialFds, fun _ _ hi => private_initialFds hi⟩

/-- The open functions never take descriptor `1`. -/
theorem slotSearch_mem {full : Nat} {fds : FdTable} {l : List (Fin 8)} {fd : Fin 8}
    (h : slotSearch full fds l = some fd) : fd = 0 ∨ fd ∈ l := by
  induction l with
  | nil => exact Or.inl (Option.some.inj h).symm
  | cons i l ih =>
      simp only [slotSearch] at h
      split at h
      · exact Or.inr (List.mem_cons.mpr (Or.inl (Option.some.inj h).symm))
      · split at h
        · cases h
        · exact (ih h).imp_right (List.mem_cons_of_mem i)

theorem slotSearch_ne_one {full : Nat} {fds : FdTable} {fd : Fin 8}
    (h : slotSearch full fds openSlots = some fd) : fd ≠ 1 := by
  rintro rfl
  rcases slotSearch_mem h with hzero | hmem
  · exact absurd hzero (by decide)
  · exact absurd hmem (by decide)

theorem ConsoleSlots.sysOpen (h : ConsoleSlots k) (filename : Option CString) :
    ConsoleSlots (Ece391Os.sysOpen img res k filename).2 := by
  refine ⟨fun p => (h.one p).of_eq ?_, h.behind.sysOpen (slotRule_private img) filename⟩
  rcases sysOpen_cases img res k filename with
    ⟨v, hopen⟩ | hopen | ⟨name, dentry, hfound, hopen | hopen⟩
  · rw [hopen]
    rfl
  · rw [hopen]
    simp only [rtcOpen]
    split
    · rfl
    · split
      · rfl
      next fd hsearch => exact setFd_fdTableOf_one k (slotSearch_ne_one hsearch) _ p
  · rw [hopen]
    simp only [directoryOpen, hfound]
    split
    · rfl
    next fd hsearch => exact setFd_fdTableOf_one k (slotSearch_ne_one hsearch) _ p
  · rw [hopen]
    simp only [fileOpen, hfound]
    split
    · rfl
    next fd hsearch => exact setFd_fdTableOf_one k (slotSearch_ne_one hsearch) _ p

theorem ConsoleSlots.sysRead (h : ConsoleSlots k) (fd : Int) (buf : Option Word) (nbytes : Int) :
    ConsoleSlots (Ece391Os.sysRead img res k fd buf nbytes).kernel := by
  refine ⟨fun p => (h.one p).of_eq ?_, h.behind.sysRead (slotRule_private img) fd buf nbytes⟩
  rcases sysRead_dispatch img res k fd buf nbytes with hread | ⟨i, op, -, hdriver, hread⟩
  · rw [hread]
    rfl
  · rw [hread]
    -- a descriptor that a read writes back has a file or the directory behind it
    have hne : op ≠ .stdout → i ≠ 1 := by
      rintro hop rfl
      have hone : (k.fdTable 1).fileOperationsPointer = some .stdout :=
        (h.one k.procs.currentPid).stdout
      rw [pointer_of_driver hdriver] at hone
      exact hop (Option.some.inj hone)
    cases op with
    | stdin =>
        simp only [OpTable.read, terminalRead]
        split
        · rfl
        · rfl
    | stdout => rfl
    | file => exact setFd_fdTableOf_one k (hne (by decide)) _ p
    | dir => exact setFd_fdTableOf_one k (hne (by decide)) _ p
    | rtc => rfl

theorem OwnTableOnly.trans {k₀ : Kernel} (h₁ : OwnTableOnly k₀ k) (h₂ : OwnTableOnly k k') :
    OwnTableOnly k₀ k' where
  currentPid_eq := h₂.currentPid_eq.trans h₁.currentPid_eq
  others := by
    intro q hq
    rw [← h₁.others q hq]
    exact h₂.others q (h₁.currentPid_eq ▸ hq)

theorem sysRead_ownTableOnly (fd : Int) (buf : Option Word) (nbytes : Int) :
    OwnTableOnly k (sysRead img res k fd buf nbytes).kernel where
  currentPid_eq := callFrame_currentPid.sysRead k fd buf nbytes
  others := fun _ hq => funext fun _ => sysRead_fdTableOf (Or.inl hq)

/-- What the close functions but those of the terminals do to the control blocks. -/
def ClosesOwn (k k' : Kernel) : Prop :=
  k'.procs = k.procs ∨ ∃ i b, 2 ≤ i ∧ k'.procs = (k.setFd i b).procs

theorem closesOwn_fileClose (fd : Int) : ClosesOwn k (fileClose k fd).2 := by
  generalize hr : fileClose k fd = r
  simp only [fileClose] at hr
  split at hr
  next hfd =>
    split at hr
    · subst hr
      exact Or.inl rfl
    · subst hr
      have htwo : 2 ≤ fd.toNat := by omega
      exact Or.inr ⟨⟨fd.toNat, by omega⟩, _, Fin.le_def.mpr htwo, rfl⟩
  · subst hr
    exact Or.inl rfl

theorem closesOwn_rtcClose (fd : Int) : ClosesOwn k (rtcClose k fd).2 := by
  generalize hr : rtcClose k fd = r
  simp only [rtcClose] at hr
  split at hr
  next hfd =>
    split at hr
    · subst hr
      exact Or.inl rfl
    · subst hr
      have htwo : 2 ≤ fd.toNat := by omega
      exact Or.inr ⟨⟨fd.toNat, by omega⟩, _, Fin.le_def.mpr htwo, rfl⟩
  · subst hr
    exact Or.inl rfl

/-- `close` clears a descriptor of its caller or changes nothing: it would write to another table
if the descriptor were a terminal. -/
theorem closesOwn_sysClose (h : PrivateSlots k) (fd : Int) : ClosesOwn k (sysClose k fd).2 := by
  by_cases hfd : 2 ≤ fd ∧ fd < 8
  · obtain ⟨i, rfl⟩ := exists_fd (n := fd) ⟨by omega, hfd.2⟩
    have hi : 2 ≤ i := Fin.le_def.mpr (by exact_mod_cast hfd.1)
    have hprivate := h k.procs.currentPid i hi
    rw [sysClose_of_le k hi]
    cases hop : (k.fdTable i).fileOperationsPointer with
    | none => exact Or.inl rfl
    | some op =>
        rw [Option.elim_some]
        cases op with
        | stdin => exact absurd hop hprivate.1
        | stdout => exact absurd hop hprivate.2
        | file => exact @closesOwn_fileClose k.cli i.val
        | dir => exact @closesOwn_fileClose k.cli i.val
        | rtc => exact @closesOwn_rtcClose k.cli i.val
  · rw [sysClose_of_out hfd]
    exact Or.inl rfl

theorem ConsoleSlots.sysClose (h : ConsoleSlots k) (fd : Int) :
    ConsoleSlots (Ece391Os.sysClose k fd).2 := by
  refine ⟨fun p => (h.one p).of_eq ?_, h.behind.sysClose (slotRule_private fiveByteImage) fd⟩
  rw [Kernel.fdTableOf]
  rcases closesOwn_sysClose h.behind fd with hprocs | ⟨i, b, hi, hprocs⟩
  · rw [hprocs]
    rfl
  · rw [hprocs]
    exact setFd_fdTableOf_one k (ne_one_of_two_le hi) b p

theorem sysClose_ownTableOnly_of_private (h : PrivateSlots k) (fd : Int) :
    OwnTableOnly k (sysClose k fd).2 := by
  rcases closesOwn_sysClose h fd with hprocs | ⟨i, b, -, hprocs⟩
  · exact ⟨congrArg Processes.currentPid hprocs, fun q _ => by
      rw [Kernel.fdTableOf, Kernel.fdTableOf, hprocs]⟩
  · have hset := OwnTableOnly.setFd k i b
    refine ⟨(congrArg Processes.currentPid hprocs).trans hset.currentPid_eq, fun q hq => ?_⟩
    rw [Kernel.fdTableOf, hprocs]
    exact hset.others q hq

/-- The same process runs, no other table has changed, and the console is where it was. -/
structure OwnSlotsOnly (k k' : Kernel) : Prop extends OwnTableOnly k k' where
  slots : ConsoleSlots k'

theorem ownSlotsOnly_open (h : ConsoleSlots k) (filename : Option CString) :
    OwnSlotsOnly k (sysOpen img res k filename).2 :=
  ⟨sysOpen_ownTableOnly img res filename, h.sysOpen filename⟩

theorem ownSlotsOnly_close (h : ConsoleSlots k) (fd : Int) : OwnSlotsOnly k (sysClose k fd).2 :=
  ⟨sysClose_ownTableOnly_of_private h.behind fd, h.sysClose fd⟩

theorem ownSlotsOnly_read (h : ConsoleSlots k) (fd : Int) (buf : Option Word) (nbytes : Int) :
    OwnSlotsOnly k (sysRead img res k fd buf nbytes).kernel :=
  ⟨sysRead_ownTableOnly fd buf nbytes, h.sysRead fd buf nbytes⟩

theorem OwnSlotsOnly.trans {k₀ : Kernel} (h₁ : OwnSlotsOnly k₀ k) (h₂ : OwnSlotsOnly k k') :
    OwnSlotsOnly k₀ k' :=
  ⟨h₁.toOwnTableOnly.trans h₂.toOwnTableOnly, h₂.slots⟩

theorem OwnSlotsOnly.of_procs (h : ConsoleSlots k) (hprocs : k'.procs = k.procs) :
    OwnSlotsOnly k k' :=
  ⟨(OwnTableOnly.refl k').of_procs hprocs, h.of_procs hprocs⟩

/-- The first part of `execute` opens, reads and closes in the table of its caller. -/
theorem ownSlotsOnly_executeLoad (h : ConsoleSlots k) {command : Option CString} :
    (∀ v, executeLoad img res frame k command = .returned v k' → OwnSlotsOnly k k') ∧
      ∀ buf, executeLoad img res frame k command = .loaded buf k' → OwnSlotsOnly k k' := by
  have hopen : ∀ cmd, OwnSlotsOnly k (sysOpen img res k (some (commandWord cmd))).2 :=
    fun cmd => ownSlotsOnly_open h _
  have hall : ∀ cmd, OwnSlotsOnly k (sysClose
      (sysRead img res (sysOpen img res k (some (commandWord cmd))).2
        (sysOpen img res k (some (commandWord cmd))).1 (some frame.buf) executeLength).kernel
      (sysOpen img res k (some (commandWord cmd))).1).2 := by
    intro cmd
    have hread := @ownSlotsOnly_read img res _ (hopen cmd).slots
      (sysOpen img res k (some (commandWord cmd))).1 (some frame.buf) executeLength
    exact ((hopen cmd).trans hread).trans (ownSlotsOnly_close hread.slots _)
  constructor
  · intro v hload
    cases effect_of_executeLoad hload with
    | noCommand => exact .of_procs h rfl
    | full => exact .of_procs h rfl
    | long => exact .of_procs h rfl
    | notOpened => exact hopen _
    | notExecutable => exact hall _
  · intro buf hload
    cases effect_of_executeLoad hload with
    | loaded => exact hall _

/-- A handler that returns writes to no table but that of its caller. -/
theorem ownSlotsOnly_serve (h : ConsoleSlots k) {call : Call} {v : Int}
    (hserve : serve img res k call = some (v, k')) : OwnSlotsOnly k k' := by
  cases call with
  | halt status => cases hserve
  | execute command frame =>
      simp only [serve] at hserve
      split at hserve
      next hexec =>
        cases hserve
        exact (ownSlotsOnly_executeLoad h).1 _ (executeLoad_of_returned hexec)
      · cases hserve
      · cases hserve
  | read fd buf nbytes =>
      rw [← kernel_of_value? (CallResult.value?_of_into hserve)]
      exact ownSlotsOnly_read h fd buf nbytes
  | write fd buf nbytes =>
      rw [← kernel_of_value? hserve]
      exact .of_procs h (procs_sysWrite fd buf nbytes)
  | «open» filename =>
      have hk : (sysOpen img res k filename).2 = k' := congrArg Prod.snd (Option.some.inj hserve)
      rw [← hk]
      exact ownSlotsOnly_open h filename
  | close fd =>
      have hk : (sysClose k fd).2 = k' := congrArg Prod.snd (Option.some.inj hserve)
      rw [← hk]
      exact ownSlotsOnly_close h fd
  | getargs buf nbytes =>
      rw [← kernel_of_value? (CallResult.value?_of_into hserve)]
      rcases getargs_kernel k buf nbytes with hk | hk
      · rw [hk]
        exact .of_procs h rfl
      · rw [hk]
        refine ⟨⟨rfl, fun q _ => clearArgs_fdTableOf k.cli q⟩, h.of_tables ?_⟩
        exact funext fun q => clearArgs_fdTableOf k.cli q
  | vidmap screenStart =>
      rw [← kernel_of_value? (CallResult.value?_of_into hserve), vidmap_kernel]
      exact .of_procs h rfl
  | setHandler =>
      rw [← kernel_of_value? (r := setHandler k) hserve]
      exact .of_procs h rfl
  | sigreturn =>
      rw [← kernel_of_value? (r := sigreturn k) hserve]
      exact .of_procs h rfl

end Slots

/-! ## Control blocks -/

/-- A control block apart from its descriptors. -/
def Pcb.record (b : Pcb) : Pcb := { b with fdTable := initialFds }

/-- The running process, and the control blocks of the others apart from their descriptors. -/
def Kernel.otherRecords (k : Kernel) : Pid × (Pid → Option Pcb) :=
  (k.procs.currentPid, fun p =>
    if p = k.procs.currentPid then none else some (k.procs.controlBlocks p).record)

/-- The control block and the page of `p` are as they were. -/
structure SameProcess (p : Pid) (k k' : Kernel) : Prop where
  block : k'.procs.controlBlocks p = k.procs.controlBlocks p
  page : k'.programMem p = k.programMem p

section Records

variable {img : FsImage} {res : Residue} {frame : ExecuteFrame} {k k' : Kernel} {p : Pid}

theorem SameProcess.refl (p : Pid) (k : Kernel) : SameProcess p k k := ⟨rfl, rfl⟩

theorem SameProcess.trans {k₀ : Kernel} (h₁ : SameProcess p k₀ k) (h₂ : SameProcess p k k') :
    SameProcess p k₀ k' :=
  ⟨h₂.block.trans h₁.block, h₂.page.trans h₁.page⟩

theorem SameProcess.live_iff (h : SameProcess p k k') : k'.Live p ↔ k.Live p := by
  rw [Kernel.Live, Kernel.Live, h.block]

theorem Pcb.eq_of_record {b b' : Pcb} (hfds : b'.fdTable = b.fdTable)
    (hrecord : b'.record = b.record) : b' = b := by
  cases b
  cases b'
  simp only [Pcb.record, Pcb.mk.injEq] at hrecord hfds ⊢
  exact ⟨hfds, hrecord.2⟩

theorem otherRecords_setPcb (k : Kernel) (q : Pid) {b : Pcb}
    (hb : q ≠ k.procs.currentPid → b.record = (k.procs.controlBlocks q).record) :
    (k.setPcb q b).otherRecords = k.otherRecords := by
  refine Prod.ext rfl (funext fun p => ?_)
  by_cases hp : p = k.procs.currentPid
  · exact (if_pos hp).trans (if_pos hp).symm
  · refine (if_neg hp).trans (Eq.trans (congrArg some ?_) (if_neg hp).symm)
    simp only [Kernel.setPcb]
    rcases eq_or_ne p q with rfl | hne
    · rw [Function.update_self, hb hp]
    · rw [Function.update_of_ne hne]

theorem callFrame_otherRecords : CallFrame Kernel.otherRecords where
  fds := fun k q _ => otherRecords_setPcb k q fun _ => rfl
  interrupts := fun _ _ => rfl
  rtc := fun _ _ => rfl
  output := fun _ _ _ => rfl
  reader := fun _ _ _ => rfl

theorem block_of_otherRecords (hrecords : k'.otherRecords = k.otherRecords)
    (hp : p ≠ k.procs.currentPid) (hfds : k'.fdTableOf p = k.fdTableOf p) :
    k'.procs.controlBlocks p = k.procs.controlBlocks p := by
  have hcurrent : k'.procs.currentPid = k.procs.currentPid := congrArg Prod.fst hrecords
  have hrecord := congrFun (congrArg Prod.snd hrecords) p
  simp only [Kernel.otherRecords, hcurrent, if_neg hp] at hrecord
  exact Pcb.eq_of_record hfds (Option.some.inj hrecord)

/-- A handler that returns changes nothing of the other processes. -/
theorem sameProcess_serve (h : ConsoleSlots k) {call : Call} {v : Int}
    (hserve : serve img res k call = some (v, k')) (hp : p ≠ k.procs.currentPid) :
    SameProcess p k k' where
  block := by
    apply block_of_otherRecords _ hp ((ownSlotsOnly_serve h hserve).others p hp)
    exact callFrame_otherRecords.serve (fun _ _ _ _ _ => rfl)
      (fun k => otherRecords_setPcb k _ fun hne => absurd rfl hne) hserve
  page := congrFun (callFrame_programMem.serve (fun _ _ _ _ _ => rfl) (fun _ => rfl) hserve) p

/-- A new process has its descriptors from `2` on cleared, whatever its memory held. -/
theorem reset_of_two_le (fds : FdTable) {i : Fin 8} (hi : 2 ≤ i) : fds.reset i = (fds i).cleared :=
  if_pos (Fin.le_def.mp hi)

theorem consoleSlots_started (h : ConsoleSlots k) {command : Option CString} {entry : Word}
    (hexec : execute img res frame k command = .started entry k') : ConsoleSlots k' := by
  obtain ⟨buf, k₁, hload, hspawn, -⟩ := executeSpawn_of_started hexec
  have hslots := ((ownSlotsOnly_executeLoad h).2 buf hload).slots
  refine ⟨fun q => ?_, fun q i hi => ?_⟩
  · rw [executeSpawn_fdTableOf hspawn]
    split
    · exact (hslots.one q).of_eq rfl
    · exact hslots.one q
  · rw [executeSpawn_fdTableOf hspawn]
    split
    · rw [reset_of_two_le _ hi]
      exact (slotRule_private img).cleared _
    · exact hslots.behind q i hi

/-- The process that `execute` has started is live. -/
theorem live_of_started {command : Option CString} {entry : Word}
    (hexec : execute img res frame k command = .started entry k') :
    k'.Live k'.procs.currentPid := by
  obtain ⟨buf, k₁, -, hspawn, -⟩ := executeSpawn_of_started hexec
  obtain ⟨q, hs⟩ := spawns_of_executeSpawn hspawn
  obtain ⟨args, hblock, -⟩ := hs.block
  rw [Kernel.Live, hs.current, hblock, newBlock]
  exact ne_of_gt (lt_of_lt_of_le (by decide) (Int.natCast_nonneg q.val))

/-- It has taken a free control block. -/
theorem accounted_started (h : Accounted k) {command : Option CString} {entry : Word}
    (hexec : execute img res frame k command = .started entry k') : Accounted k' := by
  obtain ⟨buf, k₁, hload, hspawn, -⟩ := executeSpawn_of_started hexec
  obtain ⟨q, hfree, hslots⟩ := slots_executeSpawn hspawn
  exact (h.of_slots (callFrame_slots.executeLoad.2 buf hload)).spawn hfree hslots

/-- An `execute` that starts a program changes nothing of the processes but its caller. -/
theorem sameProcess_started (h : ConsoleSlots k) {command : Option CString} {entry : Word}
    (hexec : execute img res frame k command = .started entry k') (hp : p ≠ k.procs.currentPid)
    (hlive : k.Live p) : SameProcess p k k' := by
  obtain ⟨buf, k₁, hload, hspawn, -⟩ := executeSpawn_of_started hexec
  have hown := (ownSlotsOnly_executeLoad h).2 buf hload
  have hblock : k₁.procs.controlBlocks p = k.procs.controlBlocks p :=
    block_of_otherRecords (callFrame_otherRecords.executeLoad.2 buf hload) hp (hown.others p hp)
  obtain ⟨q, hs⟩ := spawns_of_executeSpawn hspawn
  -- the new process had a free control block
  have hne : p ≠ q := by
    rintro rfl
    have hfree : (k₁.procs.controlBlocks p).pid = -1 := (free_of_freePid hs.free).2
    rw [hblock] at hfree
    exact hlive hfree
  constructor
  · have hcaller : p ≠ k₁.procs.currentPid := hown.currentPid_eq ▸ hp
    rw [hs.others p hne, if_neg hcaller, ← hblock]
  · rw [hs.programMem, Function.update_of_ne hne, callFrame_programMem.executeLoad.2 buf hload]

theorem consoleSlots_halt (h : ConsoleSlots k) : ConsoleSlots (halted (halt k)) :=
  h.of_tables (halt_field k Pcb.fdTable fun _ _ => rfl)

theorem sameProcess_halt (hp : p ≠ k.procs.currentPid) : SameProcess p k (halted (halt k)) := by
  have hblocks : (halted (halt k)).procs.controlBlocks = Function.update k.procs.controlBlocks
      k.procs.currentPid { k.procs.controlBlocks k.procs.currentPid with pid := -1 } := rfl
  refine ⟨?_, rfl⟩
  rw [hblocks, Function.update_of_ne hp]

end Records

/-! ## Runs -/

namespace ExitMachine

variable {img : FsImage} {m m' : ExitMachine} {p : Pid}

/-- The step is that of a handler: it returns, starts a program or ends one. -/
def handles : ExitEvent → Bool
  | .step (.serve _) | .step (.spawn _) | .step .halt => true
  | _ => false

/-- It is no handler of process `p`. -/
def Spares (p : Pid) (m : ExitMachine) (e : ExitEvent) : Prop :=
  handles e = true → m.calls.running ≠ p

instance (p : Pid) (m : ExitMachine) (e : ExitEvent) : Decidable (Spares p m e) :=
  inferInstanceAs (Decidable (_ → _))

/-- A program that is about to end has only entered a handler. -/
theorem kernel_of_finish {ending : Ending} (hstep : m.step img (.finish ending) = some m') :
    m'.calls.kernel = m.calls.kernel.cli := by
  simp only [ExitMachine.step, ExitMachine.finish] at hstep
  split at hstep
  · cases hstep
    rfl
  · obtain ⟨arg, -, rfl⟩ := Option.map_eq_some_iff.mp hstep
    rfl
  · obtain ⟨arg, -, rfl⟩ := Option.map_eq_some_iff.mp hstep
    rfl
  · cases hstep

theorem calls_of_step {e : CallEvent} (hstep : m.step img (.step e) = some m') :
    ∃ c, m.calls.step img e = some c ∧ m'.calls = c := by
  have hexited : ∀ c, (m.exited c).calls = c := by
    intro c
    simp only [ExitMachine.exited]
    split
    · rfl
    · rfl
  have hspawned : ∀ c, (m.spawned c).calls = c := by
    intro c
    simp only [ExitMachine.spawned]
    split
    · rfl
    · rfl
  by_cases hspawn : ∃ res, e = .spawn res
  · obtain ⟨res, rfl⟩ := hspawn
    obtain ⟨c, hc, rfl⟩ := Option.map_eq_some_iff.mp hstep
    exact ⟨c, hc, hspawned c⟩
  · by_cases hhalt : e = .halt
    · subst hhalt
      obtain ⟨c, hc, rfl⟩ := Option.map_eq_some_iff.mp hstep
      exact ⟨c, hc, hexited c⟩
    · by_cases hcall : ∃ status, e = .call (.halt status)
      · obtain ⟨status, rfl⟩ := hcall
        cases hstep
      · rw [step_other (not_exists.mp hspawn) hhalt (not_exists.mp hcall)] at hstep
        obtain ⟨c, hc, rfl⟩ := Option.map_eq_some_iff.mp hstep
        exact ⟨c, hc, rfl⟩

/-- What one step keeps. -/
theorem consoleSlots_step {e : ExitEvent} (h : ConsoleSlots m.calls.kernel)
    (hstep : m.step img e = some m') : ConsoleSlots m'.calls.kernel ∧
      ∀ p, m.calls.kernel.Live p → Spares p m e →
        SameProcess p m.calls.kernel m'.calls.kernel := by
  -- an interrupt, or an instruction outside the handlers
  have hquiet : ∀ {k : Kernel}, k.procs.controlBlocks = m.calls.kernel.procs.controlBlocks →
      k.programMem = m.calls.kernel.programMem →
      ConsoleSlots k ∧ ∀ p, m.calls.kernel.Live p → Spares p m e →
        SameProcess p m.calls.kernel k := by
    intro k hblocks hpages
    refine ⟨h.of_tables (funext fun q => ?_), fun p _ _ => ⟨by rw [hblocks], by rw [hpages]⟩⟩
    rw [Kernel.fdTableOf, hblocks]
    rfl
  cases e with
  | finish ending =>
      rw [kernel_of_finish hstep]
      exact hquiet rfl rfl
  | devices terms kbd video =>
      cases hstep
      exact hquiet rfl rfl
  | step e =>
      obtain ⟨c, hc, hcalls⟩ := calls_of_step hstep
      rw [hcalls]
      have hcli : ConsoleSlots m.calls.kernel.cli := h.of_procs rfl
      have hsame : ∀ p, SameProcess p m.calls.kernel m.calls.kernel.cli := fun _ => ⟨rfl, rfl⟩
      have hne : ∀ {p}, m.calls.running ≠ p → p ≠ m.calls.kernel.cli.procs.currentPid :=
        fun hrunning heq => hrunning heq.symm
      cases CallMachine.effect_of_step hc with
      | serve _ hserve =>
          exact ⟨(ownSlotsOnly_serve hcli hserve).slots, fun p _ hspares =>
            (hsame p).trans (sameProcess_serve hcli hserve (hne (hspares rfl)))⟩
      | spawn _ hexec =>
          exact ⟨consoleSlots_started hcli hexec, fun p hlive hspares =>
            (hsame p).trans (sameProcess_started hcli hexec (hne (hspares rfl)) hlive)⟩
      | haltFirst _ hk =>
          subst hk
          exact ⟨consoleSlots_halt hcli, fun p _ hspares =>
            (hsame p).trans (sameProcess_halt (hne (hspares rfl)))⟩
      | haltChild _ hk =>
          subst hk
          exact ⟨consoleSlots_halt hcli, fun p _ hspares =>
            (hsame p).trans (sameProcess_halt (hne (hspares rfl)))⟩
      | tick _ hswitch =>
          obtain ⟨pid, sched, video, rfl⟩ := scheduleWrapper_frame hswitch
          exact hquiet rfl rfl
      | _ => exact hquiet rfl rfl

/-- The run lemma. -/
theorem sameProcess_of_spared {events : List ExitEvent} (h : ConsoleSlots m.calls.kernel)
    (hlive : m.calls.kernel.Live p)
    (hspares : AllSteps (ExitMachine.step img) (fun m e _ => Spares p m e) m events)
    (hrun : runFrom (ExitMachine.step img) m events = some m') :
    ConsoleSlots m'.calls.kernel ∧ SameProcess p m.calls.kernel m'.calls.kernel := by
  apply invariant_of_allSteps (I := fun m' => ConsoleSlots m'.calls.kernel ∧
    SameProcess p m.calls.kernel m'.calls.kernel) _ ⟨h, .refl p _⟩ hspares hrun
  rintro m₁ e m₂ ⟨hslots, hsame⟩ hstep hkeep
  obtain ⟨hslots', hstepped⟩ := consoleSlots_step hslots hstep
  exact ⟨hslots', hsame.trans (hstepped p (hsame.live_iff.mpr hlive) hkeep)⟩

/-! ## The counter of the processes -/

/-- The step is the end of a program. -/
def halts : ExitEvent → Bool
  | .step .halt => true
  | _ => false

/-- What ends is a live program: the sentinel, which is part of the kernel, calls no `halt`. -/
def EndsProgram (m : ExitMachine) (e : ExitEvent) : Prop :=
  halts e = true → m.calls.running ≠ sentinelProcess ∧ m.calls.kernel.Live m.calls.running

instance (m : ExitMachine) (e : ExitEvent) : Decidable (EndsProgram m e) :=
  inferInstanceAs (Decidable (_ → _ ∧ _))

theorem accounted_step {e : ExitEvent} (h : Accounted m.calls.kernel) (hends : EndsProgram m e)
    (hstep : m.step img e = some m') : Accounted m'.calls.kernel := by
  cases e with
  | finish ending =>
      rw [kernel_of_finish hstep]
      exact h.of_slots rfl
  | devices terms kbd video =>
      cases hstep
      exact h.of_slots rfl
  | step e =>
      obtain ⟨c, hc, hcalls⟩ := calls_of_step hstep
      rw [hcalls]
      have hcli : Accounted m.calls.kernel.cli := h.of_slots rfl
      cases CallMachine.effect_of_step hc with
      | serve _ hserve =>
          exact hcli.of_slots (callFrame_slots.serve (fun _ _ _ _ _ => rfl) slots_clearArgs hserve)
      | spawn _ hexec => exact accounted_started hcli hexec
      | haltFirst _ hk =>
          subst hk
          exact hcli.halt (hends rfl).1 (hends rfl).2 (slots_halt _)
      | haltChild _ hk =>
          subst hk
          exact hcli.halt (hends rfl).1 (hends rfl).2 (slots_halt _)
      | tick _ hswitch =>
          obtain ⟨pid, sched, video, rfl⟩ := scheduleWrapper_frame hswitch
          exact h.of_slots rfl
      | _ => exact h.of_slots rfl

end ExitMachine

/-- What every run of live programs keeps of the kernel. -/
structure Maintained (k : Kernel) : Prop where
  slots : ConsoleSlots k
  accounted : Accounted k

namespace ExitMachine

variable {img : FsImage} {m m' : ExitMachine} {p : Pid}

/-- The run lemma for programs. -/
theorem maintained_of_allSteps {events : List ExitEvent} (h : Maintained m.calls.kernel)
    (hends : AllSteps (ExitMachine.step img) (fun m e _ => EndsProgram m e) m events)
    (hrun : runFrom (ExitMachine.step img) m events = some m') : Maintained m'.calls.kernel := by
  apply invariant_of_allSteps (I := fun m => Maintained m.calls.kernel) _ h hends hrun
  intro m₁ e m₂ hkernel hstep hends
  exact ⟨(consoleSlots_step hkernel.slots hstep).1, accounted_step hkernel.accounted hends hstep⟩

theorem consoleSlots_of_run {reg : ByteRegister} {espBoot : Word} {events : List ExitEvent}
    (hrun : runFrom (ExitMachine.step img) (bootExits reg espBoot) events = some m) :
    ConsoleSlots m.calls.kernel :=
  invariant_of_runFrom (I := fun m => ConsoleSlots m.calls.kernel)
    (fun _ _ _ h hstep => (consoleSlots_step h hstep).1) (consoleSlots_boot espBoot) hrun

end ExitMachine

open ExitMachine

/-- In every run from boot, a process keeps its descriptors, its arguments, its parent, its saved
stack pointers and its page for as long as no handler is served for it. -/
theorem sameProcess_of_run {img : FsImage} {reg : ByteRegister} {espBoot : Word}
    {before events : List ExitEvent} {m m' : ExitMachine} {p : Pid}
    (hboot : runFrom (ExitMachine.step img) (bootExits reg espBoot) before = some m)
    (hlive : m.calls.kernel.Live p)
    (hspares : AllSteps (ExitMachine.step img) (fun m e _ => Spares p m e) m events)
    (hrun : runFrom (ExitMachine.step img) m events = some m') :
    SameProcess p m.calls.kernel m'.calls.kernel :=
  (sameProcess_of_spared (consoleSlots_of_run hboot) hlive hspares hrun).2

/-- The shell has started `ls`. -/
def lsRunning : ExitMachine :=
  (runFrom (ExitMachine.step shellImage) (bootExits .bl 0x7FFFC0) (pageFaultRun.take 4)).get
    (by decide +kernel)

/-- `ls` opens the directory, and its `halt` is served. -/
def lsEnds : List ExitEvent :=
  [.step (.call (.open (some [46]))), .step (.serve emptyResidue), .step .store, .step .popal,
    .step .reload, .step .iret, .finish (.halt 0), .step .halt]

/-- The shell does not notice. -/
theorem sameProcess_shell : SameProcess 1 lsRunning.calls.kernel
    ((runFrom (ExitMachine.step shellImage) lsRunning lsEnds).get
      (by decide +kernel)).calls.kernel :=
  sameProcess_of_run (Option.some_get _).symm (by decide +kernel)
    (by decide +kernel) (Option.some_get _).symm

end Ece391Os
