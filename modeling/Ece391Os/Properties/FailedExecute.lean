import Ece391Os.Model.SystemCall
import Ece391Os.Properties.CallFrames
import Ece391Os.Properties.Executables

/-!
# What a refused command leaves behind

`execute` opens the named entry in the caller's own descriptor table, reads it and closes it
before it can refuse it. Open, read and close undo each other when the descriptor is one from
`2` on that was free; `LeavesNoTrace` is the exact condition under which nothing is left
(`unchanged_iff_leavesNoTrace`).
-/

set_option autoImplicit false

namespace Ece391Os

/-! ## What is to stay the same -/

/-- Two descriptors are the same as far as a process can tell: both are free, or they are
equal. -/
def FdBlock.Same (b b' : FdBlock) : Prop := b.Free ∧ b'.Free ∨ b' = b

/-- The process table, the argument buffers, the open descriptors of all processes, the schedule
stacks, the keyboard driver and the rate of the clock are the same. -/
structure Unchanged (k k' : Kernel) : Prop where
  controlBlocks : ∀ p, k'.procs.controlBlocks p =
    { k.procs.controlBlocks p with fdTable := k'.fdTableOf p }
  numActiveProcesses : k'.procs.numActiveProcesses = k.procs.numActiveProcesses
  currentPid : k'.procs.currentPid = k.procs.currentPid
  descriptors : ∀ p i, (k.fdTableOf p i).Same (k'.fdTableOf p i)
  sched : k'.sched = k.sched
  kbd : k'.kbd = k.kbd
  register : k'.rtc.register = k.rtc.register

/-! ## When nothing is left -/

/-- The block whose descriptor `0` is cleared by `keyboard_close`. -/
def Kernel.consolePid (k : Kernel) : Pid := k.terms.currentTerminal.castLE terminals_le_processes

/-- Reading and closing descriptor `i`, which `execute` has not opened, changes nothing: the
descriptor is free, or `close` refuses it and the read does not move it. -/
def SlotHarmless (img : FsImage) (res : Residue) (k : Kernel) (i : Fin 8) : Prop :=
  let b := k.fdTable i
  match b.fileOperationsPointer with
  | none => True
  | some .file => b.Free ∨ i < 2 ∧ (fileRead img b executeLength).block = b
  | some .dir => b.Free ∨ i < 2 ∧ (directoryRead img res b executeLength).block = b
  | some .rtc => b.Free ∨ i < 2 ∨ b.flags = 0
  | some .stdin => i < 2 ∨ (k.fdTableOf k.consolePid 0).Free
  | some .stdout => i < 2 ∨ (k.fdTable 1).Free

/-- `rtc_open`, `rtc_read` and `rtc_close` leave nothing behind. -/
def RtcHarmless (res : Residue) (k : Kernel) : Prop :=
  HasRtc k.fdTable ∨
    (k.rtc.register &&& 0xF0) ||| 15 = k.rtc.register ∧
      (Room k.fdTable ∨ k.fdTable 0 = ⟨some .rtc, 0, res.filePosition, 1⟩)

/-- `file_open`, `file_read` and `file_close` leave nothing behind. -/
def FileHarmless (img : FsImage) (k : Kernel) (dentry : DirEntry) : Prop :=
  Room k.fdTable ∨
    k.fdTable 0 = (fileRead img ⟨some .file, dentry.inodeNum, 0, 1⟩ executeLength).block

/-- A command that is refused leaves nothing behind. -/
def LeavesNoTrace (img : FsImage) (res : Residue) (k : Kernel) : Option CString → Prop
  | none => True
  | some command =>
      k.procs.numActiveProcesses < maxProcesses → command.strlen < execBufferSize →
        ∀ dentry, readDentryByName img (commandWord command) = some dentry →
          if dentry.fileType = typeRtc then RtcHarmless res k
          else if dentry.fileType = typeDir then True
          else if dentry.fileType = typeFile then FileHarmless img k dentry
          else ∀ i : Fin 8, res.ret.toInt = i.val → SlotHarmless img res k i

/-! ## One descriptor -/

/-- Slot `i` of process `p` is the only descriptor that may differ. -/
structure OnlySlot (p : Pid) (i : Fin 8) (k k' : Kernel) : Prop where
  currentPid_eq : k'.procs.currentPid = k.procs.currentPid
  others : ∀ q j, q ≠ p ∨ j ≠ i → k'.fdTableOf q j = k.fdTableOf q j

section OneDescriptor

variable {img : FsImage} {res : Residue} {k k' k₁ k₂ : Kernel} {p : Pid} {i : Fin 8}

theorem FdBlock.same_refl (b : FdBlock) : b.Same b := Or.inr rfl

theorem FdBlock.same_iff_of_in_use {b b' : FdBlock} (h : ¬ b.Free ∨ ¬ b'.Free) :
    b.Same b' ↔ b' = b := by
  constructor
  · rintro (⟨hfree, hfree'⟩ | heq)
    · exact absurd (And.intro hfree hfree') (not_and_or.mpr h)
    · exact heq
  · intro heq
    exact Or.inr heq

theorem FdBlock.same_iff_of_free {b b' : FdBlock} (h : b'.Free) : b.Same b' ↔ b.Free := by
  constructor
  · rintro (⟨hfree, _⟩ | heq)
    · exact hfree
    · exact heq ▸ h
  · intro hfree
    exact Or.inl ⟨hfree, h⟩

namespace OnlySlot

theorem refl (p : Pid) (i : Fin 8) (k : Kernel) : OnlySlot p i k k := ⟨rfl, fun _ _ _ => rfl⟩

theorem trans (h₁ : OnlySlot p i k k₁) (h₂ : OnlySlot p i k₁ k₂) : OnlySlot p i k k₂ where
  currentPid_eq := h₂.currentPid_eq.trans h₁.currentPid_eq
  others := fun q j hq => (h₂.others q j hq).trans (h₁.others q j hq)

/-- Only the control blocks matter. -/
theorem of_procs (h : OnlySlot p i k k₁) (hprocs : k₂.procs = k₁.procs) : OnlySlot p i k k₂ where
  currentPid_eq := (congrArg Processes.currentPid hprocs).trans h.currentPid_eq
  others := by
    intro q j hq
    rw [← h.others q j hq, Kernel.fdTableOf, Kernel.fdTableOf, hprocs]

theorem of_cli (h : OnlySlot p i k.cli k') : OnlySlot p i k k' :=
  ⟨h.currentPid_eq, h.others⟩

/-- When that slot is the same as well, any other may take its place. -/
theorem of_same (h : OnlySlot p i k k') (hsame : k'.fdTableOf p i = k.fdTableOf p i) (q : Pid)
    (j : Fin 8) : OnlySlot q j k k' where
  currentPid_eq := h.currentPid_eq
  others := by
    intro r l _
    by_cases hr : r ≠ p ∨ l ≠ i
    · exact h.others r l hr
    · obtain ⟨rfl, rfl⟩ : r = p ∧ l = i := by
        constructor
        · exact not_not.mp fun hne => hr (Or.inl hne)
        · exact not_not.mp fun hne => hr (Or.inr hne)
      exact hsame

theorem setPcb (p : Pid) (i : Fin 8) (b : FdBlock) (k : Kernel) :
    OnlySlot p i k (k.setPcb p { k.procs.controlBlocks p with
      fdTable := Function.update (k.fdTableOf p) i b }) where
  currentPid_eq := rfl
  others := by
    intro q j hq
    rw [setPcb_fdTableOf]
    split
    next hqp =>
      have hj : j ≠ i := hq.resolve_left (not_not_intro hqp)
      rw [hqp]
      exact Function.update_of_ne hj _ _
    · rfl

theorem setFd (i : Fin 8) (b : FdBlock) (k : Kernel) :
    OnlySlot k.procs.currentPid i k (k.setFd i b) :=
  setPcb k.procs.currentPid i b k

/-- All descriptors are the same when the one that may differ is. -/
theorem descriptors_iff (h : OnlySlot p i k k') :
    (∀ q j, (k.fdTableOf q j).Same (k'.fdTableOf q j)) ↔
      (k.fdTableOf p i).Same (k'.fdTableOf p i) := by
  constructor
  · intro hall
    exact hall p i
  · intro hsame q j
    by_cases hq : q ≠ p ∨ j ≠ i
    · rw [h.others q j hq]
      exact FdBlock.same_refl _
    · obtain ⟨rfl, rfl⟩ : q = p ∧ j = i := by
        constructor
        · exact not_not.mp fun hne => hq (Or.inl hne)
        · exact not_not.mp fun hne => hq (Or.inr hne)
      exact hsame

end OnlySlot

/-! ## Read on a descriptor -/

/-- The loop of `read_data` moves the position of the descriptor and nothing else. -/
theorem readLoop_block (node : NodeBlock) (b : FdBlock) (rem n j loop : Nat) (curr : Word) :
    ∃ pos, (readLoop img node b rem n j loop curr).block = { b with filePosition := pos } := by
  induction rem generalizing n j loop curr with
  | zero => exact ⟨_, rfl⟩
  | succ rem ih =>
      simp only [readLoop]
      split
      · split
        · exact ⟨_, rfl⟩
        · exact ⟨_, rfl⟩
      · split
        · exact ⟨_, rfl⟩
        · split
          · exact ⟨_, rfl⟩
          · split
            · exact ih _ _ _ _
            · exact ih _ _ _ _

theorem fileRead_block (b : FdBlock) (nbytes : Int) :
    ∃ pos, (fileRead img b nbytes).block = { b with filePosition := pos } := by
  simp only [fileRead, readData]
  split
  · exact ⟨_, rfl⟩
  · split
    · exact ⟨_, rfl⟩
    · split
      · exact ⟨_, rfl⟩
      · exact readLoop_block _ _ _ _ _ _ _

/-- A file stays open under a read. -/
theorem fileRead_flags (b : FdBlock) (nbytes : Int) :
    (fileRead img b nbytes).block.fileOperationsPointer = b.fileOperationsPointer ∧
      (fileRead img b nbytes).block.flags = b.flags := by
  obtain ⟨pos, hblock⟩ := @fileRead_block img b nbytes
  rw [hblock]
  exact ⟨rfl, rfl⟩

/-- The loop of `directory_read` moves the position and counts the flags down, never below `0`. -/
theorem directoryLoop_block (behind : Nat → UInt8) (nbytes : Int) (fuel : Nat) (d : DirEntry)
    (b : FdBlock) :
    ∃ pos flags, flags.toNat ≤ b.flags.toNat ∧
      (directoryLoop img behind nbytes fuel d b).block =
        { b with filePosition := pos, flags := flags } := by
  induction fuel generalizing d b with
  | zero => exact ⟨_, _, le_refl _, rfl⟩
  | succ fuel ih =>
      simp only [directoryLoop]
      split
      · exact ⟨_, _, le_refl _, rfl⟩
      next hmore =>
        -- the count is decremented only behind the test against `0`
        have hpos : b.flags ≠ 0 := fun hzero => hmore (Or.inl hzero)
        have hdown : (b.flags - 1).toNat ≤ b.flags.toNat := by
          have : b.flags.toNat ≠ 0 := fun h => hpos (BitVec.eq_of_toNat_eq h)
          bv_omega
        split
        · exact ih _ { b with filePosition := b.filePosition + 1 }
        · split
          · exact ⟨_, _, hdown, rfl⟩
          · split
            · exact ⟨_, _, hdown, rfl⟩
            · exact ih _ b

theorem directoryLoop_pointer (behind : Nat → UInt8) (nbytes : Int) (fuel : Nat) (d : DirEntry)
    (b : FdBlock) :
    (directoryLoop img behind nbytes fuel d b).block.fileOperationsPointer =
      b.fileOperationsPointer := by
  obtain ⟨pos, flags, -, hblock⟩ := @directoryLoop_block img behind nbytes fuel d b
  rw [hblock]

/-- The block that `read` leaves on a descriptor. -/
def readBlock (img : FsImage) (res : Residue) (b : FdBlock) : FdBlock :=
  if b.flags = freeFlags then b
  else
    match b.fileOperationsPointer with
    | some .file => (fileRead img b executeLength).block
    | some .dir => (directoryRead img res b executeLength).block
    | _ => b

theorem readBlock_pointer (b : FdBlock) :
    (readBlock img res b).fileOperationsPointer = b.fileOperationsPointer := by
  rw [readBlock]
  split
  · rfl
  · split
    · exact (fileRead_flags b _).1
    · exact directoryLoop_pointer _ _ _ _ _
    · rfl

/-- `read` writes to its own descriptor and keeps the rate of the clock. -/
theorem sysRead_slot (k : Kernel) (i : Fin 8) (buf : Word) :
    let k' := (sysRead img res k i.val (some buf) executeLength).kernel
    OnlySlot k.procs.currentPid i k k' ∧ k'.fdTable i = readBlock img res (k.fdTable i) ∧
      k'.rtc.register = k.rtc.register ∧ k'.terms.currentTerminal = k.terms.currentTerminal := by
  have hsame : OnlySlot k.procs.currentPid i k k.cli := (OnlySlot.refl _ _ k).of_procs rfl
  rw [sysRead_driver, readBlock]
  by_cases hfree : (k.fdTable i).flags = freeFlags
  · have hdriver : k.driver i = none := if_pos hfree
    rw [hdriver, if_pos hfree]
    exact ⟨hsame, rfl, rfl, rfl⟩
  · rw [driver_of_in_use hfree, if_neg hfree]
    rcases hops : (k.fdTable i).fileOperationsPointer with _ | _ | _ | _ | _ | _
    · exact ⟨hsame, rfl, rfl, rfl⟩
    · simp only [Option.elim_some, OpTable.read, terminalRead]
      split
      · exact ⟨hsame, rfl, rfl, rfl⟩
      · exact ⟨(OnlySlot.refl _ _ k).of_procs rfl, rfl, rfl, rfl⟩
    · exact ⟨hsame, rfl, rfl, rfl⟩
    · refine ⟨OnlySlot.of_cli (OnlySlot.setFd i _ k.cli), ?_, rfl, rfl⟩
      exact (congrFun (Kernel.setFd_fdTable k.cli i _) i)
        |>.trans (Function.update_self _ _ _)
    · refine ⟨OnlySlot.of_cli (OnlySlot.setFd i _ k.cli), ?_, rfl, rfl⟩
      exact (congrFun (Kernel.setFd_fdTable k.cli i _) i)
        |>.trans (Function.update_self _ _ _)
    · exact ⟨(OnlySlot.refl _ _ k).of_procs rfl, rfl, rfl, rfl⟩

theorem readBlock_of_other {b : FdBlock} (hfile : b.fileOperationsPointer ≠ some .file)
    (hdir : b.fileOperationsPointer ≠ some .dir) : readBlock img res b = b := by
  rw [readBlock]
  split
  · rfl
  · split
    next hops => exact absurd hops hfile
    next hops => exact absurd hops hdir
    · rfl

/-- A read on another descriptor than that of a file or a directory changes no table. -/
theorem sysRead_still {buf : Word} (hfile : (k.fdTable i).fileOperationsPointer ≠ some .file)
    (hdir : (k.fdTable i).fileOperationsPointer ≠ some .dir) :
    let k' := (sysRead img res k i.val (some buf) executeLength).kernel
    (∀ p j, OnlySlot p j k k') ∧ k'.fdTable i = k.fdTable i ∧
      k'.terms.currentTerminal = k.terms.currentTerminal := by
  obtain ⟨honly, hblock, _, hterm⟩ := sysRead_slot k i buf
  rw [readBlock_of_other hfile hdir] at hblock
  intro k'
  have hsame : k'.fdTableOf k.procs.currentPid i = k.fdTableOf k.procs.currentPid i := by
    have hown : k'.fdTable = k'.fdTableOf k.procs.currentPid := by
      rw [Kernel.fdTable, honly.currentPid_eq]
    rw [← hown]
    exact hblock
  exact ⟨honly.of_same hsame, hblock, hterm⟩

/-! ## Close on a descriptor -/

/-- `file_close` and `directory_close` leave the descriptor free, whatever it was. -/
theorem fileClose_slot (k : Kernel) (hi : 2 ≤ i) :
    OnlySlot k.procs.currentPid i k (fileClose k i.val).2 ∧
      ((fileClose k i.val).2.fdTable i).Free := by
  by_cases hfree : (k.fdTable i).Free
  · have hval : 2 ≤ (i.val : Int) ∧ (i.val : Int) < 8 := by
      have := Fin.le_def.mp hi
      simp only [Fin.val_two] at this
      omega
    have hflags : (k.fdTable i).flags = freeFlags := hfree
    have hclose : fileClose k i.val = (-1, k) := by
      simp only [fileClose, dif_pos hval, Int.toNat_natCast, if_pos hflags]
    rw [hclose]
    exact ⟨OnlySlot.refl _ _ k, hfree⟩
  · rw [fileClose_of_in_use hi hfree]
    refine ⟨OnlySlot.setFd i _ k, ?_⟩
    rw [Kernel.setFd_fdTable, Function.update_self]
    exact cleared_free _

/-- `rtc_close` on a descriptor whose flags are not `0`. -/
theorem rtcClose_slot (k : Kernel) (hi : 2 ≤ i) (hflags : (k.fdTable i).flags ≠ 0) :
    OnlySlot k.procs.currentPid i k (rtcClose k i.val).2 ∧
      ((rtcClose k i.val).2.fdTable i).Free := by
  rw [rtcClose_of_in_use hi hflags]
  refine ⟨(OnlySlot.setFd i (k.fdTable i).cleared k).of_procs rfl, ?_⟩
  have hslot : (k.cli.setFd i (k.fdTable i).cleared).sti.fdTable i = (k.fdTable i).cleared :=
    (congrFun (Kernel.setFd_fdTable k.cli i _) i)
        |>.trans (Function.update_self _ _ _)
  rw [hslot]
  exact cleared_free _

theorem rtcClose_of_zero (k : Kernel) (hi : 2 ≤ i) (hflags : (k.fdTable i).flags = 0) :
    rtcClose k i.val = (-1, k.cli) := by
  have hval : 2 ≤ (i.val : Int) ∧ (i.val : Int) < 8 := by
    have := Fin.le_def.mp hi
    simp only [Fin.val_two] at this
    omega
  have hcli : k.cli.fdTable i = k.fdTable i := rfl
  simp only [rtcClose, dif_pos hval, Int.toNat_natCast, hcli, if_pos hflags]

/-! ## Read and close -/

/-- The kernel after `execute` has read and closed descriptor `i`. -/
def readClose (img : FsImage) (res : Residue) (buf : Word) (k : Kernel) (i : Fin 8) : Kernel :=
  (sysClose (sysRead img res k i.val (some buf) executeLength).kernel i.val).2

variable {buf : Word}

theorem fileClose_register (k : Kernel) (fd : Int) :
    (fileClose k fd).2.rtc.register = k.rtc.register := by
  simp only [fileClose]
  split
  · split <;> rfl
  · rfl

theorem rtcClose_register (k : Kernel) (fd : Int) :
    (rtcClose k fd).2.rtc.register = k.rtc.register := by
  simp only [rtcClose]
  split
  · split <;> rfl
  · rfl

/-- `close` does not program the clock. -/
theorem sysClose_register (k : Kernel) (fd : Int) :
    (sysClose k fd).2.rtc.register = k.rtc.register := by
  rcases sysClose_dispatch k fd with hclose | ⟨i, op, -, hclose⟩
  · rw [hclose]
    rfl
  · rw [hclose]
    cases op with
    | stdin => rfl
    | stdout => rfl
    | file => exact fileClose_register k.cli i.val
    | dir => exact fileClose_register k.cli i.val
    | rtc => exact rtcClose_register k.cli i.val

theorem readClose_register : (readClose img res buf k i).rtc.register = k.rtc.register :=
  (sysClose_register _ _).trans (sysRead_slot k i buf).2.2.1

/-- A console descriptor stays open, with what the read makes of it. -/
theorem readClose_of_lt (hi : i < 2) :
    OnlySlot k.procs.currentPid i k (readClose img res buf k i) ∧
      (readClose img res buf k i).fdTable i = readBlock img res (k.fdTable i) := by
  obtain ⟨honly, hblock, _, _⟩ := sysRead_slot k i buf
  rw [readClose, sysClose_of_lt _ hi]
  exact ⟨honly.of_procs rfl, hblock⟩

/-- A descriptor of a file, a directory or the clock is free afterwards. -/
theorem readClose_of_driver (hi : 2 ≤ i)
    (hops : (k.fdTable i).fileOperationsPointer = some .file ∨
      (k.fdTable i).fileOperationsPointer = some .dir ∨
        (k.fdTable i).fileOperationsPointer = some .rtc ∧ (k.fdTable i).flags ≠ 0) :
    OnlySlot k.procs.currentPid i k (readClose img res buf k i) ∧
      ((readClose img res buf k i).fdTable i).Free := by
  obtain ⟨honly, hblock, _, _⟩ := sysRead_slot k i buf
  rw [readClose, sysClose_of_le _ hi, hblock, readBlock_pointer]
  have hcurrent := honly.currentPid_eq
  set k₁ := (sysRead img res k i.val (some buf) executeLength).kernel with hk₁
  rcases hops with hops | hops | ⟨hops, hflags⟩
  · rw [hops]
    obtain ⟨hslot, hfree⟩ := fileClose_slot k₁.cli hi
    exact ⟨honly.trans (hcurrent ▸ OnlySlot.of_cli hslot), hfree⟩
  · rw [hops]
    obtain ⟨hslot, hfree⟩ := fileClose_slot k₁.cli hi
    exact ⟨honly.trans (hcurrent ▸ OnlySlot.of_cli hslot), hfree⟩
  · have hread : readBlock img res (k.fdTable i) = k.fdTable i :=
      readBlock_of_other (by rw [hops]; decide) (by rw [hops]; decide)
    have hflags₁ : (k₁.cli.fdTable i).flags ≠ 0 := by
      have hsame : k₁.cli.fdTable i = k.fdTable i := hblock.trans hread
      rwa [hsame]
    rw [hops]
    obtain ⟨hslot, hfree⟩ := rtcClose_slot k₁.cli hi hflags₁
    exact ⟨honly.trans (hcurrent ▸ OnlySlot.of_cli hslot), hfree⟩

/-- A descriptor without driver, or of the clock with flags `0`, is neither read nor closed. -/
theorem readClose_of_idle (hi : 2 ≤ i)
    (hops : (k.fdTable i).fileOperationsPointer = none ∨
      (k.fdTable i).fileOperationsPointer = some .rtc ∧ (k.fdTable i).flags = 0) :
    OnlySlot k.procs.currentPid i k (readClose img res buf k i) ∧
      (readClose img res buf k i).fdTable i = k.fdTable i := by
  rcases hops with hops | ⟨hops, hflags⟩
  · obtain ⟨honly, hblock, _⟩ := sysRead_still
      (by rw [hops]; decide) (by rw [hops]; decide)
    rw [readClose, sysClose_of_le _ hi, hblock, hops]
    exact ⟨(honly _ _).of_procs rfl, hblock⟩
  · obtain ⟨honly, hblock, _⟩ := sysRead_still
      (by rw [hops]; decide) (by rw [hops]; decide)
    have hzero : ((sysRead img res k i.val (some buf) executeLength).kernel.cli.fdTable i).flags =
        0 := by
      rw [Kernel.cli_fdTable, hblock, hflags]
    rw [readClose, sysClose_of_le _ hi, hblock, hops]
    simp only [Option.elim_some, OpTable.close, rtcClose_of_zero _ hi hzero]
    exact ⟨(honly _ _).of_procs rfl, hblock⟩

/-- A descriptor from `2` on that refers to the console: the close clears descriptor `0` of the
console's control block, or descriptor `1` of the caller. -/
theorem readClose_of_stdin (hi : 2 ≤ i)
    (hops : (k.fdTable i).fileOperationsPointer = some .stdin) :
    OnlySlot k.consolePid 0 k (readClose img res buf k i) ∧
      ((readClose img res buf k i).fdTableOf k.consolePid 0).Free := by
  obtain ⟨honly, hblock, hterm⟩ := sysRead_still
    (by rw [hops]; decide) (by rw [hops]; decide)
  rw [readClose, sysClose_of_le _ hi, hblock, hops]
  set k₁ := (sysRead img res k i.val (some buf) executeLength).kernel with hk₁
  have hconsole : k₁.cli.consolePid = k.consolePid := by
    simp only [Kernel.consolePid, Kernel.cli_terms, hterm]
  have hslot := OnlySlot.setPcb k.consolePid 0 (k₁.cli.fdTableOf k.consolePid 0).cleared k₁.cli
  have hclose : (keyboardClose k₁.cli).2 = k₁.cli.setPcb k.consolePid
      { k₁.cli.procs.controlBlocks k.consolePid with
        fdTable := Function.update (k₁.cli.fdTableOf k.consolePid) 0
          (k₁.cli.fdTableOf k.consolePid 0).cleared } := by
    rw [← hconsole]
    rfl
  simp only [Option.elim_some, OpTable.close, hclose]
  refine ⟨(honly _ _).trans (OnlySlot.of_cli hslot), ?_⟩
  rw [setPcb_fdTableOf, if_pos rfl]
  simp only [Function.update_self]
  exact cleared_free _

theorem readClose_of_stdout (hi : 2 ≤ i)
    (hops : (k.fdTable i).fileOperationsPointer = some .stdout) :
    OnlySlot k.procs.currentPid 1 k (readClose img res buf k i) ∧
      ((readClose img res buf k i).fdTable 1).Free := by
  obtain ⟨honly, hblock, _⟩ := sysRead_still
    (by rw [hops]; decide) (by rw [hops]; decide)
  rw [readClose, sysClose_of_le _ hi, hblock, hops]
  set k₁ := (sysRead img res k i.val (some buf) executeLength).kernel with hk₁
  have hslot : OnlySlot k.procs.currentPid 1 k₁ (terminalClose k₁.cli).2 := by
    rw [← (honly k.procs.currentPid 1).currentPid_eq]
    exact OnlySlot.of_cli (OnlySlot.setFd 1 _ k₁.cli)
  refine ⟨(honly _ _).trans hslot, ?_⟩
  have hcleared : (terminalClose k₁.cli).2.fdTable 1 = (k₁.cli.fdTable 1).cleared :=
    (congrFun (Kernel.setFd_fdTable k₁.cli 1 _) 1).trans (Function.update_self _ _ _)
  simp only [Option.elim_some, OpTable.close, hcleared]
  exact cleared_free _

/-- Reading and closing a console descriptor. -/
theorem same_readBlock_iff (hi : i < 2) :
    (k.fdTable i).Same (readBlock img res (k.fdTable i)) ↔ SlotHarmless img res k i := by
  have hstill : ∀ {P : Prop}, (k.fdTable i).fileOperationsPointer ≠ some .file →
      (k.fdTable i).fileOperationsPointer ≠ some .dir → P →
        ((k.fdTable i).Same (readBlock img res (k.fdTable i)) ↔ P) := by
    intro P hfile hdir hP
    rw [readBlock_of_other hfile hdir]
    exact iff_of_true (FdBlock.same_refl _) hP
  -- a read moves a descriptor only if that is in use and belongs to a file or a directory
  have hmoved : ∀ {moved : FdBlock},
      (¬ (k.fdTable i).Free → readBlock img res (k.fdTable i) = moved) →
        ((k.fdTable i).Same (readBlock img res (k.fdTable i)) ↔
          (k.fdTable i).Free ∨ i < 2 ∧ moved = k.fdTable i) := by
    intro moved hread
    by_cases hfree : (k.fdTable i).Free
    · have hsame : readBlock img res (k.fdTable i) = k.fdTable i := if_pos hfree
      rw [hsame]
      exact iff_of_true (FdBlock.same_refl _) (Or.inl hfree)
    · rw [FdBlock.same_iff_of_in_use (Or.inl hfree), hread hfree]
      constructor
      · intro heq
        exact Or.inr ⟨hi, heq⟩
      · intro hor
        exact (hor.resolve_left hfree).2
  rcases hops : (k.fdTable i).fileOperationsPointer with _ | _ | _ | _ | _ | _
  · simp only [SlotHarmless, hops]
    exact hstill (by rw [hops]; decide) (by rw [hops]; decide) trivial
  · simp only [SlotHarmless, hops]
    exact hstill (by rw [hops]; decide) (by rw [hops]; decide) (Or.inl hi)
  · simp only [SlotHarmless, hops]
    exact hstill (by rw [hops]; decide) (by rw [hops]; decide) (Or.inl hi)
  · simp only [SlotHarmless, hops]
    refine hmoved fun hfree => ?_
    have hflags : (k.fdTable i).flags ≠ freeFlags := hfree
    rw [readBlock, if_neg hflags, hops]
  · simp only [SlotHarmless, hops]
    refine hmoved fun hfree => ?_
    have hflags : (k.fdTable i).flags ≠ freeFlags := hfree
    rw [readBlock, if_neg hflags, hops]
  · simp only [SlotHarmless, hops]
    exact hstill (by rw [hops]; decide) (by rw [hops]; decide) (Or.inr (Or.inl hi))

/-- What reading and closing a descriptor that `execute` has not opened leaves. -/
theorem readClose_same_iff :
    (∀ p j, (k.fdTableOf p j).Same ((readClose img res buf k i).fdTableOf p j)) ↔
      SlotHarmless img res k i := by
  have hcurrent : ∀ {p j}, OnlySlot p j k (readClose img res buf k i) →
      (readClose img res buf k i).fdTableOf k.procs.currentPid =
        (readClose img res buf k i).fdTable := by
    intro p j honly
    rw [Kernel.fdTable, honly.currentPid_eq]
  rcases lt_or_ge i 2 with hi | hi
  · -- a console descriptor of the process itself is read but not closed
    obtain ⟨honly, hblock⟩ := readClose_of_lt (k := k) hi
    rw [honly.descriptors_iff, hcurrent honly, hblock]
    exact same_readBlock_iff hi
  · have hlow : ¬ i < 2 := not_lt.mpr hi
    -- from `2` on the driver decides which descriptor the close clears
    rcases hops : (k.fdTable i).fileOperationsPointer with _ | _ | _ | _ | _ | _
    · obtain ⟨honly, hblock⟩ :=
        readClose_of_idle hi (Or.inl hops)
      rw [honly.descriptors_iff, hcurrent honly, hblock]
      simp only [SlotHarmless, hops]
      exact iff_of_true (FdBlock.same_refl _) trivial
    · obtain ⟨honly, hfree⟩ := readClose_of_stdin hi hops
      rw [honly.descriptors_iff, FdBlock.same_iff_of_free hfree]
      simp only [SlotHarmless, hops, hlow, false_or]
    · obtain ⟨honly, hfree⟩ := readClose_of_stdout hi hops
      rw [honly.descriptors_iff, hcurrent honly, FdBlock.same_iff_of_free hfree]
      simp only [SlotHarmless, hops, hlow, false_or]
      rfl
    · obtain ⟨honly, hfree⟩ :=
        readClose_of_driver hi (Or.inl hops)
      rw [honly.descriptors_iff, hcurrent honly, FdBlock.same_iff_of_free hfree]
      simp only [SlotHarmless, hops, hlow, false_and, or_false]
      rfl
    · obtain ⟨honly, hfree⟩ :=
        readClose_of_driver hi (Or.inr (Or.inl hops))
      rw [honly.descriptors_iff, hcurrent honly, FdBlock.same_iff_of_free hfree]
      simp only [SlotHarmless, hops, hlow, false_and, or_false]
      rfl
    · -- `rtc_close` refuses a descriptor with flags `0`
      by_cases hflags : (k.fdTable i).flags = 0
      · obtain ⟨honly, hblock⟩ :=
          readClose_of_idle hi (Or.inr ⟨hops, hflags⟩)
        rw [honly.descriptors_iff, hcurrent honly, hblock]
        simp only [SlotHarmless, hops]
        exact iff_of_true (FdBlock.same_refl _) (Or.inr (Or.inr hflags))
      · obtain ⟨honly, hfree⟩ := readClose_of_driver hi
          (Or.inr (Or.inr ⟨hops, hflags⟩))
        rw [honly.descriptors_iff, hcurrent honly, FdBlock.same_iff_of_free hfree]
        simp only [SlotHarmless, hops, hlow, hflags, or_false]
        rfl

end OneDescriptor

/-! ## Open, read and close -/

section OpenReadClose

variable {img : FsImage} {res : Residue} {k k₁ : Kernel} {fd : Fin 8} {buf : Word}

/-- The slot that `file_open` and `rtc_open` take: a free one, or descriptor `0`. -/
theorem slotSearch_fdtSize_cases (fds : FdTable) :
    ∃ fd, slotSearch fdtSize fds openSlots = some fd ∧
      (2 ≤ fd ∧ (fds fd).Free ∨ fd = 0 ∧ ¬ Room fds) := by
  by_cases hroom : Room fds
  · obtain ⟨fd, hsearch, hlowest⟩ := slotSearch_of_room (by decide : 7 ≤ fdtSize) hroom
    exact ⟨fd, hsearch, Or.inl ⟨hlowest.two_le, hlowest.free⟩⟩
  · have hfull : ∀ i : Fin 8, 2 ≤ i → ¬ (fds i).Free := fun i hi hfree => hroom ⟨i, hi, hfree⟩
    exact ⟨0, slotSearch_fdtSize_of_full hfull, Or.inr ⟨rfl, hroom⟩⟩

/-- A descriptor of a file or of the clock that has been opened, read and closed. -/
theorem openReadClose_same_iff (honly : OnlySlot k.procs.currentPid fd k k₁)
    (hops : (k₁.fdTable fd).fileOperationsPointer = some .file ∨
      (k₁.fdTable fd).fileOperationsPointer = some .rtc)
    (hflags : (k₁.fdTable fd).flags = 1)
    (hfd : 2 ≤ fd ∧ (k.fdTable fd).Free ∨ fd = 0 ∧ ¬ Room k.fdTable) :
    (∀ p j, (k.fdTableOf p j).Same ((readClose img res buf k₁ fd).fdTableOf p j)) ↔
      Room k.fdTable ∨ k.fdTable 0 = readBlock img res (k₁.fdTable fd) := by
  have hcurrent : (readClose img res buf k₁ fd).procs.currentPid = k₁.procs.currentPid →
      (readClose img res buf k₁ fd).fdTableOf k.procs.currentPid =
        (readClose img res buf k₁ fd).fdTable := by
    intro heq
    rw [Kernel.fdTable, heq, honly.currentPid_eq]
  rcases hfd with ⟨hfd, hfree⟩ | ⟨rfl, hroom⟩
  · -- a slot that was free is free again
    have hdriver : (k₁.fdTable fd).fileOperationsPointer = some .file ∨
        (k₁.fdTable fd).fileOperationsPointer = some .dir ∨
          (k₁.fdTable fd).fileOperationsPointer = some .rtc ∧ (k₁.fdTable fd).flags ≠ 0 := by
      refine hops.imp_right fun hrtc => Or.inr ⟨hrtc, ?_⟩
      rw [hflags]
      decide
    obtain ⟨hclosed, hfree'⟩ :=
      readClose_of_driver hfd hdriver
    have htotal := honly.trans (honly.currentPid_eq ▸ hclosed)
    rw [htotal.descriptors_iff, hcurrent hclosed.currentPid_eq, FdBlock.same_iff_of_free hfree']
    exact iff_of_true hfree (Or.inl ⟨fd, hfd, hfree⟩)
  · obtain ⟨hread, hblock⟩ := readClose_of_lt (k := k₁)
      (by decide : (0 : Fin 8) < 2)
    have htotal := honly.trans (honly.currentPid_eq ▸ hread)
    -- descriptor `0` has been overwritten, and `close` refuses it
    have hinuse : ¬ (readBlock img res (k₁.fdTable 0)).Free := by
      have hkept : (readBlock img res (k₁.fdTable 0)).flags = 1 := by
        rcases hops with hfile | hrtc
        · rw [readBlock, hfile]
          split
          · exact hflags
          · exact (fileRead_flags _ _).2.trans hflags
        · rw [readBlock_of_other (by rw [hrtc]; decide) (by rw [hrtc]; decide), hflags]
      intro hfree
      exact absurd (hkept.symm.trans hfree) (by decide)
    rw [htotal.descriptors_iff, hcurrent hread.currentPid_eq, hblock,
      FdBlock.same_iff_of_in_use (Or.inr hinuse), or_iff_right hroom]
    exact eq_comm

/-- The kernel after `execute` has opened, read and closed the named entry. -/
def openReadClose (img : FsImage) (res : Residue) (buf : Word) (k : Kernel) (word : CString) :
    Kernel :=
  let opened := sysOpen img res k (some word)
  if opened.1 = -1 then opened.2
  else (sysClose (sysRead img res opened.2 opened.1 (some buf) executeLength).kernel opened.1).2

/-- The descriptors and the rate of the clock are the same. -/
def Traceless (k k' : Kernel) : Prop :=
  (∀ p j, (k.fdTableOf p j).Same (k'.fdTableOf p j)) ∧ k'.rtc.register = k.rtc.register

theorem Traceless.of_cli (k : Kernel) : Traceless k k.cli :=
  ⟨fun _ _ => FdBlock.same_refl _, rfl⟩

variable {word : CString} {dentry : DirEntry}

/-- A descriptor that `open` has returned is read and closed. -/
theorem openReadClose_of_opened (hopen : sysOpen img res k (some word) = ((fd.val : Int), k₁)) :
    openReadClose img res buf k word = readClose img res buf k₁ fd := by
  have hne : (fd.val : Int) ≠ -1 := by omega
  simp only [openReadClose, hopen, if_neg hne]
  rfl

theorem openReadClose_of_refused (hopen : sysOpen img res k (some word) = (-1, k₁)) :
    openReadClose img res buf k word = k₁ := by
  simp only [openReadClose, hopen, if_true]

/-- `open` has returned descriptor `fd` with the contents `b`: a free one, or descriptor `0` of a
full table. -/
structure Opened (img : FsImage) (res : Residue) (k : Kernel) (word : CString) (fd : Fin 8)
    (b : FdBlock) (k₁ : Kernel) : Prop where
  ret : sysOpen img res k (some word) = ((fd.val : Int), k₁)
  only : OnlySlot k.procs.currentPid fd k k₁
  block : k₁.fdTable fd = b
  slot : 2 ≤ fd ∧ (k.fdTable fd).Free ∨ fd = 0 ∧ ¬ Room k.fdTable

/-- The clock, in a process that has opened it. -/
theorem sysOpen_rtc_refused (hfound : readDentryByName img word = some dentry)
    (htype : dentry.fileType = typeRtc) (hrtc : HasRtc k.fdTable) :
    sysOpen img res k (some word) = (-1, k.cli) := by
  have hany : (openSlots.any fun i => (k.fdTable i).isOpenRtc) = true := by
    by_contra hno
    exact not_hasRtc_iff.mp (Bool.eq_false_iff.mpr hno) hrtc
  rw [sysOpen_of_rtc hfound htype]
  exact if_pos hany

/-- The clock, in a process that has not. -/
theorem opened_rtc (img : FsImage) (res : Residue)
    (hfound : readDentryByName img word = some dentry) (htype : dentry.fileType = typeRtc)
    (hrtc : ¬ HasRtc k.fdTable) :
    ∃ fd k₁, Opened img res k word fd ⟨some .rtc, 0, res.filePosition, 1⟩ k₁ ∧
      k₁.rtc.register = (k.rtc.register &&& 0xF0) ||| 15 := by
  obtain ⟨fd, hsearch, hfd⟩ := slotSearch_fdtSize_cases k.fdTable
  refine ⟨fd, ({ k.cli.cli with rtc := { k.rtc with
      register := (k.rtc.register &&& 0xF0) ||| 15 } }.setFd fd
        ⟨some .rtc, 0, res.filePosition, 1⟩).sti, ⟨?_, ?_, ?_, hfd⟩, rfl⟩
  · have hany := not_hasRtc_iff.mpr hrtc
    rw [sysOpen_of_rtc hfound htype]
    simp only [rtcOpen, Kernel.cli_fdTable, hany, hsearch]
    rfl
  · exact ⟨rfl, (OnlySlot.setFd fd ⟨some .rtc, 0, res.filePosition, 1⟩ k).others⟩
  · exact (congrFun (Kernel.setFd_fdTable _ fd _) fd).trans (Function.update_self _ _ _)

/-- A directory, in a process with a full table. -/
theorem sysOpen_directory_refused (hfound : readDentryByName img word = some dentry)
    (htype : dentry.fileType = typeDir) (hroom : ¬ Room k.fdTable) :
    sysOpen img res k (some word) = (-1, k.cli) := by
  have hfull : ∀ i : Fin 8, 2 ≤ i → ¬ (k.fdTable i).Free :=
    fun i hi hfree => hroom ⟨i, hi, hfree⟩
  rw [sysOpen_of_dir hfound htype]
  simp only [directoryOpen, hfound, Kernel.cli_fdTable, slotSearch_directory_of_full hfull]

/-- A directory, in a process with a free descriptor. -/
theorem opened_directory (img : FsImage) (res : Residue)
    (hfound : readDentryByName img word = some dentry) (htype : dentry.fileType = typeDir)
    (hroom : Room k.fdTable) :
    ∃ fd k₁, Opened img res k word fd ⟨some .dir, 0, 0, img.numDirEntries⟩ k₁ ∧
      2 ≤ fd ∧ (k.fdTable fd).Free ∧ k₁.rtc.register = k.rtc.register := by
  obtain ⟨fd, hsearch, hlowest⟩ := slotSearch_of_room (by decide : 7 ≤ fdtSize - 1) hroom
  refine ⟨fd, k.cli.setFd fd ⟨some .dir, 0, 0, img.numDirEntries⟩,
    ⟨?_, ?_, ?_, Or.inl ⟨hlowest.two_le, hlowest.free⟩⟩, hlowest.two_le, hlowest.free, rfl⟩
  · rw [sysOpen_of_dir hfound htype]
    simp only [directoryOpen, hfound, Kernel.cli_fdTable, hsearch]
  · exact OnlySlot.of_cli (OnlySlot.setFd fd _ k.cli)
  · exact (congrFun (Kernel.setFd_fdTable _ fd _) fd).trans (Function.update_self _ _ _)

/-- A regular file. -/
theorem opened_file (img : FsImage) (res : Residue) (k : Kernel)
    (hfound : readDentryByName img word = some dentry) (htype : dentry.fileType = typeFile) :
    ∃ fd k₁, Opened img res k word fd ⟨some .file, dentry.inodeNum, 0, 1⟩ k₁ ∧
      k₁.rtc.register = k.rtc.register := by
  obtain ⟨fd, hsearch, hfd⟩ := slotSearch_fdtSize_cases k.fdTable
  refine ⟨fd, k.cli.setFd fd ⟨some .file, dentry.inodeNum, 0, 1⟩, ⟨?_, ?_, ?_, hfd⟩, rfl⟩
  · rw [sysOpen_of_file hfound htype]
    simp only [fileOpen, hfound, Kernel.cli_fdTable, hsearch]
  · exact OnlySlot.of_cli (OnlySlot.setFd fd ⟨some .file, dentry.inodeNum, 0, 1⟩ k.cli)
  · exact (congrFun (Kernel.setFd_fdTable _ fd _) fd).trans (Function.update_self _ _ _)

/-- The clock. -/
theorem traceless_rtc_iff (hfound : readDentryByName img word = some dentry)
    (htype : dentry.fileType = typeRtc) :
    Traceless k (openReadClose img res buf k word) ↔ RtcHarmless res k := by
  by_cases hrtc : HasRtc k.fdTable
  · rw [openReadClose_of_refused (sysOpen_rtc_refused hfound htype hrtc)]
    exact iff_of_true (Traceless.of_cli k) (Or.inl hrtc)
  · obtain ⟨fd, k₁, hopened, hregister⟩ := opened_rtc img res hfound htype hrtc
    have hread : readBlock img res (k₁.fdTable fd) = ⟨some .rtc, 0, res.filePosition, 1⟩ := by
      rw [hopened.block]
      exact readBlock_of_other (by simp) (by simp)
    rw [openReadClose_of_opened hopened.ret, Traceless, readClose_register, hregister,
      openReadClose_same_iff hopened.only (Or.inr (by rw [hopened.block]))
        (by rw [hopened.block]) hopened.slot, hread, RtcHarmless, or_iff_right hrtc]
    exact and_comm

/-- A regular file. -/
theorem traceless_file_iff (hfound : readDentryByName img word = some dentry)
    (htype : dentry.fileType = typeFile) :
    Traceless k (openReadClose img res buf k word) ↔ FileHarmless img k dentry := by
  obtain ⟨fd, k₁, hopened, hregister⟩ := opened_file img res k hfound htype
  have hread : readBlock img res ⟨some .file, dentry.inodeNum, 0, 1⟩ =
      (fileRead img ⟨some .file, dentry.inodeNum, 0, 1⟩ executeLength).block := rfl
  rw [openReadClose_of_opened hopened.ret, Traceless, readClose_register,
    openReadClose_same_iff hopened.only (Or.inl (by rw [hopened.block])) (by rw [hopened.block])
      hopened.slot, hopened.block, hread, FileHarmless]
  exact and_iff_left hregister

/-- A directory. -/
theorem traceless_directory (hfound : readDentryByName img word = some dentry)
    (htype : dentry.fileType = typeDir) : Traceless k (openReadClose img res buf k word) := by
  by_cases hroom : Room k.fdTable
  · obtain ⟨fd, k₁, hopened, hfd, hfree, hregister⟩ :=
      opened_directory img res hfound htype hroom
    obtain ⟨hclosed, hfree'⟩ : OnlySlot k₁.procs.currentPid fd k₁ (readClose img res buf k₁ fd) ∧
        ((readClose img res buf k₁ fd).fdTable fd).Free :=
      readClose_of_driver hfd (Or.inr (Or.inl (by rw [hopened.block])))
    have htotal := hopened.only.trans (hopened.only.currentPid_eq ▸ hclosed)
    rw [openReadClose_of_opened hopened.ret]
    refine ⟨htotal.descriptors_iff.mpr (Or.inl ⟨hfree, ?_⟩), readClose_register.trans hregister⟩
    have hown : (readClose img res buf k₁ fd).fdTable =
        (readClose img res buf k₁ fd).fdTableOf k.procs.currentPid := by
      rw [Kernel.fdTable, htotal.currentPid_eq]
    rw [← hown]
    exact hfree'
  · rw [openReadClose_of_refused (sysOpen_directory_refused hfound htype hroom)]
    exact Traceless.of_cli k

/-- An opened, read and closed file or clock leaves the descriptors behind the consoles as they
were: in a full table, only descriptor `0` is overwritten. -/
theorem Opened.slots {b : FdBlock} (h : Opened img res k word fd b k₁)
    (hops : b.fileOperationsPointer = some .file ∨ b.fileOperationsPointer = some .rtc)
    (hflags : b.flags = 1) (p : Pid) {i : Fin 8} (hi : 2 ≤ i) :
    (k.fdTableOf p i).Same ((readClose img res buf k₁ fd).fdTableOf p i) := by
  obtain rfl := h.block
  by_cases hroom : Room k.fdTable
  · exact (openReadClose_same_iff h.only hops hflags h.slot).mpr (Or.inl hroom) p i
  · rcases h.slot with ⟨hfd, hfree⟩ | ⟨rfl, _⟩
    · exact absurd ⟨fd, hfd, hfree⟩ hroom
    · have hread : OnlySlot k₁.procs.currentPid 0 k₁ (readClose img res buf k₁ 0) :=
        (readClose_of_lt (by decide)).1
      have htotal := h.only.trans (h.only.currentPid_eq ▸ hread)
      have hne : i ≠ 0 := by
        rintro rfl
        exact absurd hi (by decide)
      exact Or.inr (htotal.others p i (Or.inr hne))

/-- An entry of unknown type: `read` and `close` work on the descriptor that the uninitialised
`ret` names. -/
theorem traceless_stray_iff (hfound : readDentryByName img word = some dentry)
    (hrtc : dentry.fileType ≠ typeRtc) (hdir : dentry.fileType ≠ typeDir)
    (hfile : dentry.fileType ≠ typeFile) :
    Traceless k (openReadClose img res buf k word) ↔
      ∀ i : Fin 8, res.ret.toInt = i.val → SlotHarmless img res k i := by
  have hopen : sysOpen img res k (some word) = (res.ret.toInt, k.cli) :=
    sysOpen_of_unknown hfound hrtc hdir hfile
  by_cases hfd : ∃ i : Fin 8, res.ret.toInt = i.val
  · obtain ⟨i, hi⟩ := hfd
    rw [openReadClose_of_opened (hi ▸ hopen), Traceless, readClose_register]
    have hsame : (∀ p j, (k.cli.fdTableOf p j).Same
        ((readClose img res buf k.cli i).fdTableOf p j)) ↔ SlotHarmless img res k.cli i :=
      readClose_same_iff
    constructor
    · intro htrace j hj
      have hij : j = i := Fin.ext (by exact_mod_cast hj.symm.trans hi)
      exact hij ▸ hsame.mp htrace.1
    · intro hharmless
      exact ⟨hsame.mpr (hharmless i hi), rfl⟩
  · have hout : ¬ (0 ≤ res.ret.toInt ∧ res.ret.toInt < 8) :=
      fun h => hfd ⟨⟨res.ret.toInt.toNat, by omega⟩, by simp only; omega⟩
    have hout' : ¬ (2 ≤ res.ret.toInt ∧ res.ret.toInt < 8) := by omega
    -- a number that names no descriptor is refused by `read` and by `close`
    have hkernel : openReadClose img res buf k word = k.cli.cli.cli ∨
        openReadClose img res buf k word = k.cli := by
      simp only [openReadClose, hopen]
      split
      · exact Or.inr rfl
      · left
        rw [sysRead_of_out hout, sysClose_of_out hout']
    refine iff_of_true ?_ fun i hi => absurd ⟨i, hi⟩ hfd
    rcases hkernel with hkernel | hkernel
    · rw [hkernel]
      exact Traceless.of_cli k
    · rw [hkernel]
      exact Traceless.of_cli k

end OpenReadClose

/-! ## The refused command -/

section Refused

variable {img : FsImage} {res : Residue} {frame : ExecuteFrame} {k k' : Kernel}
  {command : Option CString}

/-- A control block without its descriptors. -/
def Kernel.blockRest (k : Kernel) (p : Pid) : Pcb :=
  { k.procs.controlBlocks p with fdTable := fun _ => ⟨none, 0, 0, 0⟩ }

theorem callFrame_blockRest : CallFrame Kernel.blockRest where
  fds := by
    intro k p fds
    funext q
    by_cases hq : q = p
    · subst hq
      simp [Kernel.blockRest, Kernel.setPcb]
    · simp [Kernel.blockRest, Kernel.setPcb, Function.update_of_ne hq]
  interrupts := fun _ _ => rfl
  rtc := fun _ _ => rfl
  output := fun _ _ _ => rfl
  reader := fun _ _ _ => rfl

theorem callFrame_counts :
    CallFrame fun k : Kernel => (k.procs.numActiveProcesses, k.procs.currentPid) where
  fds := fun _ _ _ => rfl
  interrupts := fun _ _ => rfl
  rtc := fun _ _ => rfl
  output := fun _ _ _ => rfl
  reader := fun _ _ _ => rfl

/-- Everything else than the descriptors and the clock is out of reach of a refused command. -/
theorem unchanged_iff_traceless {v : Int} (h : execute img res frame k command = .returned v k') :
    Unchanged k k' ↔ Traceless k k' := by
  have hload := executeLoad_of_returned h
  have hrest := callFrame_blockRest.executeLoad.1 v hload
  have hcounts := callFrame_counts.executeLoad.1 v hload
  constructor
  · intro hsame
    exact ⟨hsame.descriptors, hsame.register⟩
  · rintro ⟨hfds, hregister⟩
    refine ⟨fun p => ?_, (Prod.mk.inj hcounts).1, (Prod.mk.inj hcounts).2, hfds,
      callFrame_sched.executeLoad.1 v hload, callFrame_kbd.executeLoad.1 v hload, hregister⟩
    have hblock : k'.procs.controlBlocks p =
        { k'.blockRest p with fdTable := k'.fdTableOf p } := rfl
    rw [hblock, hrest]
    rfl

/-- A command that is refused behind the first tests has been opened, read and closed. -/
theorem executeLoad_returned_kernel {command : CString} {v : Int}
    (hnum : k.procs.numActiveProcesses < maxProcesses)
    (hlen : command.strlen < execBufferSize)
    (h : executeLoad img res frame k (some command) = .returned v k') :
    k' = openReadClose img res frame.buf k (commandWord command) := by
  cases effect_of_executeLoad h with
  | full hfull => exact absurd hfull (not_le.mpr hnum)
  | long _ hlong => exact absurd hlong (not_le.mpr hlen)
  | notOpened _ _ hopen => exact (if_pos hopen).symm
  | notExecutable _ _ hopen => exact (if_neg hopen).symm

/-- A refused command leaves everything as it was exactly when `LeavesNoTrace` holds. -/
theorem unchanged_iff_leavesNoTrace
    (h : execute img res frame k command = .returned (-1) k') :
    Unchanged k k' ↔ LeavesNoTrace img res k command := by
  rw [unchanged_iff_traceless h]
  have hload := executeLoad_of_returned h
  cases command with
  | none =>
      rw [← (LoadResult.returned.inj hload).2]
      exact iff_of_true ⟨fun _ _ => FdBlock.same_refl _, rfl⟩ trivial
  | some command =>
      by_cases hnum : k.procs.numActiveProcesses < maxProcesses
      · by_cases hlen : command.strlen < execBufferSize
        · have hkernel := executeLoad_returned_kernel hnum hlen hload
          rw [LeavesNoTrace, hkernel]
          cases hfound : readDentryByName img (commandWord command) with
          | none =>
              rw [openReadClose_of_refused (sysOpen_of_not_found hfound)]
              exact iff_of_true (Traceless.of_cli k) fun _ _ _ hd => nomatch hd
          | some dentry =>
              -- the driver of the entry decides what is left
              have hcases : Traceless k (openReadClose img res frame.buf k (commandWord command)) ↔
                  if dentry.fileType = typeRtc then RtcHarmless res k
                  else if dentry.fileType = typeDir then True
                  else if dentry.fileType = typeFile then FileHarmless img k dentry
                  else ∀ i : Fin 8, res.ret.toInt = i.val → SlotHarmless img res k i := by
                split
                next hrtc => exact traceless_rtc_iff hfound hrtc
                next hrtc =>
                  split
                  next hdir => exact iff_of_true (traceless_directory hfound hdir) trivial
                  next hdir =>
                    split
                    next hfile => exact traceless_file_iff hfound hfile
                    next hfile => exact traceless_stray_iff hfound hrtc hdir hfile
              rw [hcases]
              constructor
              · intro hharmless _ _ d hd
                rw [← Option.some.inj hd]
                exact hharmless
              · intro hall
                exact hall hnum hlen dentry rfl
        · simp only [executeLoad, if_neg (not_le.mpr hnum), if_pos (not_lt.mp hlen)] at hload
          rw [← (LoadResult.returned.inj hload).2]
          exact iff_of_true ⟨fun _ _ => FdBlock.same_refl _, rfl⟩ fun _ hlt => absurd hlt hlen
      · simp only [executeLoad, if_pos (not_lt.mp hnum)] at hload
        rw [← (LoadResult.returned.inj hload).2]
        exact iff_of_true ⟨fun _ _ => FdBlock.same_refl _, rfl⟩ fun hlt => absurd hlt hnum

end Refused

/-! ## The clock after a refused command -/

/-- The bytes of a rate of 1024 Hz. -/
def fastRate : Nat → UInt8 := fun i => [0, 4, 0, 0].getD i 0

/-- A program of the first shell has opened the clock, set it to 1024 Hz and closed it. -/
def fastClock : Kernel :=
  let opened := sysOpen shellImage emptyResidue firstShell (some rtcName)
  (sysClose (sysWrite emptyResidue opened.2 opened.1 (some fastRate) 4).kernel opened.1).2

/-- It then executes `rtc`, which is refused. -/
def refusedRtc : Kernel :=
  openReadClose shellImage emptyResidue 0x7EE300 fastClock rtcName

theorem execute_rtc_refused :
    execute shellImage emptyResidue ⟨0x7F7FB1, 0x7EE300⟩ fastClock (some rtcName) =
      .returned (-1) refusedRtc := by
  have hrefused : (match execute shellImage emptyResidue ⟨0x7F7FB1, 0x7EE300⟩ fastClock
      (some rtcName) with
      | .returned v _ => decide (v = -1)
      | .started _ _ | .stuck => false) = true := by decide
  split at hrefused
  next v k' hexec =>
    have hv : v = -1 := of_decide_eq_true hrefused
    have hnum : fastClock.procs.numActiveProcesses < maxProcesses := by decide
    have hkernel := executeLoad_returned_kernel hnum (by decide) (executeLoad_of_returned hexec)
    rw [hexec, hv, hkernel]
    rfl
  · cases hrefused
  · cases hrefused

/-- The clock then runs at 2 Hz. -/
theorem not_unchanged_rtc : ∃ k',
    execute shellImage emptyResidue ⟨0x7F7FB1, 0x7EE300⟩ fastClock (some rtcName) =
      .returned (-1) k' ∧ ¬ Unchanged fastClock k' := by
  refine ⟨refusedRtc, execute_rtc_refused, fun hsame => ?_⟩
  have hregister : refusedRtc.rtc.register ≠ fastClock.rtc.register := by decide
  exact hregister hsame.register

/-- The theorem at this command. -/
theorem unchanged_iff_leavesNoTrace_rtc :
    Unchanged fastClock refusedRtc ↔
      LeavesNoTrace shellImage emptyResidue fastClock (some rtcName) :=
  unchanged_iff_leavesNoTrace execute_rtc_refused

end Ece391Os
