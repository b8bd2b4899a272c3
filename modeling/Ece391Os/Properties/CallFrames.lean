import Ece391Os.Model.SystemCall
import Ece391Os.Properties.TextOutput

/-!
# What the calls leave alone

`open`, `read` and `close`, and with them the first part of `execute`, write to descriptor tables,
to the clock, to the text page and to the reader's row of `read_buffer`, and nowhere else. A
`CallFrame` is a part of the kernel that does not depend on these; every such part is
unchanged by the calls. The pointers of the text memory are such a part. What the second part of
`execute` and `halt` do to the kernel is said once, in `Spawns` and `halt_field`.
-/

set_option autoImplicit false

namespace Ece391Os

/-- A part of the kernel that no `open` or `close` writes to. -/
structure OpenFrame {α : Type} (f : Kernel → α) : Prop where
  fds : ∀ (k : Kernel) (p : Pid) (fds : FdTable),
    f (k.setPcb p { k.procs.controlBlocks p with fdTable := fds }) = f k
  interrupts : ∀ (k : Kernel) (enabled : Bool), f { k with interrupts := enabled } = f k
  rtc : ∀ (k : Kernel) (rtc : Rtc), f { k with rtc := rtc } = f k

/-- A part of the kernel that no `open`, `read` or `close` writes to. -/
structure CallFrame {α : Type} (f : Kernel → α) : Prop extends OpenFrame f where
  output : ∀ (k : Kernel) (video : Video), k.video.Output video →
    f { k with video := video } = f k
  reader : ∀ (k : Kernel) (switch : Terminal → Switch) (rows : Terminal → Row),
    f { k with terms := { k.terms with returnSwitch := switch, readBuffer := rows } } = f k

namespace OpenFrame

variable {α : Type} {f : Kernel → α} {img : FsImage} {res : Residue} {frame : ExecuteFrame}
  {k k' : Kernel}

theorem cli (h : OpenFrame f) (k : Kernel) : f k.cli = f k := h.interrupts k false

theorem sti (h : OpenFrame f) (k : Kernel) : f k.sti = f k := h.interrupts k true

theorem setFd (h : OpenFrame f) (k : Kernel) (fd : Fin 8) (b : FdBlock) :
    f (k.setFd fd b) = f k :=
  h.fds k _ _

/-! ## Open -/

theorem fileOpen (h : OpenFrame f) (name : CString) :
    f (fileOpen img k name).2 = f k := by
  simp only [Ece391Os.fileOpen]
  split
  · rfl
  · split
    · rfl
    · exact h.setFd _ _ _

theorem directoryOpen (h : OpenFrame f) (name : CString) :
    f (directoryOpen img k name).2 = f k := by
  simp only [Ece391Os.directoryOpen]
  split
  · rfl
  · split
    · rfl
    · exact h.setFd _ _ _

theorem rtcOpen (h : OpenFrame f) : f (rtcOpen res k).2 = f k := by
  simp only [Ece391Os.rtcOpen]
  split
  · exact h.cli k
  · split
    · exact h.cli k
    · rw [h.sti, h.setFd, h.rtc]
      exact h.cli k

theorem sysOpen (h : OpenFrame f) (k : Kernel) (filename : Option CString) :
    f (sysOpen img res k filename).2 = f k := by
  rcases sysOpen_cases img res k filename with
    ⟨v, hopen⟩ | hopen | ⟨name, dentry, -, hopen | hopen⟩
  · rw [hopen]
    exact h.cli k
  · rw [hopen, h.rtcOpen, h.cli]
  · rw [hopen, h.directoryOpen, h.cli]
  · rw [hopen, h.fileOpen, h.cli]

/-! ## Close -/

theorem fileClose (h : OpenFrame f) (fd : Int) : f (fileClose k fd).2 = f k := by
  simp only [Ece391Os.fileClose]
  split
  · split
    · rfl
    · exact h.setFd _ _ _
  · rfl

theorem rtcClose (h : OpenFrame f) (fd : Int) : f (rtcClose k fd).2 = f k := by
  simp only [Ece391Os.rtcClose]
  split
  · split
    · exact h.cli k
    · rw [h.sti, h.setFd, h.cli]
  · exact h.cli k

theorem sysClose (h : OpenFrame f) (k : Kernel) (fd : Int) : f (sysClose k fd).2 = f k := by
  rcases sysClose_dispatch k fd with hclose | ⟨i, op, -, hclose⟩
  · rw [hclose]
    exact h.cli k
  · rw [hclose]
    cases op with
    | stdin => exact (h.fds _ _ _).trans (h.cli k)
    | stdout => exact (h.setFd _ _ _).trans (h.cli k)
    | file => exact (h.fileClose _).trans (h.cli k)
    | dir => exact (h.fileClose _).trans (h.cli k)
    | rtc => exact (h.rtcClose _).trans (h.cli k)

/-! ## Read -/

theorem rtcRead (h : OpenFrame f) : f (rtcRead k).kernel = f k := by
  have hrtc := h.rtc k (Ece391Os.rtcRead k).kernel.rtc
  exact (h.interrupts _ false).trans hrtc

/-- A read leaves such a part alone if the read of a line does. -/
theorem sysRead (h : OpenFrame f) (k : Kernel) (fd : Int) (buf : Option Word) (nbytes : Int)
    (hline : ∀ i : Fin 8, fd = i.val → (k.fdTable i).fileOperationsPointer = some .stdin →
      f (terminalRead res k.cli nbytes).kernel = f k) :
    f (sysRead img res k fd buf nbytes).kernel = f k := by
  rcases sysRead_dispatch img res k fd buf nbytes with hread | ⟨i, op, rfl, hdriver, hread⟩
  · rw [hread]
    exact h.cli k
  · rw [hread]
    cases op with
    | stdin => exact hline i rfl (pointer_of_driver hdriver)
    | stdout => exact h.cli k
    | file => exact (h.setFd _ _ _).trans (h.cli k)
    | dir => exact (h.setFd _ _ _).trans (h.cli k)
    | rtc => exact h.rtcRead.trans (h.cli k)

/-! ## The first part of execute -/

theorem executeLoad (h : OpenFrame f) {command : Option CString}
    (hread : ∀ cmd ∈ command, f (Ece391Os.sysRead img res
      (Ece391Os.sysOpen img res k (some (commandWord cmd))).2
      (Ece391Os.sysOpen img res k (some (commandWord cmd))).1
      (some frame.buf) executeLength).kernel =
        f (Ece391Os.sysOpen img res k (some (commandWord cmd))).2) :
    (∀ v, executeLoad img res frame k command = .returned v k' → f k' = f k) ∧
      ∀ buf, executeLoad img res frame k command = .loaded buf k' → f k' = f k := by
  have hall : ∀ cmd ∈ command, f (Ece391Os.sysClose (Ece391Os.sysRead img res
      (Ece391Os.sysOpen img res k (some (commandWord cmd))).2
      (Ece391Os.sysOpen img res k (some (commandWord cmd))).1
      (some frame.buf) executeLength).kernel
      (Ece391Os.sysOpen img res k (some (commandWord cmd))).1).2 = f k := by
    intro cmd hcmd
    rw [h.sysClose, hread cmd hcmd, h.sysOpen]
  constructor
  · intro v hload
    cases effect_of_executeLoad hload with
    | noCommand => rfl
    | full => rfl
    | long => rfl
    | notOpened => rw [h.sysOpen]
    | notExecutable => exact hall _ rfl
  · intro buf hload
    cases effect_of_executeLoad hload with
    | loaded => exact hall _ rfl

end OpenFrame

namespace CallFrame

variable {α : Type} {f : Kernel → α} {img : FsImage} {res : Residue} {frame : ExecuteFrame}
  {k k' : Kernel}

theorem terminalRead (h : CallFrame f) (nbytes : Int) :
    f (terminalRead res k nbytes).kernel = f k := by
  simp only [Ece391Os.terminalRead]
  have hwritten : ∀ (switch : Terminal → Switch) (rows : Terminal → Row),
      f { k with
        terms := { k.terms with returnSwitch := switch, readBuffer := rows }
        video := k.video.nextLine
        interrupts := true } = f k := by
    intro switch rows
    have hreader := h.reader k switch rows
    have houtput := h.output { k with
      terms := { k.terms with returnSwitch := switch, readBuffer := rows } } _
      (Video.Output.nextLine k.video)
    have hinterrupts := h.interrupts { k with
      terms := { k.terms with returnSwitch := switch, readBuffer := rows }
      video := k.video.nextLine } true
    exact hinterrupts.trans (houtput.trans hreader)
  split
  · rfl
  · exact hwritten _ _

theorem sysRead (h : CallFrame f) (k : Kernel) (fd : Int) (buf : Option Word) (nbytes : Int) :
    f (sysRead img res k fd buf nbytes).kernel = f k :=
  h.toOpenFrame.sysRead k fd buf nbytes fun _ _ _ => (h.terminalRead _).trans (h.cli k)

theorem executeLoad (h : CallFrame f) {command : Option CString} :
    (∀ v, executeLoad img res frame k command = .returned v k' → f k' = f k) ∧
      ∀ buf, executeLoad img res frame k command = .loaded buf k' → f k' = f k :=
  h.toOpenFrame.executeLoad fun _ _ => h.sysRead _ _ _ _

end CallFrame

/-! ## Parts that stay -/

/-- No `open`, `read` or `close` touches the globals of the keyboard driver. -/
theorem callFrame_kbd : CallFrame Kernel.kbd where
  fds := fun _ _ _ => rfl
  interrupts := fun _ _ => rfl
  rtc := fun _ _ => rfl
  output := fun _ _ _ => rfl
  reader := fun _ _ _ => rfl

theorem callFrame_sched : CallFrame Kernel.sched where
  fds := fun _ _ _ => rfl
  interrupts := fun _ _ => rfl
  rtc := fun _ _ => rfl
  output := fun _ _ _ => rfl
  reader := fun _ _ _ => rfl

theorem callFrame_currentPid : CallFrame fun k : Kernel => k.procs.currentPid where
  fds := fun _ _ _ => rfl
  interrupts := fun _ _ => rfl
  rtc := fun _ _ => rfl
  output := fun _ _ _ => rfl
  reader := fun _ _ _ => rfl

/-! ## Execute that returns -/

/-- A call of `execute` that returns has ended in its first part. -/
theorem executeLoad_of_returned {img : FsImage} {res : Residue} {frame : ExecuteFrame}
    {k k' : Kernel} {command : Option CString} {v : Int}
    (h : execute img res frame k command = .returned v k') :
    executeLoad img res frame k command = .returned v k' := by
  simp only [execute] at h
  split at h
  next hload =>
    obtain ⟨rfl, rfl⟩ := ExecuteResult.returned.inj h
    exact hload
  · cases h
  · split at h
    · cases h
    · cases h

/-- A call of `execute` that starts a process has gone through both parts. -/
theorem executeSpawn_of_started {img : FsImage} {res : Residue} {frame : ExecuteFrame}
    {k k' : Kernel} {command : Option CString} {entry : Word}
    (h : execute img res frame k command = .started entry k') :
    ∃ buf k₁, executeLoad img res frame k command = .loaded buf k₁ ∧
      executeSpawn frame k₁ (command.getD []) buf = some k' ∧ entry = wordAt buf 24 := by
  simp only [execute] at h
  split at h
  · cases h
  · cases h
  next buf k₁ hload =>
    split at h
    · cases h
    next hspawn =>
      obtain ⟨rfl, rfl⟩ := ExecuteResult.started.inj h
      exact ⟨buf, k₁, hload, hspawn, rfl⟩

/-! ## Handlers -/

section Handlers

variable {img : FsImage} {res : Residue} {k k' : Kernel}

theorem rtcWrite_frame (k : Kernel) (buf : Nat → UInt8) (rateSize : Int) :
    ∃ rtc, (rtcWrite res k buf rateSize).kernel = { k with rtc := rtc, interrupts := false } := by
  simp only [rtcWrite]
  split
  · split
    · exact ⟨k.rtc, rfl⟩
    · exact ⟨_, rfl⟩
  · exact ⟨k.rtc, rfl⟩

/-- `write` touches the clock, the text memory and the flag of the keyboard. -/
theorem sysWrite_frame (k : Kernel) (fd : Int) (buf : Option (Nat → UInt8)) (nbytes : Int) :
    ∃ rtc video flag enabled, (sysWrite res k fd buf nbytes).kernel =
      { k with
        rtc := rtc
        video := video
        kbd := { k.kbd with keyFlag := flag }
        interrupts := enabled } := by
  have hsame : ∃ rtc video flag enabled, k.cli =
      { k with
        rtc := rtc
        video := video
        kbd := { k.kbd with keyFlag := flag }
        interrupts := enabled } := ⟨k.rtc, k.video, k.kbd.keyFlag, false, rfl⟩
  rcases sysWrite_dispatch res k fd buf nbytes with hwrite | ⟨op, bytes, hwrite⟩
  · rw [hwrite]
    exact hsame
  · rw [hwrite]
    cases op with
    | stdin => exact hsame
    | stdout =>
        simp only [OpTable.write, terminalWrite]
        split
        · exact hsame
        · exact ⟨k.rtc, _, _, true, rfl⟩
    | file => exact hsame
    | dir => exact hsame
    | rtc =>
        obtain ⟨rtc, hrtc⟩ := @rtcWrite_frame res k.cli bytes nbytes
        exact ⟨rtc, k.video, k.kbd.keyFlag, false, hrtc⟩

theorem procs_sysWrite (fd : Int) (buf : Option (Nat → UInt8)) (nbytes : Int) :
    (sysWrite res k fd buf nbytes).kernel.procs = k.procs := by
  obtain ⟨rtc, video, flag, enabled, hk⟩ := @sysWrite_frame res k fd buf nbytes
  rw [hk]

theorem getargs_kernel (k : Kernel) (buf : Option Word) (nbytes : Int) :
    (getargs k buf nbytes).kernel = k.cli ∨
      (getargs k buf nbytes).kernel = clearArgs k.cli := by
  simp only [getargs]
  split
  · exact Or.inl rfl
  · split
    · exact Or.inl rfl
    · split
      · exact Or.inl rfl
      · exact Or.inr rfl

theorem vidmap_kernel (k : Kernel) (screenStart : Word) :
    (vidmap k screenStart).kernel = k.cli := by
  simp only [vidmap]
  split
  · rfl
  · split
    · rfl
    · rfl

theorem kernel_of_value? {r : CallResult} {v : Int} (h : r.value? = some (v, k')) :
    r.kernel = k' := by
  simp only [CallResult.value?] at h
  split at h
  · cases h
    rfl
  · cases h
  · cases h

/-- A handler that returns leaves such a part alone, if `write` does and it holds no arguments. -/
theorem CallFrame.serve {α : Type} {f : Kernel → α} (h : CallFrame f)
    (hwrite : ∀ (k : Kernel) (rtc : Rtc) (video : Video) (flag enabled : Bool),
      f { k with
        rtc := rtc
        video := video
        kbd := { k.kbd with keyFlag := flag }
        interrupts := enabled } = f k)
    (hargs : ∀ k : Kernel, f (clearArgs k) = f k) {call : Call} {v : Int}
    (hserve : serve img res k call = some (v, k')) : f k' = f k := by
  cases call with
  -- `halt` returns to no caller of its own and is not served here
  | halt status => cases hserve
  | execute command frame =>
      simp only [Ece391Os.serve] at hserve
      split at hserve
      next hexec =>
        cases hserve
        exact h.executeLoad.1 _ (executeLoad_of_returned hexec)
      · cases hserve
      · cases hserve
  | read fd buf nbytes =>
      rw [← kernel_of_value? (CallResult.value?_of_into hserve)]
      exact h.sysRead k fd buf nbytes
  | write fd buf nbytes =>
      rw [← kernel_of_value? hserve]
      obtain ⟨rtc, video, flag, enabled, hk⟩ := @sysWrite_frame res k fd buf nbytes
      rw [hk]
      exact hwrite k rtc video flag enabled
  | «open» filename =>
      have hk : (sysOpen img res k filename).2 = k' := congrArg Prod.snd (Option.some.inj hserve)
      rw [← hk]
      exact h.sysOpen k filename
  | close fd =>
      have hk : (sysClose k fd).2 = k' := congrArg Prod.snd (Option.some.inj hserve)
      rw [← hk]
      exact h.sysClose k fd
  | getargs buf nbytes =>
      rw [← kernel_of_value? (CallResult.value?_of_into hserve)]
      rcases getargs_kernel k buf nbytes with hk | hk
      · rw [hk]
        exact h.cli k
      · rw [hk, hargs]
        exact h.cli k
  | vidmap screenStart =>
      rw [← kernel_of_value? (CallResult.value?_of_into hserve), vidmap_kernel]
      exact h.cli k
  | setHandler =>
      rw [← kernel_of_value? (r := setHandler k) hserve]
      exact h.cli k
  | sigreturn =>
      rw [← kernel_of_value? (r := sigreturn k) hserve]
      exact h.cli k

end Handlers

/-! ## A new process -/

/-- The buffer of the new process after `execute` has moved the arguments into it. -/
def movedArgs (command : CString) (args : Nat → UInt8) : Nat → UInt8 :=
  if (commandArgs command).charAt 0 = 0 then clearArgsFrom argsBufferSize 0 args
  else strncpy args (commandArgs command) (commandArgs command).strlen

/-- The control block of a process `q` that the process `parent` has started. -/
def newBlock (frame : ExecuteFrame) (parent q : Pid) (fds : FdTable) (args : Nat → UInt8) :
    Pcb where
  fdTable := fds.reset
  pid := q.val
  parent := parent
  stackPos := frame.esp
  ss := kernelDs
  esp := esp0Of q
  args := args

/-- The second part of `execute` has turned `k` into `k'`, in which `q` is the new process. -/
structure Spawns (frame : ExecuteFrame) (k : Kernel) (command : CString) (buf : Nat → UInt8)
    (q : Pid) (k' : Kernel) : Prop where
  free : freePid k = some q
  current : k'.procs.currentPid = q
  past : k'.procs.pastPid = k.procs.pastPid
  count : k'.procs.numActiveProcesses = k.procs.numActiveProcesses + 1
  block : ∃ args, k'.procs.controlBlocks q =
      newBlock frame k.procs.currentPid q (k.fdTableOf q) args ∧
    (q ≠ k.procs.currentPid → args = movedArgs command (k.procs.controlBlocks q).args)
  others : ∀ p, p ≠ q → k'.procs.controlBlocks p = { k.procs.controlBlocks p with
    args :=
      if p = k.procs.currentPid then
        clearArgsFrom argsBufferSize 0 (k.procs.controlBlocks p).args
      else (k.procs.controlBlocks p).args }
  sched : k'.sched = { k.sched with
    tss := ⟨esp0Of q, kernelDs⟩
    scheduleTop := Function.update k.sched.scheduleTop k.terms.currentTerminal
      (k.sched.scheduleTop k.terms.currentTerminal + 1)
    scheduleStack := setEntry k.sched.scheduleStack k.terms.currentTerminal
      (k.sched.scheduleTop k.terms.currentTerminal) q }
  terms : ∃ shellPid, k'.terms = { k.terms with
    shellPid := shellPid
    terminalRunning := Function.update k.terms.terminalRunning k.terms.currentTerminal true }
  kbd : k'.kbd = (clearHistoryBuffer (clearKeyboardBuffer k) q).kbd
  video : k'.video = { k.video with
    programPage := programPageOf q, vidEntry := .screen, videoMem := .vidmap }
  rtc : k'.rtc = k.rtc
  programMem : k'.programMem = Function.update k.programMem q fun i =>
    if i < executeLength.toNat then buf i else k.programMem q i
  interrupts : k'.interrupts = k.interrupts

/-- The control blocks behind `create_new_pcb`, which clears the arguments of its caller. -/
def createdBlocks (k : Kernel) (parent q : Pid) : Pid → Pcb :=
  let taken := Function.update k.procs.controlBlocks q { k.procs.controlBlocks q with
    pid := q.val, parent := parent, fdTable := (k.procs.controlBlocks q).fdTable.reset }
  Function.update taken k.procs.currentPid { taken k.procs.currentPid with
    args := clearArgsFrom argsBufferSize 0 (taken k.procs.currentPid).args }

section NewProcess

variable {frame : ExecuteFrame} {k k' : Kernel} {command : CString} {buf : Nat → UInt8}
  {parent p q : Pid}

theorem createNewPcb_some (h : createNewPcb k parent = some (q, k')) :
    freePid k = some q ∧
      k' = { k with procs := { k.procs with
        controlBlocks := createdBlocks k parent q
        numActiveProcesses := k.procs.numActiveProcesses + 1 } } := by
  simp only [createNewPcb] at h
  split at h
  · cases h
  next p hp =>
    obtain ⟨rfl, rfl⟩ := Prod.mk.inj (Option.some.inj h)
    exact ⟨hp, rfl⟩

theorem createdBlocks_self (k : Kernel) (parent q : Pid) : ∃ args, createdBlocks k parent q q =
    { k.procs.controlBlocks q with
      pid := q.val, parent := parent, fdTable := (k.fdTableOf q).reset, args := args } ∧
    (q ≠ k.procs.currentPid → args = (k.procs.controlBlocks q).args) := by
  rcases eq_or_ne q k.procs.currentPid with rfl | hne
  · refine ⟨clearArgsFrom argsBufferSize 0 (k.procs.controlBlocks k.procs.currentPid).args, ?_,
      fun hne => absurd rfl hne⟩
    simp only [createdBlocks, Function.update_self]
    rfl
  · refine ⟨(k.procs.controlBlocks q).args, ?_, fun _ => rfl⟩
    simp only [createdBlocks, Function.update_of_ne hne, Function.update_self]
    rfl

theorem createdBlocks_of_ne (hp : p ≠ q) :
    createdBlocks k parent q p = { k.procs.controlBlocks p with
      args :=
        if p = k.procs.currentPid then
          clearArgsFrom argsBufferSize 0 (k.procs.controlBlocks p).args
        else (k.procs.controlBlocks p).args } := by
  rcases eq_or_ne p k.procs.currentPid with rfl | hne
  · simp only [createdBlocks, Function.update_self, Function.update_of_ne hp, if_true]
  · simp only [createdBlocks, Function.update_of_ne hne, Function.update_of_ne hp, if_neg hne]

/-- `moveArgs` replaces the arguments of the current process. -/
theorem moveArgs_eq (k : Kernel) (command : CString) :
    moveArgs k command = k.setPcb k.procs.currentPid { k.procs.controlBlocks k.procs.currentPid with
      args := movedArgs command (k.procs.controlBlocks k.procs.currentPid).args } := by
  simp only [moveArgs, movedArgs]
  split
  · rfl
  · rfl

/-- The spec of `executeSpawn`. -/
theorem spawns_of_executeSpawn (h : executeSpawn frame k command buf = some k') :
    ∃ q, Spawns frame k command buf q k' := by
  simp only [executeSpawn] at h
  split at h
  · cases h
  next q k₁ hcreate =>
    obtain ⟨hfree, rfl⟩ := createNewPcb_some hcreate
    obtain rfl := Option.some.inj h
    -- the name of the program only decides about `shell_pid`
    have hshell : ∀ k₂ : Kernel, ∃ shellPid,
        (if isShell (commandWord command) = true then
          { k₂ with terms := { k₂.terms with
            shellPid := Function.update k₂.terms.shellPid k₂.terms.currentTerminal q } }
        else k₂) = { k₂ with terms := { k₂.terms with shellPid := shellPid } } := by
      intro k₂
      split
      · exact ⟨_, rfl⟩
      · exact ⟨k₂.terms.shellPid, rfl⟩
    obtain ⟨shellPid, hshell⟩ := hshell (Kernel.setPcb (Kernel.runAs _ q) q _)
    rw [spawnProcess, hshell, moveArgs_eq]
    -- what follows writes to the new block only
    obtain ⟨args, hself, hargs⟩ := createdBlocks_self k k.procs.currentPid q
    refine ⟨q, ⟨hfree, rfl, rfl, rfl, ?_, ?_, rfl, ⟨shellPid, rfl⟩, rfl, rfl, rfl, rfl, rfl⟩⟩
    · refine ⟨movedArgs command args, ?_, fun hq => by rw [hargs hq]⟩
      simp only [enterProgram, loadPcb, Kernel.setPcb, Kernel.runAs, schedule, clearHistoryBuffer,
        clearKeyboardBuffer, Function.update_self, hself]
      rfl
    · intro p hp
      have hother := @createdBlocks_of_ne k k.procs.currentPid p q hp
      rw [← hother]
      simp only [enterProgram, loadPcb, Kernel.setPcb, Kernel.runAs, schedule, clearHistoryBuffer,
        clearKeyboardBuffer, Function.update_of_ne hp]

/-- A field of the control blocks other than the arguments. -/
theorem Spawns.field {β : Type} (h : Spawns frame k command buf q k') (g : Pcb → β)
    (hg : ∀ (b : Pcb) (args : Nat → UInt8), g { b with args := args } = g b) :
    (fun p => g (k'.procs.controlBlocks p)) =
      Function.update (fun p => g (k.procs.controlBlocks p)) q
        (g (newBlock frame k.procs.currentPid q (k.fdTableOf q) fun _ => 0)) := by
  funext p
  rcases eq_or_ne p q with rfl | hne
  · obtain ⟨args, hblock, -⟩ := h.block
    rw [Function.update_self, hblock]
    exact hg (newBlock frame k.procs.currentPid p (k.fdTableOf p) fun _ => 0) args
  · rw [Function.update_of_ne hne, h.others p hne]
    exact hg (k.procs.controlBlocks p) _

end NewProcess

/-! ## A process that ends -/

/-- `halt` writes to no field of a control block but `pid`. -/
theorem halt_field {β : Type} (k : Kernel) (g : Pcb → β)
    (hg : ∀ (b : Pcb) (pid : Int), g { b with pid := pid } = g b) :
    (fun p => g ((halted (halt k)).procs.controlBlocks p)) =
      fun p => g (k.procs.controlBlocks p) := by
  have hblocks : (halted (halt k)).procs.controlBlocks = Function.update k.procs.controlBlocks
      k.procs.currentPid { k.procs.controlBlocks k.procs.currentPid with pid := -1 } := rfl
  funext p
  rw [hblocks]
  rcases eq_or_ne p k.procs.currentPid with rfl | hne
  · rw [Function.update_self]
    exact hg _ _
  · rw [Function.update_of_ne hne]

end Ece391Os
