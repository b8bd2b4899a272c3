import Ece391Os.Model.Machine
import Ece391Os.Properties.CallFrames

/-!
# The scheduling state

`Tasks` is what remains of the kernel when only processes and scheduling count: the
schedule stacks with their saved contexts, the parent links, which processes are alive,
and the displayed terminal. Each kernel operation acts on it as one of a few operations
(`spawn`, `exit`, `request`, `enter`, `save`, `resume`); everything else, in particular all that
`execute` does to descriptors and memory, leaves it alone.
-/

set_option autoImplicit false

namespace Ece391Os

/-- The scheduling state. -/
structure Tasks where
  sched : Scheduler
  currentPid : Pid
  pastPid : Pid
  alive : Pid → Bool
  parent : Pid → Pid
  stackTop : Pid → Word
  currentTerminal : Terminal
  running : Terminal → Bool

/-- The scheduling state of a kernel. -/
def Kernel.tasks (k : Kernel) : Tasks where
  sched := k.sched
  currentPid := k.procs.currentPid
  pastPid := k.procs.pastPid
  alive := fun p => decide ((k.procs.controlBlocks p).pid ≠ -1)
  parent := k.parent
  stackTop := fun p => (k.procs.controlBlocks p).esp
  currentTerminal := k.terms.currentTerminal
  running := k.terms.terminalRunning

namespace Tasks

/-- A new process `q`, child of the current one, on the stack of the displayed terminal. -/
def spawn (s : Tasks) (q : Pid) : Tasks :=
  let t := s.currentTerminal
  { s with
    sched := { s.sched with
      tss := ⟨esp0Of q, kernelDs⟩
      scheduleTop := Function.update s.sched.scheduleTop t (s.sched.scheduleTop t + 1)
      scheduleStack := setEntry s.sched.scheduleStack t (s.sched.scheduleTop t) q }
    currentPid := q
    alive := Function.update s.alive q true
    parent := Function.update s.parent q s.currentPid
    stackTop := Function.update s.stackTop q (esp0Of q)
    running := Function.update s.running t true }

/-- The current process ends, its parent goes on, and the stack of the running terminal is
popped. -/
def exit (s : Tasks) : Tasks :=
  let t := s.sched.currentProcess
  { s with
    sched := { s.sched with
      tss := { s.sched.tss with esp0 := s.stackTop (s.parent s.currentPid) }
      scheduleTop := Function.update s.sched.scheduleTop t (s.sched.scheduleTop t - 1)
      scheduleStack := setEntry s.sched.scheduleStack t (s.sched.topIdx t) 0
      scheduleEbp := setEntry s.sched.scheduleEbp t (s.sched.topIdx t) 0
      scheduleEsp := setEntry s.sched.scheduleEsp t (s.sched.topIdx t) 0 }
    currentPid := s.parent s.currentPid
    pastPid := s.currentPid
    alive := Function.update s.alive s.currentPid false }

/-- The terminal `num` is displayed, and the timer is asked to go to it. -/
def request (s : Tasks) (num : Terminal) : Tasks :=
  { s with currentTerminal := num, sched := { s.sched with terminalRequest := some num } }

/-- The sentinel takes the processor, on terminal `num`. -/
def enter (s : Tasks) (num : Terminal) : Tasks :=
  { s with
    currentTerminal := num
    currentPid := sentinelProcess
    sched := { s.sched with currentProcess := num } }

/-- The interrupted registers go to the slot of the running terminal. -/
def save (s : Tasks) (esp ebp : Word) : Tasks :=
  let t := s.sched.currentProcess
  let i := s.sched.topIdx t
  if s.sched.scheduleTop t ≠ 0 then
    { s with sched := { s.sched with
        lastEsp := esp
        lastEbp := ebp
        scheduleTss := setEntry s.sched.scheduleTss t i s.sched.tss
        scheduleEsp := setEntry s.sched.scheduleEsp t i esp
        scheduleEbp := setEntry s.sched.scheduleEbp t i ebp } }
  else { s with sched := { s.sched with lastEsp := esp, lastEbp := ebp } }

/-- The guard in front of the restore. -/
def Restores (s : Tasks) (t : Terminal) : Prop :=
  s.sched.scheduleTop t ≠ 0 ∧ s.sched.scheduleEbp t (s.sched.topIdx t) ≠ 0

instance (s : Tasks) (t : Terminal) : Decidable (s.Restores t) :=
  inferInstanceAs (Decidable (_ ∧ _))

/-- The processor goes to terminal `t`. -/
def resume (s : Tasks) (t : Terminal) : Tasks :=
  let i := s.sched.topIdx t
  let sched := { s.sched with
    currentProcess := t, terminalRequest := none, scheduleTick := !s.sched.scheduleTick }
  if s.Restores t then
    { s with
      currentPid := s.sched.scheduleStack t i
      sched := { sched with
        lastEsp := s.sched.scheduleEsp t i
        lastEbp := s.sched.scheduleEbp t i
        tss := { s.sched.scheduleTss t i with esp0 := esp0Of (s.sched.scheduleStack t i) } } }
  else { s with sched := sched }

/-- The terminal that the scheduler chooses. -/
def next (s : Tasks) : Option Terminal :=
  match s.sched.terminalRequest with
  | none => searchNext s.sched.scheduleTop s.sched.currentProcess
  | some t => some t

end Tasks

/-! ## What the kernel operations do to it -/

section Kernel

variable {img : FsImage} {res : Residue} {frame : ExecuteFrame} {k k' : Kernel}

@[simp] theorem tasks_cli (k : Kernel) : k.cli.tasks = k.tasks := rfl
@[simp] theorem tasks_sti (k : Kernel) : k.sti.tasks = k.tasks := rfl

/-- Assignment to a control block. -/
theorem tasks_setPcb (k : Kernel) (p : Pid) (b : Pcb) :
    (k.setPcb p b).tasks = { k.tasks with
      alive := Function.update k.tasks.alive p (decide (b.pid ≠ -1))
      parent := Function.update k.tasks.parent p b.parent
      stackTop := Function.update k.tasks.stackTop p b.esp } := by
  have halive : (k.setPcb p b).tasks.alive =
      Function.update k.tasks.alive p (decide (b.pid ≠ -1)) := by
    funext q
    rcases eq_or_ne q p with rfl | hne
    · simp [Kernel.tasks, Kernel.setPcb]
    · simp [Kernel.tasks, Kernel.setPcb, Function.update_of_ne hne]
  have hparent : (k.setPcb p b).tasks.parent = Function.update k.tasks.parent p b.parent := by
    funext q
    rcases eq_or_ne q p with rfl | hne
    · simp [Kernel.tasks, Kernel.setPcb, Kernel.parent]
    · simp [Kernel.tasks, Kernel.setPcb, Kernel.parent, Function.update_of_ne hne]
  have htop : (k.setPcb p b).tasks.stackTop = Function.update k.tasks.stackTop p b.esp := by
    funext q
    rcases eq_or_ne q p with rfl | hne
    · simp [Kernel.tasks, Kernel.setPcb]
    · simp [Kernel.tasks, Kernel.setPcb, Function.update_of_ne hne]
  rw [← halive, ← hparent, ← htop]
  rfl

/-- An assignment that keeps process, parent and stack top. -/
theorem tasks_setPcb_same {p : Pid} {b : Pcb} (hpid : b.pid = (k.procs.controlBlocks p).pid)
    (hparent : b.parent = k.parent p) (hesp : b.esp = (k.procs.controlBlocks p).esp) :
    (k.setPcb p b).tasks = k.tasks := by
  have halive : decide (b.pid ≠ -1) = k.tasks.alive p := by
    rw [hpid]
    rfl
  have hpar : b.parent = k.tasks.parent p := hparent
  have htop : b.esp = k.tasks.stackTop p := hesp
  rw [tasks_setPcb, halive, hpar, htop, Function.update_eq_self, Function.update_eq_self,
    Function.update_eq_self]

@[simp] theorem tasks_clearArgs (k : Kernel) : (clearArgs k).tasks = k.tasks :=
  tasks_setPcb_same rfl rfl rfl

/-- No `open`, `read` or `close` touches the scheduling state. -/
theorem callFrame_tasks : CallFrame Kernel.tasks where
  fds := fun _ _ _ => tasks_setPcb_same rfl rfl rfl
  interrupts := fun _ _ => rfl
  rtc := fun _ _ => rfl
  output := fun _ _ _ => rfl
  reader := fun _ _ _ => rfl

/-- The first part of `execute` does not touch the scheduling state. -/
theorem tasks_executeLoad {command : Option CString} :
    (∀ v, executeLoad img res frame k command = .returned v k' → k'.tasks = k.tasks) ∧
      ∀ buf, executeLoad img res frame k command = .loaded buf k' → k'.tasks = k.tasks :=
  callFrame_tasks.executeLoad

/-- The second part of `execute` spawns a process. -/
theorem tasks_executeSpawn {command : CString} {buf : Nat → UInt8}
    (h : executeSpawn frame k command buf = some k') :
    ∃ q, freePid k = some q ∧ k'.tasks = k.tasks.spawn q := by
  obtain ⟨q, hs⟩ := spawns_of_executeSpawn h
  refine ⟨q, hs.free, ?_⟩
  have halive : k'.tasks.alive = Function.update k.tasks.alive q true := by
    have hpid : decide (((q.val : Nat) : Int) ≠ -1) = true := decide_eq_true (by omega)
    rw [← hpid]
    exact hs.field (fun b => decide (b.pid ≠ -1)) fun _ _ => rfl
  have hparent : k'.tasks.parent = Function.update k.tasks.parent q k.tasks.currentPid :=
    hs.field Pcb.parent fun _ _ => rfl
  have htop : k'.tasks.stackTop = Function.update k.tasks.stackTop q (esp0Of q) :=
    hs.field Pcb.esp fun _ _ => rfl
  obtain ⟨shellPid, hterms⟩ := hs.terms
  have hrest : k'.tasks = { k.tasks.spawn q with
      alive := k'.tasks.alive, parent := k'.tasks.parent, stackTop := k'.tasks.stackTop } := by
    simp only [Kernel.tasks, Tasks.spawn, hs.sched, hs.current, hs.past, hterms]
  rw [hrest, halive, hparent, htop]
  rfl

/-- A fresh process number: not the sentinel's, and of no live process. -/
structure Tasks.Fresh (s : Tasks) (q : Pid) : Prop where
  ne_sentinel : q ≠ sentinelProcess
  not_alive : s.alive q = false

theorem fresh_of_freePid {q : Pid} (h : freePid k = some q) : k.tasks.Fresh q := by
  have hfree := List.find?_some h
  have hmem := List.mem_of_find?_eq_some h
  constructor
  · rintro rfl
    exact absurd hmem (by decide)
  · have hpid : (k.procs.controlBlocks q).pid = -1 := of_decide_eq_true hfree
    simp [Kernel.tasks, hpid]

/-- `execute` that returns leaves the scheduling state alone. -/
theorem tasks_execute_returned {command : Option CString} {v : Int}
    (h : execute img res frame k command = .returned v k') : k'.tasks = k.tasks :=
  tasks_executeLoad.1 v (executeLoad_of_returned h)

/-- `execute` that starts a process spawns it. -/
theorem tasks_execute_started {command : Option CString} {entry : Word}
    (h : execute img res frame k command = .started entry k') :
    ∃ q, k.tasks.Fresh q ∧ k'.tasks = k.tasks.spawn q := by
  obtain ⟨buf, k₁, hload, hspawn, -⟩ := executeSpawn_of_started h
  obtain ⟨q, hfree, hq⟩ := tasks_executeSpawn hspawn
  have hsame := tasks_executeLoad.2 _ hload
  exact ⟨q, hsame ▸ fresh_of_freePid hfree, hsame ▸ hq⟩

/-- `halt`, up to the end of the code at `HALTED`. -/
theorem tasks_halt (k : Kernel) : (halted (halt k)).tasks = k.tasks.exit := by
  have halive : (halted (halt k)).tasks.alive =
      Function.update k.tasks.alive k.tasks.currentPid false := by
    funext p
    rcases eq_or_ne p k.procs.currentPid with rfl | hne
    · simp [Kernel.tasks, halted, halt, deschedule, destroyPcb, Kernel.setPcb, Kernel.runAs]
    · simp [Kernel.tasks, halted, halt, deschedule, destroyPcb, Kernel.setPcb, Kernel.runAs,
        Function.update_of_ne hne]
  have hparent : (halted (halt k)).tasks.parent = k.tasks.parent :=
    halt_field k Pcb.parent fun _ _ => rfl
  have htop : (halted (halt k)).tasks.stackTop = k.tasks.stackTop :=
    halt_field k Pcb.esp fun _ _ => rfl
  -- the stack that is loaded is the recorded one of the parent
  have hrest : (halted (halt k)).tasks = { k.tasks.exit with
      sched := { k.tasks.exit.sched with tss := { k.tasks.sched.tss with
        esp0 := (halted (halt k)).tasks.stackTop (k.tasks.parent k.tasks.currentPid) } }
      alive := (halted (halt k)).tasks.alive
      parent := (halted (halt k)).tasks.parent
      stackTop := (halted (halt k)).tasks.stackTop } := rfl
  rw [hrest, halive, hparent, htop]
  rfl

/-- `terminal_switch` to a running terminal. -/
theorem tasks_terminalSwitch_waiting {num : Terminal} {ticked : Bool}
    (h : terminalSwitch img res frame k num = .waiting ticked k') :
    num ≠ k.tasks.currentTerminal ∧ k.tasks.running num = true ∧
      ticked = k.tasks.sched.scheduleTick ∧ k'.tasks = k.tasks.request num := by
  obtain ⟨hne, hrunning, rfl, rfl⟩ := terminalSwitch_waiting h
  exact ⟨hne, hrunning, rfl, rfl⟩

/-- `terminal_switch` to a terminal that is not running. -/
theorem tasks_terminalSwitch_executed {num : Terminal} {r : ExecuteResult}
    (h : terminalSwitch img res frame k num = .executed r) :
    num ≠ k.tasks.currentTerminal ∧ k.tasks.running num = false ∧
      ∃ k₀, k₀.tasks = k.tasks.enter num ∧ r = execute img res frame k₀ (some shellName) := by
  obtain ⟨hne, hstopped, rfl⟩ := terminalSwitch_executed h
  exact ⟨hne, hstopped, k.entering num, rfl, rfl⟩

/-- The saving half of the timer interrupt. -/
theorem tasks_savedKernel (esp ebp : Word) :
    (Machine.savedKernel k esp ebp).tasks = k.tasks.save esp ebp := by
  simp only [Machine.savedKernel, saveContext, Tasks.save]
  by_cases htop : k.sched.scheduleTop k.sched.currentProcess = 0
  · have htasks : k.tasks.sched.scheduleTop k.tasks.sched.currentProcess = 0 := htop
    simp only [Kernel.cli, htop, htasks, ne_eq, not_true, if_false]
    rfl
  · have htasks : k.tasks.sched.scheduleTop k.tasks.sched.currentProcess ≠ 0 := htop
    simp only [Kernel.cli, htop, htasks, ne_eq, not_false_eq_true, if_true]
    rfl

theorem nextProcess_eq (k : Kernel) : nextProcess k = k.tasks.next := rfl

theorem restores_iff (t : Terminal) : restores k t = true ↔ k.tasks.Restores t := by
  simp [restores, Tasks.Restores, Kernel.tasks]

/-- The resuming half. -/
theorem tasks_continueWith (t : Terminal) : (continueWith k t).tasks = k.tasks.resume t := by
  by_cases h : k.tasks.Restores t
  · rw [continueWith_of_restores ((restores_iff t).mpr h), Tasks.resume, if_pos h]
    rfl
  · have hstay : restores k t = false :=
      Bool.eq_false_iff.mpr fun hrestores => h ((restores_iff t).mp hrestores)
    rw [continueWith_of_not_restores hstay, Tasks.resume, if_neg h]
    rfl

end Kernel

/-! ## What a step of the machine does -/

namespace Machine

/-- The scheduling state of the machine. -/
def tasks (m : Machine) : Tasks := m.kernel.tasks

/-- Saved threads, callers and history are unchanged. -/
structure SameRecords (m m' : Machine) : Prop where
  slotControl : m'.slotControl = m.slotControl
  caller : m'.caller = m.caller
  lastStop : m'.lastStop = m.lastStop
  parked : m'.parked = m.parked

/-- The effect of a step on the scheduling state and the threads, one case for each way in which
it can change them. -/
inductive Effect (img : FsImage) (m : Machine) : Event → Machine → Prop
  | quiet {e : Event} {m' : Machine} (htick : ∀ esp ebp, e ≠ .tick esp ebp)
      (hhalt : ∀ status, e ≠ .halt status) (htasks : m'.tasks = m.tasks)
      (howner : m'.cpu.owner = m.cpu.owner) (hrecords : SameRecords m m')
      (hunchanged : ∀ num esp ebp res frame, e = .altFn num esp ebp res frame →
        num = m.tasks.currentTerminal ∨ m.tasks.running num = false) : Effect img m e m'
  | request {num : Terminal} {esp ebp : Word} {res : Residue} {frame : ExecuteFrame}
      {m' : Machine} (hnum : num ≠ m.tasks.currentTerminal) (hrunning : m.tasks.running num = true)
      (htasks : m'.tasks = m.tasks.request num)
      (hcpu : m'.cpu = { m.entered with
        waits := ⟨m.tasks.sched.scheduleTick, m.kernel.video.videoMem⟩ :: m.cpu.waits })
      (hrecords : SameRecords m m') : Effect img m (.altFn num esp ebp res frame) m'
  | enterFailed {num : Terminal} {esp ebp : Word} {res : Residue} {frame : ExecuteFrame}
      {m' : Machine} {v : Int} {k : Kernel}
      (hfailed : terminalSwitch img res frame (keyboardKernel m.kernel) num =
        .executed (.returned v k))
      (hnum : num ≠ m.tasks.currentTerminal) (hstopped : m.tasks.running num = false)
      (htasks : m'.tasks = m.tasks.enter num) (howner : m'.cpu.owner = m.cpu.owner)
      (hrecords : SameRecords m m') : Effect img m (.altFn num esp ebp res frame) m'
  | enter {num : Terminal} {esp ebp : Word} {res : Residue} {frame : ExecuteFrame} {m' : Machine}
      {q : Pid} (hnum : num ≠ m.tasks.currentTerminal) (hstopped : m.tasks.running num = false)
      (hfresh : m.tasks.Fresh q) (htasks : m'.tasks = (m.tasks.enter num).spawn q)
      (howner : m'.cpu.owner = q) (hslots : m'.slotControl = m.slotControl)
      (hcaller : m'.caller = Function.update m.caller q (sentinelControl m.stackInUse))
      (hstop : m'.lastStop =
        Function.update m.lastStop m.cpu.owner ⟨esp, ebp, m.tasks.sched.tss⟩)
      (hparked : m'.parked = Function.update m.parked m.cpu.owner true) :
      Effect img m (.altFn num esp ebp res frame) m'
  | execute {command : Option CString} {res : Residue} {frame : ExecuteFrame} {m' : Machine}
      {q : Pid} {entry : Word} {k : Kernel} (huser : m.inUser = true)
      (hstarted : Ece391Os.execute img res frame m.kernel.cli command = .started entry k)
      (hfresh : m.tasks.Fresh q) (htasks : m'.tasks = m.tasks.spawn q)
      (howner : m'.cpu.owner = q) (hslots : m'.slotControl = m.slotControl)
      (hcaller : m'.caller = Function.update m.caller q { m.entered with inCall := true })
      (hstop : m'.lastStop = m.lastStop) (hparked : m'.parked = m.parked) :
      Effect img m (.execute command res frame) m'
  | respawn {res : Residue} {frame : ExecuteFrame} {m' : Machine} {q : Pid} {entry : Word}
      {k : Kernel} (hsentinel : m.cpu.owner = sentinelProcess)
      (hpid : m.tasks.currentPid = sentinelProcess)
      (hstarted : Ece391Os.execute img res frame m.kernel.cli (some shellName) =
        .started entry k)
      (hfresh : m.tasks.Fresh q) (htasks : m'.tasks = m.tasks.spawn q)
      (howner : m'.cpu.owner = q) (hslots : m'.slotControl = m.slotControl)
      (hcaller : m'.caller = Function.update m.caller q (sentinelControl m.stackInUse))
      (hstop : m'.lastStop = m.lastStop) (hparked : m'.parked = m.parked) :
      Effect img m (.respawn res frame) m'
  | respawnFailed {res : Residue} {frame : ExecuteFrame} {m' : Machine} {v : Int} {k : Kernel}
      (hsentinel : m.cpu.owner = sentinelProcess)
      (hfailed : Ece391Os.execute img res frame m.kernel.cli (some shellName) = .returned v k)
      (htasks : m'.tasks = m.tasks) (hrecords : SameRecords m m')
      (hcpu : m.interrupted m.tasks.pastPid = none → m'.cpu = m.cpu) :
      Effect img m (.respawn res frame) m'
  | halt {status : UInt8} {m' : Machine} (huser : m.inUser = true)
      (htasks : m'.tasks = m.tasks.exit) (hcpu : m'.cpu = m.caller m.tasks.currentPid)
      (hrecords : SameRecords m m') : Effect img m (.halt status) m'
  | tick {esp ebp : Word} {m' : Machine} {t : Terminal} (hnext : m.tasks.next = some t)
      (htasks : m'.tasks = (m.tasks.save esp ebp).resume t)
      (hcpu : m'.cpu = if (m.tasks.save esp ebp).Restores t then
        m.savedControls t (m.tasks.sched.topIdx t) else m.cpu)
      (hslots : m'.slotControl = m.savedControls) (hcaller : m'.caller = m.caller)
      (hstop : m'.lastStop =
        Function.update m.lastStop m.cpu.owner ⟨esp, ebp, m.tasks.sched.tss⟩)
      (hparked : m'.parked = Function.update m.parked m.cpu.owner false) :
      Effect img m (.tick esp ebp) m'

section Steps

variable {img : FsImage} {m m' : Machine}

theorem save_scheduleTop (s : Tasks) (esp ebp : Word) :
    (s.save esp ebp).sched.scheduleTop = s.sched.scheduleTop := by
  simp only [Tasks.save]
  split <;> rfl

theorem save_next (s : Tasks) (esp ebp : Word) : (s.save esp ebp).next = s.next := by
  simp only [Tasks.save]
  split <;> rfl

theorem effect_altFn {num : Terminal} {esp ebp : Word} {res : Residue} {frame : ExecuteFrame}
    (h : altFn img m num esp ebp res frame = some m') :
    Effect img m (.altFn num esp ebp res frame) m' := by
  simp only [altFn] at h
  split at h
  next hswitch =>
    have hunchanged := terminalSwitch_unchanged hswitch
    cases h
    refine .quiet (by simp) (by simp) rfl rfl ⟨rfl, rfl, rfl, rfl⟩ ?_
    rintro _ _ _ _ _ ⟨⟩
    exact hunchanged
  next hswitch =>
    obtain ⟨hnum, hrunning, rfl, htasks⟩ := tasks_terminalSwitch_waiting hswitch
    cases h
    exact .request hnum hrunning htasks rfl ⟨rfl, rfl, rfl, rfl⟩
  next hswitch =>
    -- the terminal has no process yet, so the switch calls `execute` for a shell
    obtain ⟨hnum, hstopped, k₀, hk₀, hexec⟩ := tasks_terminalSwitch_executed hswitch
    have htasks := tasks_execute_returned hexec.symm
    cases h
    exact .enterFailed hswitch hnum hstopped (htasks.trans hk₀) rfl ⟨rfl, rfl, rfl, rfl⟩
  · cases h
  next hswitch =>
    obtain ⟨hnum, hstopped, k₀, hk₀, hexec⟩ := tasks_terminalSwitch_executed hswitch
    obtain ⟨q, hfresh, htasks⟩ := tasks_execute_started hexec.symm
    rw [hk₀] at hfresh htasks
    have hpid := congrArg Tasks.currentPid htasks
    cases h
    refine .enter (q := q) hnum hstopped ⟨hfresh.ne_sentinel, hfresh.not_alive⟩ htasks hpid rfl
      ?_ rfl rfl
    simp only [start, stop]
    exact congrArg (Function.update m.caller · (sentinelControl m.stackInUse)) hpid

theorem effect_execute {command : Option CString} {res : Residue} {frame : ExecuteFrame}
    (huser : m.inUser = true) (h : execute img m command res frame = some m') :
    Effect img m (.execute command res frame) m' := by
  simp only [execute] at h
  split at h
  next hexec =>
    have htasks := tasks_execute_returned hexec
    cases h
    exact .quiet (by simp) (by simp) htasks rfl ⟨rfl, rfl, rfl, rfl⟩ (by simp)
  · cases h
  next hexec =>
    obtain ⟨q, hfresh, htasks⟩ := tasks_execute_started hexec
    have hpid := congrArg Tasks.currentPid htasks
    cases h
    refine .execute (q := q) huser hexec hfresh htasks hpid rfl ?_ rfl rfl
    exact congrArg (Function.update m.caller · { m.entered with inCall := true }) hpid

theorem effect_respawn {res : Residue} {frame : ExecuteFrame}
    (hsentinel : m.cpu.owner = sentinelProcess)
    (hpid : m.kernel.procs.currentPid = sentinelProcess)
    (h : respawn img m res frame = some m') : Effect img m (.respawn res frame) m' := by
  simp only [respawn] at h
  split at h
  next hexec =>
    have htasks := tasks_execute_returned hexec
    split at h
    · cases h
      exact .respawnFailed hsentinel hexec htasks ⟨rfl, rfl, rfl, rfl⟩ fun _ => rfl
    next hbelow =>
      cases h
      refine .respawnFailed hsentinel hexec htasks ⟨rfl, rfl, rfl, rfl⟩ fun hnone => ?_
      exact absurd (hnone.symm.trans hbelow) (by simp)
  · cases h
  next hexec =>
    obtain ⟨q, hfresh, htasks⟩ := tasks_execute_started hexec
    have hnew := congrArg Tasks.currentPid htasks
    cases h
    refine .respawn (q := q) hsentinel hpid hexec hfresh htasks hnew rfl ?_ rfl rfl
    exact congrArg (Function.update m.caller · (sentinelControl m.stackInUse)) hnew

theorem effect_tick {esp ebp : Word} (h : tick m esp ebp = some m') :
    Effect img m (.tick esp ebp) m' := by
  obtain ⟨t, hnext, rfl⟩ := Option.map_eq_some_iff.mp h
  have hsaved := tasks_savedKernel (k := m.kernel) esp ebp
  rw [nextProcess_eq, hsaved, save_next] at hnext
  have htasks := tasks_continueWith (k := savedKernel m.kernel esp ebp) t
  rw [hsaved] at htasks
  have htop : (savedKernel m.kernel esp ebp).sched.topIdx t = m.tasks.sched.topIdx t := by
    have hsame := congrArg (fun s : Tasks => s.sched.scheduleTop) hsaved
    simp only [save_scheduleTop] at hsame
    exact congrArg (fun top : Terminal → Int => top t - 1) hsame
  have hrestores : restores (savedKernel m.kernel esp ebp) t = true ↔
      (m.tasks.save esp ebp).Restores t := by
    rw [restores_iff, hsaved]
    rfl
  refine .tick hnext htasks ?_ rfl rfl rfl rfl
  simp only [htop]
  exact if_congr hrestores rfl rfl

/-- Every step has one of these effects. -/
theorem effect_of_step {e : Event} (h : step img m e = some m') : Effect img m e m' := by
  cases e with
  | openWindow =>
      simp only [step] at h
      split at h
      · cases h
        exact .quiet (by simp) (by simp) rfl rfl ⟨rfl, rfl, rfl, rfl⟩ (by simp)
      · cases h
  | closeWindow =>
      simp only [step] at h
      split at h
      · cases h
        exact .quiet (by simp) (by simp) rfl rfl ⟨rfl, rfl, rfl, rfl⟩ (by simp)
      · cases h
  | tick esp ebp =>
      simp only [step] at h
      split at h
      · exact effect_tick h
      · cases h
  | altFn num esp ebp res frame =>
      simp only [step] at h
      split at h
      · exact effect_altFn h
      · cases h
  | leaveSwitch =>
      simp only [step, leaveSwitch] at h
      split at h
      · split at h
        · cases h
        · split at h
          · cases h
            exact .quiet (by simp) (by simp) rfl rfl ⟨rfl, rfl, rfl, rfl⟩ (by simp)
          · cases h
      · cases h
  | execute command res frame =>
      simp only [step] at h
      split at h
      next huser => exact effect_execute huser h
      · cases h
  | halt status =>
      simp only [step] at h
      split at h
      next huser =>
        cases h
        exact .halt huser (tasks_halt m.kernel.cli) rfl ⟨rfl, rfl, rfl, rfl⟩
      · cases h
  | respawn res frame =>
      simp only [step] at h
      split at h
      next hcond => exact effect_respawn hcond.1 hcond.2.2 h
      · cases h

end Steps

end Machine

end Ece391Os
