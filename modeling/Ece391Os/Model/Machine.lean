import Ece391Os.Library.EventRun
import Ece391Os.Model.TerminalSwitch

/-!
# The machine: processes, interrupts and who runs

A step relation over the kernel for everything that moves `current_process`,
`schedule_top` and the saved contexts: timer ticks, Alt-Fn keys, `execute`, `halt`. An
interrupt can arrive only while interrupts are enabled. User programs run with the flags
that `pushf` put on the stack in `execute`; a system call opens and closes windows with
interrupts enabled (`openWindow`, `closeWindow`).

Besides the kernel, a `Machine` keeps what the hardware knows and the globals do not: which
thread of control is on the processor and which one each saved stack pointer belongs to.
`lastStop` and `parked` are history: how and with which registers a process last stopped.
-/

set_option autoImplicit false

namespace Ece391Os

/-! ## Threads of control -/

/-- A wait loop of `terminal_switch`: the sampled `schedule_tick`, and the `video_past` of the
keyboard handler around it. -/
structure Wait where
  ticked : Bool
  videoPast : VideoPtr
  deriving DecidableEq, Repr

/-- A thread of control. It is in a system call or in its user program, whose interrupt flag is
`userFlag`; on top of that it may be inside keyboard interrupts that wait in
`terminal_switch`. The sentinel's thread is the caller of the first shell of a terminal. `stack` is
the process on whose kernel stack the thread is in the kernel, the sentinel for the boot stack. -/
structure Control where
  owner : Pid
  inCall : Bool
  userFlag : Bool
  waits : List Wait
  stack : Pid
  deriving DecidableEq, Repr

/-- The registers of a thread that a tick saves. -/
structure Context where
  esp : Word
  ebp : Word
  tss : Tss
  deriving DecidableEq, Repr

/-- The kernel, the thread on the processor, the threads behind the saved contexts, the thread
that called the `execute` of each process, the thread that a keyboard interrupt took the
processor from when it started a shell (with its `video_past`), and the history. -/
structure Machine where
  kernel : Kernel
  cpu : Control
  slotControl : Terminal → Int → Control
  caller : Pid → Control
  interrupted : Pid → Option (Control × VideoPtr)
  lastStop : Pid → Context
  parked : Pid → Bool

/-- The thread that starts the first shell of a terminal, on the stack that it finds in use. -/
def sentinelControl (stack : Pid) : Control := ⟨sentinelProcess, true, true, [], stack⟩

/-- The thread of a process that has just been started. -/
def freshControl (k : Kernel) : Control :=
  ⟨k.procs.currentPid, false, k.interrupts, [], k.procs.currentPid⟩

/-- The process whose kernel stack the processor enters from a user program: the one whose stack top
is in the task state segment. -/
def entryStack (tss : Tss) : Pid :=
  ((List.finRange 7).find? fun p => esp0Of p = tss.esp0).getD sentinelProcess

/-- Before the first program is executed. -/
def bootMachine (espBoot : Word) : Machine where
  kernel := bootKernel espBoot
  cpu := sentinelControl sentinelProcess
  slotControl := fun _ _ => sentinelControl sentinelProcess
  caller := fun _ => sentinelControl sentinelProcess
  interrupted := fun _ => none
  lastStop := fun _ => ⟨0, 0, ⟨0, 0⟩⟩
  parked := fun _ => false

/-! ## Events -/

/-- What can happen. `tick` and `altFn` carry the interrupted stack and frame pointers, the calls
of `execute` what they find on the stack. -/
inductive Event where
  | openWindow
  | closeWindow
  | tick (esp ebp : Word)
  | altFn (num : Terminal) (esp ebp : Word) (res : Residue) (frame : ExecuteFrame)
  | leaveSwitch
  | execute (command : Option CString) (res : Residue) (frame : ExecuteFrame)
  | halt (status : UInt8)
  | respawn (res : Residue) (frame : ExecuteFrame)

namespace Machine

/-- The thread on the processor executes its user program. -/
def inUser (m : Machine) : Bool :=
  m.cpu.owner ≠ sentinelProcess && !m.cpu.inCall && m.cpu.waits.isEmpty

/-- The process on whose kernel stack the thread on the processor is, or will be as soon as an
interrupt or a system call takes it out of its user program. -/
def stackInUse (m : Machine) : Pid :=
  if m.inUser then entryStack m.kernel.sched.tss else m.cpu.stack

/-- The thread on the processor, in the kernel. -/
def entered (m : Machine) : Control := { m.cpu with stack := m.stackInUse }

/-- The kernel as `schedule_wrapper` hands it to `timer_handler`, with the context saved. -/
def savedKernel (k : Kernel) (esp ebp : Word) : Kernel :=
  saveContext (Kernel.cli { k with sched := { k.sched with lastEsp := esp, lastEbp := ebp } })

theorem savedKernel_frame (k : Kernel) (esp ebp : Word) : ∃ tss esps ebps,
    savedKernel k esp ebp = { k with
      sched := { k.sched with
        lastEsp := esp, lastEbp := ebp
        scheduleTss := tss, scheduleEsp := esps, scheduleEbp := ebps }
      interrupts := false } := by
  obtain ⟨tss, esps, ebps, hsave⟩ := saveContext_frame
    (Kernel.cli { k with sched := { k.sched with lastEsp := esp, lastEbp := ebp } })
  exact ⟨tss, esps, ebps, hsave⟩

/-- The threads behind the slots after a tick has saved the one on the processor. -/
def savedControls (m : Machine) : Terminal → Int → Control :=
  let t := m.kernel.sched.currentProcess
  if m.kernel.sched.scheduleTop t ≠ 0 then
    setEntry m.slotControl t (m.kernel.sched.topIdx t) m.cpu
  else m.slotControl

/-- The thread on the processor stops with the given registers. -/
def stop (m : Machine) (esp ebp : Word) (isParked : Bool) : Machine :=
  { m with
    lastStop := Function.update m.lastStop m.cpu.owner ⟨esp, ebp, m.kernel.sched.tss⟩
    parked := Function.update m.parked m.cpu.owner isParked }

/-- A timer interrupt; `none` if the search for a terminal does not end. -/
def tick (m : Machine) (esp ebp : Word) : Option Machine :=
  let saved := savedKernel m.kernel esp ebp
  (nextProcess saved).map fun t =>
    let controls := m.savedControls
    { m.stop esp ebp false with
      kernel := (continueWith saved t).sti
      slotControl := controls
      cpu := if restores saved t then controls t (saved.sched.topIdx t) else m.cpu }

/-- The thread of a new process takes over from its caller. -/
def start (m : Machine) (k : Kernel) (caller : Control)
    (interrupted : Option (Control × VideoPtr)) : Machine :=
  { m with
    kernel := k
    cpu := freshControl k
    caller := Function.update m.caller k.procs.currentPid caller
    interrupted := Function.update m.interrupted k.procs.currentPid interrupted }

/-- A keyboard interrupt returns to the thread `c`. -/
def leaveKeyboard (m : Machine) (k : Kernel) (c : Control) (past : VideoPtr) : Machine :=
  { m with
    kernel := Kernel.sti { k with video := { k.video with videoMem := past } }
    cpu := c }

/-- The kernel as `handle_keyboard` hands it on: its output goes to the screen. -/
def keyboardKernel (k : Kernel) : Kernel :=
  { k.cli with video := { k.video with videoMem := .video } }

/-- An Alt-Fn key. -/
def altFn (img : FsImage) (m : Machine) (num : Terminal) (esp ebp : Word) (res : Residue)
    (frame : ExecuteFrame) : Option Machine :=
  let past := m.kernel.video.videoMem
  match terminalSwitch img res frame (keyboardKernel m.kernel) num with
  -- `terminal_switch` returns at once, and the handler behind it
  | .unchanged => some (m.leaveKeyboard m.kernel m.cpu past)
  | .waiting ticked k =>
      some { m with
        kernel := k
        cpu := { m.entered with waits := ⟨ticked, past⟩ :: m.cpu.waits } }
  -- no shell was started: the handler returns to the thread that it interrupted
  | .executed (.returned _ k) => some (m.leaveKeyboard k m.cpu past)
  | .executed .stuck => none
  | .executed (.started _ k) =>
      -- the interrupted thread is kept until the shell has halted
      some ((m.stop esp ebp true).start k (sentinelControl m.stackInUse) (some (m.cpu, past)))

/-- A wait loop of `terminal_switch` is left, and with it the keyboard interrupt. -/
def leaveSwitch (m : Machine) : Option Machine :=
  match m.cpu.waits with
  | [] => none
  | w :: waits =>
      if w.ticked ≠ m.kernel.sched.scheduleTick then
        some (m.leaveKeyboard m.kernel { m.cpu with waits := waits } w.videoPast)
      else none

/-- `execute`, called by the user program. It is one step, also where `close` of the real-time clock
has left interrupts enabled: of a program that is loaded from an entry of the clock, only the calls
that are not interrupted are runs of this step. -/
def execute (img : FsImage) (m : Machine) (command : Option CString) (res : Residue)
    (frame : ExecuteFrame) : Option Machine :=
  match Ece391Os.execute img res frame m.kernel.cli command with
  | .returned _ k => some { m with kernel := { k with interrupts := m.cpu.userFlag } }
  | .stuck => none
  | .started _ k => some (m.start k { m.entered with inCall := true } none)

/-- `halt`, called by the user program: the thread that called `execute` goes on at `HALTED`. -/
def halt (m : Machine) : Machine :=
  { m with
    kernel := halted (Ece391Os.halt m.kernel.cli)
    cpu := m.caller m.kernel.procs.currentPid }

/-- The `do_call(SYS_EXECUTE, "shell")` of the sentinel, at boot and after the first shell of a
terminal has halted. If it fails, the calls below it return: at boot to the idle loop, else to
the keyboard interrupt that had started the shell. -/
def respawn (img : FsImage) (m : Machine) (res : Residue) (frame : ExecuteFrame) :
    Option Machine :=
  -- the thread below the new shell is that below the process that halted
  let below := m.interrupted m.kernel.procs.pastPid
  match Ece391Os.execute img res frame m.kernel.cli (some shellName) with
  | .returned _ k =>
      match below with
      | none => some { m with kernel := { k with interrupts := m.kernel.interrupts } }
      | some (c, past) => some (m.leaveKeyboard k c past)
  | .stuck => none
  | .started _ k => some (m.start k (sentinelControl m.stackInUse) below)

/-- One step. -/
def step (img : FsImage) (m : Machine) : Event → Option Machine
  | .openWindow =>
      if m.inUser then
        some { m with kernel := m.kernel.sti, cpu := { m.entered with inCall := true } }
      else none
  | .closeWindow =>
      if m.cpu.owner ≠ sentinelProcess ∧ m.cpu.inCall = true ∧ m.cpu.waits = [] then
        some { m with
          kernel := { m.kernel with interrupts := m.cpu.userFlag }
          cpu := { m.cpu with inCall := false } }
      else none
  | .tick esp ebp => if m.kernel.interrupts then m.tick esp ebp else none
  | .altFn num esp ebp res frame =>
      if m.kernel.interrupts then altFn img m num esp ebp res frame else none
  | .leaveSwitch => if m.kernel.interrupts then m.leaveSwitch else none
  | .execute command res frame =>
      if m.inUser then execute img m command res frame else none
  | .halt _ => if m.inUser then some m.halt else none
  | .respawn res frame =>
      if m.cpu.owner = sentinelProcess ∧ m.cpu.waits = [] ∧
          m.kernel.procs.currentPid = sentinelProcess then
        respawn img m res frame
      else none

end Machine

end Ece391Os
