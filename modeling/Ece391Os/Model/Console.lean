import Ece391Os.Model.InterruptedOutput
import Ece391Os.Model.NestedKeyboard

/-!
# The console: processes, keys and text output

The machine of `Machine` with all keys instead of the Alt-Fn keys alone, and with the output of
user programs. A thread keeps what its call of `terminal_write` has left to do. A keyboard
interrupt may wait in `terminal_switch`, or be interrupted behind `terminal_write`; a thread keeps
these interrupts as frames, and each frame keeps the `video_past` that `handle_keyboard` restores
when it returns.
-/

set_option autoImplicit false

namespace Ece391Os

/-! ## Threads -/

/-- A keyboard interrupt that has not returned: it waits in `terminal_switch`, which sampled
`ticked`, or it has statements of `keyboard_insert` or `keyboard_backspace` left. -/
inductive KeyFrame where
  | waiting (ticked : Bool) (videoPast : VideoPtr)
  | typing (rest : List KeyStatement) (videoPast : VideoPtr) (flag : Bool)
  deriving DecidableEq, Repr

/-- A thread of control. It is in a system call or in its user program, whose interrupt flag is
`userFlag`; a call of `terminal_write` has the statements `output` left. On top of that are keyboard
interrupts, the innermost first. -/
structure Thread where
  owner : Pid
  inCall : Bool
  userFlag : Bool
  output : List OutputStatement
  frames : List KeyFrame
  deriving DecidableEq, Repr

/-- The thread that starts the first shell of a terminal. -/
def sentinelThread : Thread := ⟨sentinelProcess, true, true, [], []⟩

/-- The thread of a process that has just been started. -/
def freshThread (k : Kernel) : Thread := ⟨k.procs.currentPid, false, k.interrupts, [], []⟩

/-- The kernel, the thread on the processor, the threads behind the saved contexts, the thread that
called the `execute` of each process, and the thread (with its `video_past`) that a keyboard
interrupt took the processor from when it started a shell. -/
structure Console where
  kernel : Kernel
  cpu : Thread
  slotThread : Terminal → Int → Thread
  caller : Pid → Thread
  interrupted : Pid → Option (Thread × VideoPtr)

/-- Before the first program is executed. -/
def bootConsole (espBoot : Word) : Console where
  kernel := bootKernel espBoot
  cpu := sentinelThread
  slotThread := fun _ _ => sentinelThread
  caller := fun _ => sentinelThread
  interrupted := fun _ => none

/-! ## Events -/

/-- What can happen. A tick and a key carry the interrupted stack and frame pointers, and what
`execute` would find on the stack. -/
inductive ConsoleEvent where
  | openWindow
  | closeWindow
  | tick (esp ebp : Word)
  | key (code : UInt8) (res : Residue) (frame : ExecuteFrame)
  | advance
  | leaveSwitch
  | execute (command : Option CString) (res : Residue) (frame : ExecuteFrame)
  | halt
  | respawn (res : Residue) (frame : ExecuteFrame)
  | write (text : List UInt8)
  | output

/-- How the handling of a key goes on up to where it can be interrupted: with statements left, or
in `terminal_switch`. -/
inductive KeyStart where
  | running (kernel : Kernel) (rest : List KeyStatement)
  | switch (num : Terminal) (kernel : Kernel)

/-- `handle_keyboard_input` up to where it can be interrupted. A key that is not typed calls
`terminal_write` last, if at all. -/
def startKey (k : Kernel) (key : Nat) : Option KeyStart :=
  if TypedKey k.kbd key then (beginKey k key).map fun r => .running r.1 r.2
  else
    (handleKeyboardInput k key).map fun
      | .done k => .running k []
      | .switch num k => .switch num k

namespace Console

/-- The thread on the processor executes its user program. -/
def inUser (c : Console) : Bool :=
  c.cpu.owner ≠ sentinelProcess && !c.cpu.inCall && c.cpu.output.isEmpty && c.cpu.frames.isEmpty

/-- The threads behind the slots after a tick has saved the one on the processor. -/
def savedThreads (c : Console) : Terminal → Int → Thread :=
  let t := c.kernel.sched.currentProcess
  if c.kernel.sched.scheduleTop t ≠ 0 then
    setEntry c.slotThread t (c.kernel.sched.topIdx t) c.cpu
  else c.slotThread

/-- A timer interrupt; `none` if the search for a terminal does not end. -/
def tick (c : Console) (esp ebp : Word) : Option Console :=
  let saved := Machine.savedKernel c.kernel esp ebp
  (nextProcess saved).map fun t =>
    { c with
      kernel := (continueWith saved t).sti
      slotThread := c.savedThreads
      cpu := if restores saved t then c.savedThreads t (saved.sched.topIdx t) else c.cpu }

/-- The thread of a new process takes over from its caller. -/
def start (c : Console) (k : Kernel) (caller : Thread)
    (interrupted : Option (Thread × VideoPtr)) : Console :=
  { c with
    kernel := k
    cpu := freshThread k
    caller := Function.update c.caller k.procs.currentPid caller
    interrupted := Function.update c.interrupted k.procs.currentPid interrupted }

/-- A keyboard interrupt returns to the thread `thread`. -/
def leaveKeyboard (c : Console) (k : Kernel) (thread : Thread) (past : VideoPtr) (flag : Bool) :
    Console :=
  { c with
    kernel := { k with video := { k.video with videoMem := past }, interrupts := flag }
    cpu := thread }

/-- An Alt-Fn key, behind the translation of the key. -/
def switchTerminal (img : FsImage) (c : Console) (num : Terminal) (k : Kernel) (res : Residue)
    (frame : ExecuteFrame) : Option Console :=
  let past := c.kernel.video.videoMem
  match terminalSwitch img res frame k num with
  | .unchanged => some (c.leaveKeyboard k c.cpu past true)
  | .waiting ticked k =>
      some { c with
        kernel := k
        cpu := { c.cpu with frames := .waiting ticked past :: c.cpu.frames } }
  | .executed (.returned _ k) => some (c.leaveKeyboard k c.cpu past true)
  | .executed .stuck => none
  | .executed (.started _ k) => some (c.start k sentinelThread (some (c.cpu, past)))

/-- A keyboard interrupt. An access outside a row ends the run. -/
def key (img : FsImage) (c : Console) (code : UInt8) (res : Residue) (frame : ExecuteFrame) :
    Option Console :=
  match startKey (Machine.keyboardKernel c.kernel) code.toNat with
  | none => none
  | some (.running k rest) =>
      some { c with
        kernel := k
        cpu := { c.cpu with
          frames := .typing rest c.kernel.video.videoMem true :: c.cpu.frames } }
  | some (.switch num k) => c.switchTerminal img num k res frame

/-- The next statement of the innermost keyboard interrupt, or its return. -/
def advance (c : Console) : Option Console :=
  match c.cpu.frames with
  | .typing (st :: rest) past flag :: frames =>
      some { c with
        kernel := st.exec c.kernel
        cpu := { c.cpu with frames := .typing rest past flag :: frames } }
  | .typing [] past flag :: frames =>
      some (c.leaveKeyboard c.kernel { c.cpu with frames := frames } past flag)
  | _ => none

/-- A wait loop of `terminal_switch` is left, and with it the keyboard interrupt. -/
def leaveSwitch (c : Console) : Option Console :=
  match c.cpu.frames with
  | .waiting ticked past :: frames =>
      if ticked ≠ c.kernel.sched.scheduleTick then
        some (c.leaveKeyboard c.kernel { c.cpu with frames := frames } past true)
      else none
  | _ => none

/-- `execute`, called by the user program, in one step as in `Machine.execute`. -/
def execute (img : FsImage) (c : Console) (command : Option CString) (res : Residue)
    (frame : ExecuteFrame) : Option Console :=
  match Ece391Os.execute img res frame c.kernel.cli command with
  | .returned _ k => some { c with kernel := { k with interrupts := c.cpu.userFlag } }
  | .stuck => none
  | .started _ k => some (c.start k { c.cpu with inCall := true } none)

/-- `halt`, called by the user program: the thread that called `execute` goes on at `HALTED`. -/
def halt (c : Console) : Console :=
  { c with
    kernel := halted (Ece391Os.halt c.kernel.cli)
    cpu := c.caller c.kernel.procs.currentPid }

/-- The `do_call(SYS_EXECUTE, "shell")` of the sentinel. If it fails, the calls below it return: at
boot to the idle loop, else to the keyboard interrupt that had started the shell. -/
def respawn (img : FsImage) (c : Console) (res : Residue) (frame : ExecuteFrame) :
    Option Console :=
  let below := c.interrupted c.kernel.procs.pastPid
  match Ece391Os.execute img res frame c.kernel.cli (some shellName) with
  | .returned _ k =>
      match below with
      | none => some { c with kernel := { k with interrupts := c.kernel.interrupts } }
      | some (thread, past) => some (c.leaveKeyboard k thread past true)
  | .stuck => none
  | .started _ k => some (c.start k sentinelThread below)

/-- `terminal_write`, called by the user program. It rejects the empty text. -/
def write (c : Console) (text : List UInt8) : Console :=
  if text.length < 1 then
    { c with kernel := { c.kernel.cli with interrupts := c.cpu.userFlag } }
  else
    { c with
      kernel := c.kernel.cli
      cpu := { c.cpu with inCall := true, output := [.chars text] } }

/-- The next statement of `terminal_write`. -/
def output (c : Console) : Option Console :=
  match c.cpu.output with
  | st :: rest =>
      if c.cpu.frames = [] then
        some { c with
          kernel := (st.exec c.kernel).1
          cpu := { c.cpu with output := (st.exec c.kernel).2 ++ rest } }
      else none
  | [] => none

/-- One step. -/
def step (img : FsImage) (c : Console) : ConsoleEvent → Option Console
  | .openWindow =>
      if c.inUser then
        some { c with kernel := c.kernel.sti, cpu := { c.cpu with inCall := true } }
      else none
  | .closeWindow =>
      if c.cpu.owner ≠ sentinelProcess ∧ c.cpu.inCall = true ∧ c.cpu.output = [] ∧
          c.cpu.frames = [] then
        some { c with
          kernel := { c.kernel with interrupts := c.cpu.userFlag }
          cpu := { c.cpu with inCall := false } }
      else none
  | .tick esp ebp => if c.kernel.interrupts then c.tick esp ebp else none
  | .key code res frame => if c.kernel.interrupts then c.key img code res frame else none
  | .advance => c.advance
  | .leaveSwitch => if c.kernel.interrupts then c.leaveSwitch else none
  | .execute command res frame => if c.inUser then c.execute img command res frame else none
  | .halt => if c.inUser then some c.halt else none
  | .respawn res frame =>
      if c.cpu.owner = sentinelProcess ∧ c.cpu.frames = [] ∧
          c.kernel.procs.currentPid = sentinelProcess then
        c.respawn img res frame
      else none
  | .write text => if c.inUser then some (c.write text) else none
  | .output => c.output

/-! ## What one step does -/

/-- The kernel with which a timer interrupt goes on, behind the choice of terminal `t`. -/
def tickKernel (c : Console) (esp ebp : Word) (t : Terminal) : Kernel :=
  (continueWith (Machine.savedKernel c.kernel esp ebp) t).sti

/-- What one step does. -/
inductive Effect (img : FsImage) (c : Console) : ConsoleEvent → Console → Prop
  | openWindow (huser : c.inUser = true) :
      Effect img c .openWindow
        { c with kernel := c.kernel.sti, cpu := { c.cpu with inCall := true } }
  | closeWindow (howner : c.cpu.owner ≠ sentinelProcess) (hframes : c.cpu.frames = []) :
      Effect img c .closeWindow { c with
        kernel := { c.kernel with interrupts := c.cpu.userFlag }
        cpu := { c.cpu with inCall := false } }
  | tick {esp ebp : Word} {t : Terminal} {cpu : Thread}
      (hnext : nextProcess (Machine.savedKernel c.kernel esp ebp) = some t) :
      Effect img c (.tick esp ebp) { c with
        kernel := c.tickKernel esp ebp t, slotThread := c.savedThreads, cpu := cpu }
  | key {code : UInt8} {res : Residue} {frame : ExecuteFrame} {k : Kernel}
      {rest : List KeyStatement}
      (hstart : startKey (Machine.keyboardKernel c.kernel) code.toNat = some (.running k rest)) :
      Effect img c (.key code res frame) { c with
        kernel := k
        cpu := { c.cpu with
          frames := .typing rest c.kernel.video.videoMem true :: c.cpu.frames } }
  | displayed {code : UInt8} {res : Residue} {frame : ExecuteFrame} {num : Terminal} {k : Kernel}
      (hstart : startKey (Machine.keyboardKernel c.kernel) code.toNat = some (.switch num k))
      (hswitch : terminalSwitch img res frame k num = .unchanged) :
      Effect img c (.key code res frame)
        (c.leaveKeyboard k c.cpu c.kernel.video.videoMem true)
  | waits {code : UInt8} {res : Residue} {frame : ExecuteFrame} {num : Terminal}
      {k k' : Kernel} {ticked : Bool}
      (hstart : startKey (Machine.keyboardKernel c.kernel) code.toNat = some (.switch num k))
      (hswitch : terminalSwitch img res frame k num = .waiting ticked k') :
      Effect img c (.key code res frame) { c with
        kernel := k'
        cpu := { c.cpu with
          frames := .waiting ticked c.kernel.video.videoMem :: c.cpu.frames } }
  | shellFails {code : UInt8} {res : Residue} {frame : ExecuteFrame} {num : Terminal}
      {k k' : Kernel} {v : Int}
      (hstart : startKey (Machine.keyboardKernel c.kernel) code.toNat = some (.switch num k))
      (hswitch : terminalSwitch img res frame k num = .executed (.returned v k')) :
      Effect img c (.key code res frame)
        (c.leaveKeyboard k' c.cpu c.kernel.video.videoMem true)
  | shellStarts {code : UInt8} {res : Residue} {frame : ExecuteFrame} {num : Terminal}
      {k k' : Kernel} {entry : Word}
      (hstart : startKey (Machine.keyboardKernel c.kernel) code.toNat = some (.switch num k))
      (hswitch : terminalSwitch img res frame k num = .executed (.started entry k')) :
      Effect img c (.key code res frame)
        (c.start k' sentinelThread (some (c.cpu, c.kernel.video.videoMem)))
  | advance {st : KeyStatement} {rest : List KeyStatement} {past : VideoPtr} {flag : Bool}
      {frames : List KeyFrame} (hframes : c.cpu.frames = .typing (st :: rest) past flag :: frames) :
      Effect img c .advance { c with
        kernel := st.exec c.kernel
        cpu := { c.cpu with frames := .typing rest past flag :: frames } }
  | leave {past : VideoPtr} {flag : Bool} {frames : List KeyFrame}
      (hframes : c.cpu.frames = .typing [] past flag :: frames) :
      Effect img c .advance (c.leaveKeyboard c.kernel { c.cpu with frames := frames } past flag)
  | leaveSwitch {ticked : Bool} {past : VideoPtr} {frames : List KeyFrame}
      (hframes : c.cpu.frames = .waiting ticked past :: frames)
      (hticked : ticked ≠ c.kernel.sched.scheduleTick) :
      Effect img c .leaveSwitch
        (c.leaveKeyboard c.kernel { c.cpu with frames := frames } past true)
  | returned {command : Option CString} {res : Residue} {frame : ExecuteFrame} {v : Int}
      {k : Kernel} (huser : c.inUser = true)
      (hret : Ece391Os.execute img res frame c.kernel.cli command = .returned v k) :
      Effect img c (.execute command res frame)
        { c with kernel := { k with interrupts := c.cpu.userFlag } }
  | started {command : Option CString} {res : Residue} {frame : ExecuteFrame} {entry : Word}
      {k : Kernel} (huser : c.inUser = true)
      (hstart : Ece391Os.execute img res frame c.kernel.cli command = .started entry k) :
      Effect img c (.execute command res frame) (c.start k { c.cpu with inCall := true } none)
  | halt (huser : c.inUser = true) : Effect img c .halt c.halt
  | respawnFails {res : Residue} {frame : ExecuteFrame} {v : Int} {k : Kernel} {cpu : Thread}
      {past : VideoPtr} {flag : Bool}
      (hret : Ece391Os.execute img res frame c.kernel.cli (some shellName) = .returned v k) :
      Effect img c (.respawn res frame) (c.leaveKeyboard k cpu past flag)
  | respawns {res : Residue} {frame : ExecuteFrame} {entry : Word} {k : Kernel}
      (hstart : Ece391Os.execute img res frame c.kernel.cli (some shellName) = .started entry k) :
      Effect img c (.respawn res frame)
        (c.start k sentinelThread (c.interrupted c.kernel.procs.pastPid))
  | write {text : List UInt8} (huser : c.inUser = true) : Effect img c (.write text) (c.write text)
  | output {st : OutputStatement} {rest : List OutputStatement}
      (houtput : c.cpu.output = st :: rest) :
      Effect img c .output { c with
        kernel := (st.exec c.kernel).1
        cpu := { c.cpu with output := (st.exec c.kernel).2 ++ rest } }

theorem effect_of_key {img : FsImage} {c c' : Console} {code : UInt8} {res : Residue}
    {frame : ExecuteFrame} (hstep : c.key img code res frame = some c') :
    Effect img c (.key code res frame) c' := by
  simp only [key] at hstep
  split at hstep
  · cases hstep
  next k rest hstart =>
    obtain rfl := Option.some.inj hstep
    exact .key hstart
  next num k hstart =>
    simp only [switchTerminal] at hstep
    split at hstep
    next hswitch =>
      obtain rfl := Option.some.inj hstep
      exact .displayed hstart hswitch
    next ticked k' hswitch =>
      obtain rfl := Option.some.inj hstep
      exact .waits hstart hswitch
    next v k' hswitch =>
      obtain rfl := Option.some.inj hstep
      exact .shellFails hstart hswitch
    · cases hstep
    next entry k' hswitch =>
      obtain rfl := Option.some.inj hstep
      exact .shellStarts hstart hswitch

theorem effect_of_step {img : FsImage} {c c' : Console} {e : ConsoleEvent}
    (hstep : step img c e = some c') : Effect img c e c' := by
  cases e with
  | openWindow =>
      obtain ⟨huser, hc'⟩ := Option.ite_none_right_eq_some.mp hstep
      obtain rfl := Option.some.inj hc'
      exact .openWindow huser
  | closeWindow =>
      obtain ⟨⟨howner, -, -, hframes⟩, hc'⟩ := Option.ite_none_right_eq_some.mp hstep
      obtain rfl := Option.some.inj hc'
      exact .closeWindow howner hframes
  | tick esp ebp =>
      obtain ⟨-, hc'⟩ := Option.ite_none_right_eq_some.mp hstep
      obtain ⟨t, hnext, rfl⟩ := Option.map_eq_some_iff.mp hc'
      exact .tick hnext
  | key code res frame =>
      obtain ⟨-, hc'⟩ := Option.ite_none_right_eq_some.mp hstep
      exact effect_of_key hc'
  | advance =>
      simp only [step, advance] at hstep
      split at hstep
      next st rest past flag frames hframes =>
        obtain rfl := Option.some.inj hstep
        exact .advance hframes
      next past flag frames hframes =>
        obtain rfl := Option.some.inj hstep
        exact .leave hframes
      · cases hstep
  | leaveSwitch =>
      obtain ⟨-, hc'⟩ := Option.ite_none_right_eq_some.mp hstep
      simp only [leaveSwitch] at hc'
      split at hc'
      next ticked past frames hframes =>
        obtain ⟨hticked, hc'⟩ := Option.ite_none_right_eq_some.mp hc'
        obtain rfl := Option.some.inj hc'
        exact .leaveSwitch hframes hticked
      · cases hc'
  | execute command res frame =>
      obtain ⟨huser, hc'⟩ := Option.ite_none_right_eq_some.mp hstep
      simp only [execute] at hc'
      split at hc'
      next v k hret =>
        obtain rfl := Option.some.inj hc'
        exact .returned huser hret
      · cases hc'
      next entry k hstart =>
        obtain rfl := Option.some.inj hc'
        exact .started huser hstart
  | halt =>
      obtain ⟨huser, hc'⟩ := Option.ite_none_right_eq_some.mp hstep
      obtain rfl := Option.some.inj hc'
      exact .halt huser
  | respawn res frame =>
      obtain ⟨-, hc'⟩ := Option.ite_none_right_eq_some.mp hstep
      simp only [respawn] at hc'
      split at hc'
      next v k hret =>
        split at hc'
        · -- at boot the call returns to the loop of the sentinel, which changes no pointer
          obtain rfl := Option.some.inj hc'
          have hfails : Effect img c (.respawn res frame)
              (c.leaveKeyboard k c.cpu k.video.videoMem c.kernel.interrupts) := .respawnFails hret
          exact hfails
        · obtain rfl := Option.some.inj hc'
          exact .respawnFails hret
      · cases hc'
      next entry k hstart =>
        obtain rfl := Option.some.inj hc'
        exact .respawns hstart
  | write text =>
      obtain ⟨huser, hc'⟩ := Option.ite_none_right_eq_some.mp hstep
      obtain rfl := Option.some.inj hc'
      exact .write huser
  | output =>
      simp only [step, output] at hstep
      split at hstep
      next st rest houtput =>
        obtain ⟨-, hc'⟩ := Option.ite_none_right_eq_some.mp hstep
        obtain rfl := Option.some.inj hc'
        exact .output houtput
      · cases hstep

end Console

end Ece391Os
