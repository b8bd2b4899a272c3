import Ece391Os.Model.ProcessCalls

/-!
# Interrupted executions

Calls of `execute`, cut where they can be interrupted. A call enters with interrupts disabled, but
`open` and `close` of the real-time clock enable them, and `read` of it waits with interrupts
enabled; from then on other processes run between two statements. So `create_new_pcb` is cut at
each access to a `pid` field and to `num_active_processes`.
-/

set_option autoImplicit false

namespace Ece391Os

/-! ## One call -/

/-- Where a call of `execute` stands: before `open`, `read` and `close`; in `create_new_pcb`, which
has blocks left to look at, has found a free one, has stored its number, or has loaded the counter;
and behind `create_new_pcb`. -/
inductive ExecutePoint where
  | opening
  | reading (fd : Int)
  | closing (fd : Int) (buf : Nat → UInt8)
  | searching (buf : Nat → UInt8) (parent : Pid) (rest : List Pid)
  | claiming (buf : Nat → UInt8) (parent pid : Pid)
  | counting (buf : Nat → UInt8) (pid : Pid)
  | counted (buf : Nat → UInt8) (pid : Pid) (n : Int)
  | created (buf : Nat → UInt8) (pid : Pid)
  /-- `create_new_pcb` has returned `FAILURE`. -/
  | failed

/-- A call of `execute` behind the test of the counter. -/
structure ExecuteCall where
  command : CString
  res : Residue
  frame : ExecuteFrame
  point : ExecutePoint

namespace ExecuteCall

/-- How a call goes on: at another point, or it has ended. -/
inductive Outcome where
  | at (point : ExecutePoint) (kernel : Kernel)
  | ended (kernel : Kernel)

/-- The call up to where it can be interrupted again; `none` if it is stuck in the kernel, or uses
`FAILURE` as an index. -/
def advance (img : FsImage) (k : Kernel) (c : ExecuteCall) : Option Outcome :=
  match c.point with
  | .opening =>
      let opened := sysOpen img c.res k (some (commandWord c.command))
      if opened.1 = -1 then some (.ended opened.2) else some (.at (.reading opened.1) opened.2)
  | .reading fd =>
      let r := sysRead img c.res k fd (some c.frame.buf) executeLength
      match r.exit with
      | .pageFault => none
      | .endless => none
      | .returned _ => some (.at (.closing fd (applyStores c.res.buf r.stores)) r.kernel)
  | .closing fd buf =>
      let k := (sysClose k fd).2
      if (List.range 4).map buf = magicLead then
        some (.at (.searching buf k.procs.currentPid pcbSlots) k)
      else some (.ended k)
  | .searching buf parent rest =>
      match rest with
      | [] => some (.at .failed k)
      | pid :: rest =>
          if (k.procs.controlBlocks pid).pid = -1 then some (.at (.claiming buf parent pid) k)
          else some (.at (.searching buf parent rest) k)
  | .claiming buf parent pid => some (.at (.counting buf pid) (claimPcb k pid parent))
  | .counting buf pid => some (.at (.counted buf pid k.procs.numActiveProcesses) k)
  | .counted buf pid n => some (.at (.created buf pid) (clearArgs (k.setActive (n + 1))))
  | .created buf pid => some (.ended (spawnProcess c.frame k pid c.command buf))
  | .failed => none

end ExecuteCall

/-! ## Many calls -/

/-- The kernel, the call of `execute` on the processor, and the calls that are interrupted. -/
structure Executions where
  kernel : Kernel
  current : Option ExecuteCall
  interrupted : List ExecuteCall

/-- What can happen: a live process, or the sentinel, calls `execute`; the call on the processor
goes on, or an interrupt takes the processor from it; an interrupted call goes on, `pid` being on
top of the schedule stack; a live process halts; and what the timer and the keyboard do besides. -/
inductive ExecutionEvent where
  | execute (caller : Pid) (command : Option CString) (res : Residue) (frame : ExecuteFrame)
  | advance
  | interrupt
  | resume (i : Nat) (pid : Pid)
  | halt (caller : Pid)
  | interrupts (sched : Scheduler) (terms : Terminals) (kbd : Keyboard) (video : Video)

namespace Executions

/-- Before the first program is executed. -/
def boot (espBoot : Word) : Executions := ⟨bootKernel espBoot, none, []⟩

/-- `execute` up to `open`: the test of the counter and that of the length of the command. -/
def call (s : Executions) (caller : Pid) (command : Option CString) (res : Residue)
    (frame : ExecuteFrame) : Executions :=
  let k := s.kernel.enter caller
  match command with
  | none => { s with kernel := k }
  | some command =>
      if k.procs.numActiveProcesses ≥ maxProcesses then { s with kernel := k }
      else if command.strlen ≥ execBufferSize then { s with kernel := k }
      else { s with kernel := k, current := some ⟨command, res, frame, .opening⟩ }

/-- One step. A call can be interrupted only while interrupts are enabled. -/
def step (img : FsImage) (s : Executions) : ExecutionEvent → Option Executions
  | .execute caller command res frame =>
      if s.current.isNone ∧ (caller = sentinelProcess ∨ s.kernel.Live caller) then
        some (s.call caller command res frame)
      else none
  | .advance =>
      s.current.bind fun c => (c.advance img s.kernel).map fun
        | .at point k => { s with kernel := k, current := some { c with point := point } }
        | .ended k => { s with kernel := k, current := none }
  | .interrupt =>
      match s.current with
      | some c =>
          if s.kernel.interrupts then
            some { s with current := none, interrupted := c :: s.interrupted }
          else none
      | none => none
  | .resume i pid =>
      if s.current.isNone then
        s.interrupted[i]?.map fun c =>
          ⟨(s.kernel.runAs pid).sti, some c, s.interrupted.eraseIdx i⟩
      else none
  | .halt caller =>
      if s.current.isNone ∧ caller ≠ sentinelProcess ∧ s.kernel.Live caller then
        some { s with kernel := halted (halt (s.kernel.enter caller)) }
      else none
  | .interrupts sched terms kbd video =>
      if s.current.isNone then
        some { s with kernel := { s.kernel with
          sched := sched, terms := terms, kbd := kbd, video := video } }
      else none

end Executions

end Ece391Os
