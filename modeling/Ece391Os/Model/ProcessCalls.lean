import Ece391Os.Library.EventRun
import Ece391Os.Model.SystemCall

/-!
# Runs of process calls

A step relation over the kernel for the calls that start programs, hand them their arguments
and end them. Each call is made by some process, which the scheduler has put on the processor;
between two calls the timer and the keyboard may have left the schedule stacks, the terminals,
the keyboard driver and the text pages in any state.
-/

set_option autoImplicit false

namespace Ece391Os

/-- The calls of a run, and what happens between them. The sentinel calls `execute` for the first
shell of a terminal. -/
inductive ProcessCall where
  | execute (caller : Pid) (command : Option CString) (res : Residue) (frame : ExecuteFrame)
  | getargs (caller : Pid) (buf : Option Word) (nbytes : Int)
  | halt (caller : Pid)
  | interrupts (sched : Scheduler) (terms : Terminals) (kbd : Keyboard) (video : Video)

/-- The kernel when `caller` enters a system call. -/
def Kernel.enter (k : Kernel) (caller : Pid) : Kernel := (k.runAs caller).cli

/-- One call. A call of `execute` ends here when it returns or when the new process starts. It is
one step, also where `close` of the real-time clock has left interrupts enabled: of a program that
is loaded from an entry of the clock, only the calls that are not interrupted are runs of this
step. -/
def processStep (img : FsImage) (k : Kernel) : ProcessCall → Option Kernel
  | .execute caller command res frame =>
      if caller = sentinelProcess ∨ k.Live caller then
        match execute img res frame (k.enter caller) command with
        | .returned _ k' => some k'
        | .stuck => none
        | .started _ k' => some k'
      else none
  | .getargs caller buf nbytes =>
      if caller ≠ sentinelProcess ∧ k.Live caller then
        some (getargs (k.enter caller) buf nbytes).kernel
      else none
  | .halt caller =>
      if caller ≠ sentinelProcess ∧ k.Live caller then some (halted (halt (k.enter caller)))
      else none
  | .interrupts sched terms kbd video =>
      some { k with sched := sched, terms := terms, kbd := kbd, video := video }

/-- What a call comes to. -/
inductive ProcessEffect (img : FsImage) (k : Kernel) : ProcessCall → Kernel → Prop
  | refused {caller : Pid} {command : Option CString} {res : Residue} {frame : ExecuteFrame}
      {v : Int} {k' : Kernel} (hcaller : caller = sentinelProcess ∨ k.Live caller)
      (hexec : execute img res frame (k.enter caller) command = .returned v k') :
      ProcessEffect img k (.execute caller command res frame) k'
  | started {caller : Pid} {command : Option CString} {res : Residue} {frame : ExecuteFrame}
      {entry : Word} {k' : Kernel} (hcaller : caller = sentinelProcess ∨ k.Live caller)
      (hexec : execute img res frame (k.enter caller) command = .started entry k') :
      ProcessEffect img k (.execute caller command res frame) k'
  | getargs {caller : Pid} {buf : Option Word} {nbytes : Int}
      (hcaller : caller ≠ sentinelProcess ∧ k.Live caller) :
      ProcessEffect img k (.getargs caller buf nbytes) (getargs (k.enter caller) buf nbytes).kernel
  | halt {caller : Pid} (hcaller : caller ≠ sentinelProcess ∧ k.Live caller) :
      ProcessEffect img k (.halt caller) (halted (halt (k.enter caller)))
  | interrupts (sched : Scheduler) (terms : Terminals) (kbd : Keyboard) (video : Video) :
      ProcessEffect img k (.interrupts sched terms kbd video)
        { k with sched := sched, terms := terms, kbd := kbd, video := video }

theorem effect_of_processStep {img : FsImage} {k k' : Kernel} {c : ProcessCall}
    (h : processStep img k c = some k') : ProcessEffect img k c k' := by
  cases c with
  | execute caller command res frame =>
      simp only [processStep] at h
      split at h
      next hcaller =>
        split at h
        next hexec =>
          obtain rfl := Option.some.inj h
          exact .refused hcaller hexec
        next => cases h
        next hexec =>
          obtain rfl := Option.some.inj h
          exact .started hcaller hexec
      next => cases h
  | getargs caller buf nbytes =>
      simp only [processStep] at h
      split at h
      next hcaller =>
        obtain rfl := Option.some.inj h
        exact .getargs hcaller
      next => cases h
  | halt caller =>
      simp only [processStep] at h
      split at h
      next hcaller =>
        obtain rfl := Option.some.inj h
        exact .halt hcaller
      next => cases h
  | interrupts sched terms kbd video =>
      obtain rfl := Option.some.inj h
      exact .interrupts sched terms kbd video

end Ece391Os
