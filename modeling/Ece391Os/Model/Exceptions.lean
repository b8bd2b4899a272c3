import Ece391Os.Model.SystemCall

/-!
# Exceptions and the end of a program

The handlers of `exception-handlers.c` in the order of the interrupt descriptor table, and the
ways in which a program ends: it passes a status to `halt`, or it raises an exception whose
handler calls `SYS_HALT`. `ExitMachine` follows the calls of a run together with how each program
ended and what the `execute` that had started it returned.
-/

set_option autoImplicit false

namespace Ece391Os

/-! ## The handlers -/

/-- An exception handler: what it prints, and the status that it passes to `SYS_HALT`. Without one
it loops. -/
structure ExceptionHandler where
  message : String
  status : Option Word
  deriving DecidableEq

/-- A handler that ends the program. -/
def haltHandler (message : String) : ExceptionHandler := ⟨message, some 256⟩

/-- A handler that waits forever. -/
def waitHandler (message : String) : ExceptionHandler := ⟨message, none⟩

def exceptionDivZero := haltHandler "Exception: Divide by Zero\n"
def exceptionDebug := waitHandler "Exception: Debug\n"
def exceptionNonmaskableInterrupt := waitHandler "Exception: Non-maskable Interrupt\n"
def exceptionBreakpoint := waitHandler "Exception: Breakpoint\n"
def exceptionOverflow := haltHandler "Exception: overflow\n"
def exceptionBoundRangeExceeded := haltHandler "Exception: Breakpoint\n"
def exceptionInvalidOpcode := haltHandler "Exception: Invalid opcode\n"
def exceptionDeviceNotAvailable := waitHandler "Exception: Device Not Available\n"
def exceptionDoubleFault := waitHandler "Exception: Double Fault\n"
def exceptionCoprocessorSegmentOverrun := waitHandler "Exception: CoProcessor Segment Overun\n"
def exceptionInvalidTSS := waitHandler "Exception: Invalid TSS\n"
def exceptionSegmentNotPresent := waitHandler "Exception: Segment Not Present\n"
def exceptionPageFault := haltHandler "Exception: Page Fault\n"
def exceptionReserved := waitHandler "Exception: Reserved. How did you get here?\n"
def exceptionX87FloatingPoint := waitHandler "Exception: x87 Floating-Point Exception\n"
def exceptionAlignmentCheck := waitHandler "Exception: Alignment Check\n"
def exceptionMachineCheck := waitHandler "Exception: Machine Check\n"
def exceptionSIMDFloatingPoint := waitHandler "Exception: SIMD Floating-Point Exception\n"
def exceptionVirtualization := waitHandler "Exception: Virtualization Exception\n"
def exceptionSecurity := waitHandler "Exception: Security Exception\n"
def exceptionGeneralProtectionFault := haltHandler "Exception: General Protection Fault\n"
def exceptionStackSegmentFault := haltHandler "Exception: Stack Segment Fault\n"

/-- The first 32 entries of the interrupt descriptor table. -/
def idt : Fin 32 → ExceptionHandler
  | 0x00 => exceptionDivZero
  | 0x01 => exceptionDebug
  | 0x02 => exceptionNonmaskableInterrupt
  | 0x03 => exceptionBreakpoint
  | 0x04 => exceptionOverflow
  | 0x05 => exceptionBoundRangeExceeded
  | 0x06 => exceptionInvalidOpcode
  | 0x07 => exceptionDeviceNotAvailable
  | 0x08 => exceptionDoubleFault
  | 0x09 => exceptionCoprocessorSegmentOverrun
  | 0x0A => exceptionInvalidTSS
  | 0x0B => exceptionSegmentNotPresent
  | 0x0C => exceptionStackSegmentFault
  | 0x0D => exceptionGeneralProtectionFault
  | 0x0E => exceptionPageFault
  | 0x10 => exceptionX87FloatingPoint
  | 0x11 => exceptionAlignmentCheck
  | 0x12 => exceptionMachineCheck
  | 0x13 => exceptionSIMDFloatingPoint
  | 0x14 => exceptionVirtualization
  | 0x1E => exceptionSecurity
  | _ => exceptionReserved

/-! ## The end of a program -/

/-- How a program ends. -/
inductive Ending where
  | halt (status : Word)
  | exception (vector : Fin 32)
  deriving DecidableEq

/-- The argument of `SYS_HALT` in `EBX`, if the end comes to that. -/
def Ending.arg : Ending → Option Word
  | .halt status => some status
  | .exception vector => (idt vector).status

/-- The parameter `uint8_t status` of `halt`. -/
def haltParam (arg : Word) : UInt8 := UInt8.ofNat arg.toNat

/-- A program that has ended: the process, how it ended, the process and the saved stack pointer of
the `execute` that had started it, and the process, the stack pointer and the value with which
`execute` returns. -/
structure ProgramExit where
  child : Pid
  ending : Ending
  origin : Pid × Word
  parent : Pid
  esp : Word
  value : Int
  deriving DecidableEq

/-- The calls of a run, how each process is about to end, which call of `execute` started it, and
the returns of `execute` after the end of a program. -/
structure ExitMachine where
  calls : CallMachine
  ending : Pid → Ending
  origin : Pid → Pid × Word
  exits : List ProgramExit

/-- What can happen: the program on the processor ends, keyboard interrupts change the terminals,
the keyboard driver and the text pages, or a call makes a step. -/
inductive ExitEvent where
  | finish (ending : Ending)
  | devices (terms : Terminals) (kbd : Keyboard) (video : Video)
  | step (e : CallEvent)

namespace ExitMachine

/-- The program calls `halt`, or a handler does for it; an exception can come up in the program or
in a system call. -/
def finish (m : ExitMachine) (ending : Ending) : Option ExitMachine :=
  let c := m.calls
  let entered (arg : Word) : ExitMachine :=
    { m with
      calls := { c.goto (.handler (.halt (haltParam arg))) with kernel := c.kernel.cli }
      ending := Function.update m.ending c.running ending }
  match c.phase c.running, ending with
  | .user, .halt status => some (entered status)
  | .user, .exception vector => (idt vector).status.map entered
  | .handler _, .exception vector => (idt vector).status.map entered
  | _, _ => none

/-- The new process remembers the `execute` that started it. -/
def spawned (m : ExitMachine) (c : CallMachine) : ExitMachine :=
  match m.calls.phase m.calls.running with
  | .handler (.execute _ frame) =>
      { m with
        calls := c
        origin := Function.update m.origin c.running (m.calls.running, frame.esp) }
  | _ => { m with calls := c }

/-- The code at `HALTED`: with the sentinel as parent a new shell is executed, else `execute` goes
on at the stack pointer that the control block of the ended process holds. -/
def exited (m : ExitMachine) (c : CallMachine) : ExitMachine :=
  let child := m.calls.running
  match c.phase c.running with
  | .returned value _ =>
      { m with
        calls := c
        exits := m.exits ++ [⟨child, m.ending child, m.origin child, c.running,
          (c.kernel.procs.controlBlocks c.kernel.procs.pastPid).stackPos, value⟩] }
  | _ => { m with calls := c }

/-- One step. A program calls `halt` by `finish`. -/
def step (img : FsImage) (m : ExitMachine) : ExitEvent → Option ExitMachine
  | .finish ending => m.finish ending
  | .devices terms kbd video =>
      let k := { m.calls.kernel with terms := terms, kbd := kbd, video := video }
      some { m with calls := { m.calls with kernel := k } }
  | .step (.call (.halt _)) => none
  | .step (.spawn res) => (m.calls.step img (.spawn res)).map m.spawned
  | .step .halt => (m.calls.step img .halt).map m.exited
  | .step e => (m.calls.step img e).map fun c => { m with calls := c }

end ExitMachine

end Ece391Os
