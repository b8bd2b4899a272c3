import Mathlib.Algebra.GroupWithZero.Nat
import Mathlib.Data.Fin.Basic
import Mathlib.Logic.Function.Basic

/-!
# Kernel state

The global variables of the kernel, grouped by the source file that owns them:
process control blocks (`process_control.h`), schedule stacks (`syscalls.h`,
`interrupts.h`), terminals (`terminal.h`), line buffers and history
(`keyboard.c`), text memory (`lib.c`, `interrupts.h`) and the real-time clock
(`rtc_driver.c`). `Kernel` is the record of all of them together with the
interrupt flag of the processor.

Arrays are functions of their index. An `int` that indexes an array is an
`Int`, a 32-bit quantity that wraps or is compared bit by bit is a `Word`, and
the numbers of terminals and processes are the index types `Terminal` and `Pid`.
-/

set_option autoImplicit false

namespace Ece391Os

/-- A 32-bit machine word. -/
abbrev Word := BitVec 32

/-- `NUM_TERMINALS` is 3. -/
abbrev Terminal := Fin 3

/-- `TOTAL_PROCESSES` is 7: the sentinel `0` and the processes `1` to `6`. -/
abbrev Pid := Fin 7

/-! The literals of `Terminal`, `Pid` and the numbers of descriptors need these three facts. -/

instance neZero_terminals : NeZero 3 := ⟨by decide⟩
instance neZero_processes : NeZero 7 := ⟨by decide⟩
instance neZero_descriptors : NeZero 8 := ⟨by decide⟩

/-- A terminal number is a process number. -/
theorem terminals_le_processes : 3 ≤ 7 := by decide

/-! ## Constants of the headers -/

def sentinelProcess : Pid := 0
def maxProcesses : Int := 6
def fdtSize : Nat := 8
def execBufferSize : Nat := 128
def argsBufferSize : Nat := 1024
def maxDirEntries : Nat := 63
def fileSize : Nat := 4096
def filenameSize : Nat := 32
def maxBufferSize : Nat := 128
def maxCharacters : Nat := 127
def numHistoryBuffers : Int := 20
def numCols : Int := 80
def numRows : Int := 25

/-- `M_4`, the size of a program page. -/
def m4 : Nat := 0x400000

/-- `K_4`; a kernel stack takes `2 * K_4` bytes. -/
def k4 : Nat := 0x4000

/-- `KERNEL_ADDR`. -/
def kernelAddr : Nat := 0x400000

/-- `KERNEL_DS`. -/
def kernelDs : Word := 0x18

/-- `PAGE_ARGS`: present, writable, user, 4 MB page. -/
def pageArgs : Nat := 0x87

/-! ## Process control blocks -/

/-- The operation tables a descriptor can point to. -/
inductive OpTable where
  | stdin
  | stdout
  | file
  | dir
  | rtc
  deriving DecidableEq, Repr

/-- `fd_block_t`; a `NULL` operation pointer is `none`. -/
structure FdBlock where
  fileOperationsPointer : Option OpTable
  inode : Word
  filePosition : Word
  flags : Word
  deriving DecidableEq, Repr

/-- The eight descriptors of a process. -/
abbrev FdTable := Fin 8 → FdBlock

/-- `pcb_t`. The `pid` field is `-1` in a free block. -/
structure Pcb where
  fdTable : FdTable
  pid : Int
  parent : Pid
  stackPos : Word
  ss : Word
  esp : Word
  args : Nat → UInt8

/-- Globals of `process_control.h`. -/
structure Processes where
  controlBlocks : Pid → Pcb
  numActiveProcesses : Int
  currentPid : Pid
  pastPid : Pid

/-! ## Schedule stacks -/

/-- The fields of the task state segment that the kernel writes. -/
structure Tss where
  esp0 : Word
  ss0 : Word
  deriving DecidableEq, Repr

/-- Globals of the scheduler. `terminalRequest` is `none` for the value `-1`, and
`scheduleTick` is the one-bit toggle of `timer_handler`. -/
structure Scheduler where
  scheduleTop : Terminal → Int
  scheduleStack : Terminal → Int → Pid
  scheduleEsp : Terminal → Int → Word
  scheduleEbp : Terminal → Int → Word
  scheduleTss : Terminal → Int → Tss
  currentProcess : Terminal
  terminalRequest : Option Terminal
  scheduleTick : Bool
  lastEsp : Word
  lastEbp : Word
  tss : Tss

/-! ## Terminals -/

/-- A 128-byte row of a character array; the bytes from index 128 on are the
memory behind the row. -/
abbrev Row := Nat → UInt8

/-- The values of `return_switch`. -/
inductive Switch where
  | off
  | on
  | hold
  deriving DecidableEq, Repr

/-- Globals of `terminal.c` and `terminal.h`. `switchCursor` holds the two 8-bit
cursor fields of `switch_data_arr`. -/
structure Terminals where
  currentTerminal : Terminal
  terminalRunning : Terminal → Bool
  shellPid : Terminal → Pid
  returnSwitch : Terminal → Switch
  readBuffer : Terminal → Row
  switchCursor : Terminal → UInt8 × UInt8

/-! ## Keyboard -/

/-- Globals of `keyboard.c`. The counters `bufferIDX` and `bufferSIZE` are unsigned
bytes. -/
structure Keyboard where
  shiftDown : Bool
  capsLock : Bool
  ctrlDown : Bool
  altDown : Bool
  keyFlag : Bool
  buffer : Terminal → Row
  bufferIDX : Terminal → Nat
  bufferSIZE : Terminal → Nat
  history : Pid → Int → Row
  historyIDX : Pid → Int
  historyBASE : Pid → Int
  historySIZE : Pid → Int

/-! ## Text memory -/

/-- A character cell: character and attribute. -/
abbrev Cell := UInt8 × UInt8

/-- A page of text memory, by cell index `80 * y + x`; other indices are the memory
around the page. -/
abbrev Page := Int → Cell

/-- The physical text pages: the screen at `VIDEO` and the backing page
`VIDEO_1 + 0x1000 * t` of a terminal. -/
inductive FrameRef where
  | screen
  | backing (t : Terminal)
  deriving DecidableEq, Repr

/-- The values of the pointer `video_mem`. -/
inductive VideoPtr where
  | video
  | vidmap
  | backing (t : Terminal)
  deriving DecidableEq, Repr

/-- Text pages, cursor, and the page-table entries that the timer and `execute`
write. -/
structure Video where
  screen : Page
  backing : Terminal → Page
  screenX : Int
  screenY : Int
  videoMem : VideoPtr
  vidEntry : FrameRef
  programPage : Nat

/-! ## Real-time clock -/

/-- Register A of the clock and the globals `rtc_running` and
`rtc_virtual_interupt`. -/
structure Rtc where
  register : UInt8
  rtcRunning : Terminal → Int
  rtcVirtualInterupt : Terminal → Int

/-! ## The kernel -/

/-- All globals, the program image in the page of each process (by offset from
`VIRTUAL_START`), and the interrupt flag. -/
structure Kernel where
  procs : Processes
  sched : Scheduler
  terms : Terminals
  kbd : Keyboard
  video : Video
  rtc : Rtc
  programMem : Pid → Nat → UInt8
  interrupts : Bool

namespace Kernel

/-- `cli`. -/
def cli (k : Kernel) : Kernel := { k with interrupts := false }

/-- `sti`. -/
def sti (k : Kernel) : Kernel := { k with interrupts := true }

/-- `control_blocks[pid].fd_table`. -/
def fdTableOf (k : Kernel) (pid : Pid) : FdTable := (k.procs.controlBlocks pid).fdTable

/-- `control_blocks[current_pid].fd_table`. -/
def fdTable (k : Kernel) : FdTable := k.fdTableOf k.procs.currentPid

/-- Assignment to a field of one control block. -/
def setPcb (k : Kernel) (pid : Pid) (b : Pcb) : Kernel :=
  { k with procs := { k.procs with
      controlBlocks := Function.update k.procs.controlBlocks pid b } }

/-- `control_blocks[current_pid].fd_table[fd] = b`. -/
def setFd (k : Kernel) (fd : Fin 8) (b : FdBlock) : Kernel :=
  let pcb := k.procs.controlBlocks k.procs.currentPid
  k.setPcb k.procs.currentPid { pcb with fdTable := Function.update pcb.fdTable fd b }

/-- The kernel with `pid` on the processor: the assignment to `current_pid` with which the
timer hands over. -/
def runAs (k : Kernel) (pid : Pid) : Kernel :=
  { k with procs := { k.procs with currentPid := pid } }

/-- A process is live when its control block is taken. -/
def Live (k : Kernel) (pid : Pid) : Prop := (k.procs.controlBlocks pid).pid ≠ -1

instance (k : Kernel) (pid : Pid) : Decidable (k.Live pid) :=
  inferInstanceAs (Decidable ((k.procs.controlBlocks pid).pid ≠ -1))

/-- `control_blocks[pid].parent`. -/
def parent (k : Kernel) (pid : Pid) : Pid := (k.procs.controlBlocks pid).parent

/-- `schedule_stack[t][schedule_top[t] - 1]`. -/
def topPid (k : Kernel) (t : Terminal) : Pid :=
  k.sched.scheduleStack t (k.sched.scheduleTop t - 1)

@[simp] theorem cli_procs (k : Kernel) : k.cli.procs = k.procs := rfl
@[simp] theorem cli_sched (k : Kernel) : k.cli.sched = k.sched := rfl
@[simp] theorem cli_terms (k : Kernel) : k.cli.terms = k.terms := rfl
@[simp] theorem cli_kbd (k : Kernel) : k.cli.kbd = k.kbd := rfl
@[simp] theorem cli_rtc (k : Kernel) : k.cli.rtc = k.rtc := rfl
@[simp] theorem cli_interrupts (k : Kernel) : k.cli.interrupts = false := rfl
@[simp] theorem cli_fdTable (k : Kernel) : k.cli.fdTable = k.fdTable := rfl
@[simp] theorem cli_fdTableOf (k : Kernel) (p : Pid) : k.cli.fdTableOf p = k.fdTableOf p := rfl
@[simp] theorem sti_procs (k : Kernel) : k.sti.procs = k.procs := rfl
@[simp] theorem sti_sched (k : Kernel) : k.sti.sched = k.sched := rfl
@[simp] theorem sti_terms (k : Kernel) : k.sti.terms = k.terms := rfl
@[simp] theorem sti_kbd (k : Kernel) : k.sti.kbd = k.kbd := rfl
@[simp] theorem sti_rtc (k : Kernel) : k.sti.rtc = k.rtc := rfl
@[simp] theorem sti_interrupts (k : Kernel) : k.sti.interrupts = true := rfl
@[simp] theorem sti_fdTable (k : Kernel) : k.sti.fdTable = k.fdTable := rfl
@[simp] theorem sti_fdTableOf (k : Kernel) (p : Pid) : k.sti.fdTableOf p = k.fdTableOf p := rfl

@[simp] theorem runAs_currentPid (k : Kernel) (p : Pid) : (k.runAs p).procs.currentPid = p := rfl
@[simp] theorem runAs_fdTable (k : Kernel) (p : Pid) : (k.runAs p).fdTable = k.fdTableOf p := rfl
@[simp] theorem runAs_fdTableOf (k : Kernel) (p q : Pid) :
    (k.runAs p).fdTableOf q = k.fdTableOf q := rfl

@[simp] theorem setFd_fdTable (k : Kernel) (fd : Fin 8) (b : FdBlock) :
    (k.setFd fd b).fdTable = Function.update k.fdTable fd b := by
  simp [setFd, setPcb, fdTable, fdTableOf]

/-- Descriptors of the other processes are not touched. -/
theorem setFd_fdTableOf_ne (k : Kernel) (fd : Fin 8) (b : FdBlock) {p : Pid}
    (hp : p ≠ k.procs.currentPid) : (k.setFd fd b).fdTableOf p = k.fdTableOf p := by
  simp [setFd, setPcb, fdTableOf, Function.update_of_ne hp]

@[simp] theorem setFd_currentPid (k : Kernel) (fd : Fin 8) (b : FdBlock) :
    (k.setFd fd b).procs.currentPid = k.procs.currentPid := rfl

end Kernel

end Ece391Os
