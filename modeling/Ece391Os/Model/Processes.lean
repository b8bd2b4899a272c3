import Ece391Os.Model.Drivers

/-!
# Process control blocks

`process_control.c`: allocation and release of control blocks, the argument buffer, and
the state that the initialisation in `kernel.c` leaves before the first program is
executed.
-/

set_option autoImplicit false

namespace Ece391Os

/-- The loop of `clear_args` on an argument buffer, from index `i` with `n` bytes left: it
stops at the first `NUL`. -/
def clearArgsFrom : Nat → Nat → (Nat → UInt8) → (Nat → UInt8)
  | 0, _, args => args
  | n + 1, i, args =>
      if args i = 0 then args else clearArgsFrom n (i + 1) (Function.update args i 0)

/-- `clear_args`, which works on `current_pid`. -/
def clearArgs (k : Kernel) : Kernel :=
  let pcb := k.procs.controlBlocks k.procs.currentPid
  k.setPcb k.procs.currentPid { pcb with args := clearArgsFrom argsBufferSize 0 pcb.args }

/-- The control blocks that `create_new_pcb` searches. -/
def pcbSlots : List Pid := [1, 2, 3, 4, 5, 6]

/-- The first free control block. -/
def freePid (k : Kernel) : Option Pid :=
  pcbSlots.find? fun i => (k.procs.controlBlocks i).pid = -1

/-- The descriptors of a new control block: `0` and `1` are left as they are. -/
def FdTable.reset (fds : FdTable) : FdTable := fun i =>
  if 2 ≤ i.val then (fds i).cleared else fds i

/-- What `create_new_pcb` stores in the block that it has found. -/
def claimPcb (k : Kernel) (pid parent : Pid) : Kernel :=
  let pcb := k.procs.controlBlocks pid
  k.setPcb pid { pcb with pid := pid.val, parent := parent, fdTable := pcb.fdTable.reset }

/-- Assignment to `num_active_processes`. -/
def Kernel.setActive (k : Kernel) (n : Int) : Kernel :=
  { k with procs := { k.procs with numActiveProcesses := n } }

/-- `create_new_pcb`; `none` is `FAILURE`. -/
def createNewPcb (k : Kernel) (parent : Pid) : Option (Pid × Kernel) :=
  match freePid k with
  | none => none
  | some pid =>
      let k := claimPcb k pid parent
      let k := k.setActive (k.procs.numActiveProcesses + 1)
      -- `current_pid` is still the parent: its arguments are cleared, not those of the new block
      some (pid, clearArgs k)

/-- `load_pcb`. -/
def loadPcb (k : Kernel) (pid : Pid) (ss esp : Word) : Kernel :=
  k.setPcb pid { k.procs.controlBlocks pid with ss := ss, esp := esp }

/-- `destroy_pcb`. -/
def destroyPcb (k : Kernel) (pid : Pid) : Kernel :=
  let k := k.setPcb pid { k.procs.controlBlocks pid with pid := -1 }
  { k with procs := { k.procs with numActiveProcesses := k.procs.numActiveProcesses - 1 } }

/-! ## Boot -/

/-- The descriptors that `process_control_block_init` gives to every control block. -/
def initialFds : FdTable := fun i =>
  if i = 0 then ⟨some .stdin, 0, 0, 1⟩
  else if i = 1 then ⟨some .stdout, 0, 0, 1⟩
  else ⟨none, freeFlags, 0, freeFlags⟩

/-- A control block after `process_control_block_init` and `first_process_init`: block `0`
belongs to the sentinel, which is its own parent. -/
def initialPcb (espBoot : Word) (pid : Pid) : Pcb where
  fdTable := initialFds
  pid := if pid = sentinelProcess then 0 else -1
  parent := sentinelProcess
  stackPos := 0
  ss := if pid = sentinelProcess then kernelDs else 0
  esp := if pid = sentinelProcess then espBoot else 0
  args := fun _ => 0

/-- The kernel when `entry` is about to execute the first program, with interrupts still
disabled. `espBoot` is the stack pointer that `first_process_init` records. -/
def bootKernel (espBoot : Word) : Kernel where
  procs :=
    { controlBlocks := initialPcb espBoot
      numActiveProcesses := 0
      currentPid := sentinelProcess
      pastPid := sentinelProcess }
  sched :=
    { scheduleTop := fun _ => 0
      scheduleStack := fun _ _ => 0
      scheduleEsp := fun _ _ => 0
      scheduleEbp := fun _ _ => 0
      scheduleTss := fun _ _ => ⟨0, 0⟩
      currentProcess := 0
      terminalRequest := none
      scheduleTick := false
      lastEsp := 0
      lastEbp := 0
      tss := ⟨0x800000, kernelDs⟩ }
  terms :=
    { currentTerminal := 0
      terminalRunning := fun _ => false
      shellPid := fun _ => 0
      returnSwitch := fun _ => .off
      readBuffer := fun _ _ => 0
      switchCursor := fun _ => (0, 0) }
  kbd :=
    { shiftDown := false
      capsLock := false
      ctrlDown := false
      altDown := false
      keyFlag := false
      buffer := fun _ _ => 0
      bufferIDX := fun _ => 0
      bufferSIZE := fun _ => 0
      history := fun _ _ _ => 0
      historyIDX := fun _ => 0
      historyBASE := fun _ => 0
      historySIZE := fun _ => 0 }
  video :=
    { screen := fun _ => blankCell
      backing := fun _ _ => (0, 0)
      screenX := 0
      screenY := 0
      videoMem := .video
      vidEntry := .screen
      programPage := 0 }
  rtc :=
    { register := 0
      rtcRunning := fun _ => 2
      rtcVirtualInterupt := fun _ => 0 }
  programMem := fun _ _ => 0
  interrupts := false

end Ece391Os
