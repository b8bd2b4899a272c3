import Ece391Os.Model.Keyboard
import Ece391Os.Model.Processes
import Ece391Os.Model.Scheduler

/-!
# `execute` and `halt`

`execute` of `syscalls.c` in two parts: `executeLoad` opens the named entry, reads it into
the local array `buf` and tests the first four bytes; `executeSpawn` builds the process and
ends in the `iret` to its entry point. `halt` continues at the label `HALTED` of the
`execute` that started the process.
-/

set_option autoImplicit false

namespace Ece391Os

/-- `length` in `execute`. -/
def executeLength : Int := 10000

/-- The bytes of `MAGIC_LEAD` in memory: `0x7f`, `E`, `L`, `F`. -/
def magicLead : List UInt8 := [0x7f, 0x45, 0x4c, 0x46]

/-- The stack frame of a call of `execute`: the stack pointer that it saves, and the address
of its local array `buf`. -/
structure ExecuteFrame where
  esp : Word
  buf : Word

/-- The first word of a command, copied to `cmd`. -/
def commandWord (command : CString) : CString := command.takeWhile fun c => c ≠ 32 ∧ c ≠ 0

/-- The command behind its first word and the spaces after it. -/
def commandArgs (command : CString) : CString :=
  (command.drop (commandWord command).length).dropWhile (· = 32)

/-- How the first part of `execute` ends: with a return value, stuck in the kernel, or with
the program in `buf`. -/
inductive LoadResult where
  | returned (value : Int) (kernel : Kernel)
  | stuck
  | loaded (buf : Nat → UInt8) (kernel : Kernel)

/-- `execute` up to the test of the magic number. The value of `read` is ignored, and so is
that of `close`. -/
def executeLoad (img : FsImage) (res : Residue) (frame : ExecuteFrame) (k : Kernel)
    (command : Option CString) : LoadResult :=
  match command with
  | none => .returned (-1) k
  | some command =>
      if k.procs.numActiveProcesses ≥ maxProcesses then .returned (-1) k
      else if command.strlen ≥ execBufferSize then .returned (-1) k
      else
        let opened := sysOpen img res k (some (commandWord command))
        if opened.1 = -1 then .returned (-1) opened.2
        else
          let r := sysRead img res opened.2 opened.1 (some frame.buf) executeLength
          match r.exit with
          -- a fault and a read without end are inside the kernel: `execute` never goes on
          | .pageFault => .stuck
          | .endless => .stuck
          | .returned _ =>
              let k := (sysClose r.kernel opened.1).2
              -- bytes that the read did not store are those that the stack held before
              let buf := applyStores res.buf r.stores
              if (List.range 4).map buf = magicLead then .loaded buf k else .returned (-1) k

/-- What the first part of `execute` does. -/
inductive LoadEffect (img : FsImage) (res : Residue) (frame : ExecuteFrame) (k : Kernel) :
    Option CString → LoadResult → Prop
  | noCommand : LoadEffect img res frame k none (.returned (-1) k)
  | full {command : CString} (hfull : maxProcesses ≤ k.procs.numActiveProcesses) :
      LoadEffect img res frame k (some command) (.returned (-1) k)
  | long {command : CString} (hnum : k.procs.numActiveProcesses < maxProcesses)
      (hlong : execBufferSize ≤ command.strlen) :
      LoadEffect img res frame k (some command) (.returned (-1) k)
  | notOpened {command : CString} (hnum : k.procs.numActiveProcesses < maxProcesses)
      (hlen : command.strlen < execBufferSize)
      (hopen : (sysOpen img res k (some (commandWord command))).1 = -1) :
      LoadEffect img res frame k (some command)
        (.returned (-1) (sysOpen img res k (some (commandWord command))).2)
  | notRead {command : CString} : LoadEffect img res frame k (some command) .stuck
  | notExecutable {command : CString} (hnum : k.procs.numActiveProcesses < maxProcesses)
      (hlen : command.strlen < execBufferSize)
      (hopen : (sysOpen img res k (some (commandWord command))).1 ≠ -1) :
      LoadEffect img res frame k (some command) (.returned (-1)
        (sysClose (sysRead img res (sysOpen img res k (some (commandWord command))).2
          (sysOpen img res k (some (commandWord command))).1 (some frame.buf)
          executeLength).kernel (sysOpen img res k (some (commandWord command))).1).2)
  | loaded {command : CString} {v : Int} (hnum : k.procs.numActiveProcesses < maxProcesses)
      (hlen : command.strlen < execBufferSize)
      (hopen : (sysOpen img res k (some (commandWord command))).1 ≠ -1)
      (hread : (sysRead img res (sysOpen img res k (some (commandWord command))).2
        (sysOpen img res k (some (commandWord command))).1 (some frame.buf)
        executeLength).exit = .returned v) :
      LoadEffect img res frame k (some command) (.loaded
        (applyStores res.buf (sysRead img res (sysOpen img res k (some (commandWord command))).2
          (sysOpen img res k (some (commandWord command))).1 (some frame.buf)
          executeLength).stores)
        (sysClose (sysRead img res (sysOpen img res k (some (commandWord command))).2
          (sysOpen img res k (some (commandWord command))).1 (some frame.buf)
          executeLength).kernel (sysOpen img res k (some (commandWord command))).1).2)

theorem effect_of_executeLoad {img : FsImage} {res : Residue} {frame : ExecuteFrame} {k : Kernel}
    {command : Option CString} {r : LoadResult}
    (h : executeLoad img res frame k command = r) : LoadEffect img res frame k command r := by
  subst h
  cases command with
  | none => exact .noCommand
  | some command =>
      simp only [executeLoad]
      split
      next hfull => exact .full hfull
      next hnum =>
        split
        next hlong => exact .long (not_le.mp hnum) hlong
        next hlen =>
          split
          next hopen => exact .notOpened (not_le.mp hnum) (not_le.mp hlen) hopen
          next hopen =>
            split
            · exact .notRead
            · exact .notRead
            next v hread =>
              split
              · exact .loaded (not_le.mp hnum) (not_le.mp hlen) hopen hread
              · exact .notExecutable (not_le.mp hnum) (not_le.mp hlen) hopen

/-- The word that starts at index `i` of a byte array. -/
def wordAt (bytes : Nat → UInt8) (i : Nat) : Word :=
  BitVec.ofNat 32 ((bytes i).toNat + 256 * (bytes (i + 1)).toNat +
    65536 * (bytes (i + 2)).toNat + 16777216 * (bytes (i + 3)).toNat)

/-- `shell`. -/
def shellName : CString := [115, 104, 101, 108, 108]

/-- The comparison of `cmd` with `shell`. -/
def isShell (cmd : CString) : Bool :=
  strncmp cmd.charAt shellName.charAt shellName.strlen = 0 && cmd.strlen = shellName.strlen

/-- The arguments of the new process: cleared, or copied without a terminating `NUL`. -/
def moveArgs (k : Kernel) (command : CString) : Kernel :=
  let args := commandArgs command
  if args.charAt 0 = 0 then clearArgs k
  else
    let pcb := k.procs.controlBlocks k.procs.currentPid
    k.setPcb k.procs.currentPid { pcb with args := strncpy pcb.args args args.strlen }

/-- The process-independent end of `execute`: page tables, line buffer, history, text page,
program image and schedule stack of the new current process. -/
def enterProgram (k : Kernel) (buf : Nat → UInt8) : Kernel :=
  let pid := k.procs.currentPid
  -- the line is that of the displayed terminal, whichever terminal the caller belongs to
  let k := clearHistoryBuffer (clearKeyboardBuffer k) pid
  let t := k.terms.currentTerminal
  schedule { k with
    video := { k.video with
      programPage := programPageOf pid
      vidEntry := .screen
      videoMem := .vidmap }
    programMem := Function.update k.programMem pid fun i =>
      if i < executeLength.toNat then buf i else k.programMem pid i
    terms := { k.terms with terminalRunning := Function.update k.terms.terminalRunning t true } }

/-- `execute` behind `create_new_pcb`, which has returned `pid`, up to the `iret`. -/
def spawnProcess (frame : ExecuteFrame) (k : Kernel) (pid : Pid) (command : CString)
    (buf : Nat → UInt8) : Kernel :=
  let k := k.runAs pid
  -- the stack pointer that `halt` will go back to is that of this call
  let k := k.setPcb pid { k.procs.controlBlocks pid with stackPos := frame.esp }
  let t := k.terms.currentTerminal
  let k := if isShell (commandWord command) then
      { k with terms := { k.terms with
          shellPid := Function.update k.terms.shellPid t pid } }
    else k
  let k := { k with sched := { k.sched with tss := ⟨esp0Of pid, kernelDs⟩ } }
  let k := loadPcb k pid kernelDs (esp0Of pid)
  enterProgram (moveArgs k command) buf

/-- `execute` from the creation of the control block to the `iret`; `none` if there is no free
control block, which `execute` does not test. -/
def executeSpawn (frame : ExecuteFrame) (k : Kernel) (command : CString) (buf : Nat → UInt8) :
    Option Kernel :=
  match createNewPcb k k.procs.currentPid with
  | none => none
  | some (pid, k) => some (spawnProcess frame k pid command buf)

/-- How `execute` ends, from the point of view of its caller: it returns, it is stuck in the
kernel, or a new process starts at `entry`. -/
inductive ExecuteResult where
  | returned (value : Int) (kernel : Kernel)
  | stuck
  | started (entry : Word) (kernel : Kernel)

/-- `execute`, up to the `iret`. -/
def execute (img : FsImage) (res : Residue) (frame : ExecuteFrame) (k : Kernel)
    (command : Option CString) : ExecuteResult :=
  match executeLoad img res frame k command with
  | .returned v k => .returned v k
  | .stuck => .stuck
  | .loaded buf k =>
      match executeSpawn frame k (command.getD []) buf with
      | none => .stuck
      | some k => .started (wordAt buf 24) k

/-- `halt`, up to the jump. `pcb_close`, which it calls for each descriptor, is empty. -/
def halt (k : Kernel) : Kernel :=
  let pid := k.procs.currentPid
  let parent := k.parent pid
  -- the code at `HALTED` finds the stack pointer of the child through `past_pid`
  let k := destroyPcb { k with procs := { k.procs with pastPid := pid } } pid
  let k := k.runAs parent
  { k.cli with
    sched := { k.sched with tss := { k.sched.tss with
      esp0 := (k.procs.controlBlocks parent).esp } }
    video := { k.video with programPage := programPageOf parent } }

/-- The code at `HALTED` up to its `sti`. The kernel stack is now that of the `execute` that
started the process; if the current process is the sentinel, a new shell is executed. -/
def halted (k : Kernel) : Kernel := (deschedule k).sti

end Ece391Os
