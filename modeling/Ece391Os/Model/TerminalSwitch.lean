import Ece391Os.Model.Syscalls

/-!
# Switching terminals

`terminal_switch` of `terminal.c`, which the keyboard interrupt calls. A switch to a running
terminal leaves a request for the timer and waits until `schedule_tick` differs from the
value it sampled; a switch to another terminal starts a shell from inside the interrupt.
-/

set_option autoImplicit false

namespace Ece391Os

/-- How `terminal_switch` goes on: it returns at once, it waits for `schedule_tick` to differ
from `ticked`, or it has called `execute`. -/
inductive SwitchResult where
  | unchanged
  | waiting (ticked : Bool) (kernel : Kernel)
  | executed (result : ExecuteResult)

/-- The copies between the screen and the backing pages. -/
def swapPages (v : Video) (previous next : Terminal) : Video :=
  { v with
    screen := v.backing next
    backing := Function.update v.backing previous v.screen }

/-- `terminal_switch`. -/
def terminalSwitch (img : FsImage) (res : Residue) (frame : ExecuteFrame) (k : Kernel)
    (num : Terminal) : SwitchResult :=
  let previous := k.terms.currentTerminal
  if num = previous then .unchanged
  -- no control block is left for the shell of the other terminal
  else if k.procs.numActiveProcesses ≥ maxProcesses ∧ k.terms.terminalRunning num = false then
    .unchanged
  else
    let k := k.cli
    -- the two coordinates are kept as bytes
    let cursors := Function.update k.terms.switchCursor previous
      (UInt8.ofInt k.video.screenX, UInt8.ofInt k.video.screenY)
    let k : Kernel := { k with
      terms := { k.terms with switchCursor := cursors, currentTerminal := num }
      video := swapPages k.video previous num }
    if k.terms.terminalRunning num = true then
      -- only the timer can go on with the processes of the terminal: it is asked to do so
      let k := { k with
        video := { k.video with
          screenX := (cursors num).1.toNat
          screenY := (cursors num).2.toNat }
        sched := { k.sched with terminalRequest := some num } }
      .waiting k.sched.scheduleTick k.sti
    else
      let k := { k with
        video := k.video.terminalClear
        -- the sentinel becomes the parent of the new shell
        procs := { k.procs with currentPid := sentinelProcess }
        sched := { k.sched with currentProcess := num } }
      .executed (execute img res frame k (some shellName))

/-! ## How a switch goes on -/

/-- The kernel that the request of a switch to a running terminal leaves. -/
def Kernel.requesting (k : Kernel) (num : Terminal) : Kernel :=
  let cursors := Function.update k.terms.switchCursor k.terms.currentTerminal
    (UInt8.ofInt k.video.screenX, UInt8.ofInt k.video.screenY)
  { k with
    terms := { k.terms with switchCursor := cursors, currentTerminal := num }
    video := { swapPages k.video k.terms.currentTerminal num with
      screenX := (cursors num).1.toNat
      screenY := (cursors num).2.toNat }
    sched := { k.sched with terminalRequest := some num }
    interrupts := true }

/-- The kernel in which a switch to another terminal calls `execute`. -/
def Kernel.entering (k : Kernel) (num : Terminal) : Kernel :=
  { k with
    terms := { k.terms with
      switchCursor := Function.update k.terms.switchCursor k.terms.currentTerminal
        (UInt8.ofInt k.video.screenX, UInt8.ofInt k.video.screenY)
      currentTerminal := num }
    video := (swapPages k.video k.terms.currentTerminal num).terminalClear
    procs := { k.procs with currentPid := sentinelProcess }
    sched := { k.sched with currentProcess := num }
    interrupts := false }

section Results

variable {img : FsImage} {res : Residue} {frame : ExecuteFrame} {k : Kernel} {num : Terminal}

theorem terminalSwitch_unchanged (h : terminalSwitch img res frame k num = .unchanged) :
    num = k.terms.currentTerminal ∨ k.terms.terminalRunning num = false := by
  simp only [terminalSwitch] at h
  split at h
  next heq => exact Or.inl heq
  · split at h
    next hfull => exact Or.inr hfull.2
    · split at h
      · cases h
      · cases h

/-- A switch to a running terminal waits for its request to be served. -/
theorem terminalSwitch_waiting {ticked : Bool} {k' : Kernel}
    (h : terminalSwitch img res frame k num = .waiting ticked k') :
    num ≠ k.terms.currentTerminal ∧ k.terms.terminalRunning num = true ∧
      ticked = k.sched.scheduleTick ∧ k' = k.requesting num := by
  simp only [terminalSwitch] at h
  split at h
  · cases h
  next hne =>
    split at h
    · cases h
    · split at h
      next hrunning =>
        obtain ⟨rfl, rfl⟩ := SwitchResult.waiting.inj h
        exact ⟨hne, hrunning, rfl, rfl⟩
      · cases h

/-- A switch to another terminal executes a shell in it. -/
theorem terminalSwitch_executed {r : ExecuteResult}
    (h : terminalSwitch img res frame k num = .executed r) :
    num ≠ k.terms.currentTerminal ∧ k.terms.terminalRunning num = false ∧
      r = execute img res frame (k.entering num) (some shellName) := by
  simp only [terminalSwitch] at h
  split at h
  · cases h
  next hne =>
    split at h
    · cases h
    · split at h
      · cases h
      next hrunning =>
        exact ⟨hne, Bool.eq_false_iff.mpr hrunning, (SwitchResult.executed.inj h).symm⟩

end Results

end Ece391Os
