import Ece391Os.Model.State

/-!
# The scheduler

`schedule` and `deschedule` of `syscalls.c`, and the timer interrupt: `timer_handler` of
`interrupts.c` between the saving and the restoring of the registers in
`schedule_wrapper.S`. The handler is cut at its three stages: `saveContext`, the choice of
the next terminal (`nextProcess`) and `continueWith`.
-/

set_option autoImplicit false

namespace Ece391Os

namespace Scheduler

/-- The slot that belongs to the top of a stack: `schedule_top[t] - 1`. -/
def topIdx (s : Scheduler) (t : Terminal) : Int := s.scheduleTop t - 1

end Scheduler

/-- Assignment to one entry of a two-dimensional array. -/
def setEntry {α : Type} (a : Terminal → Int → α) (t : Terminal) (i : Int) (v : α) :
    Terminal → Int → α :=
  Function.update a t (Function.update (a t) i v)

@[simp] theorem setEntry_self {α : Type} (a : Terminal → Int → α) (t : Terminal) (i : Int)
    (v : α) : setEntry a t i v t i = v := by
  simp [setEntry]

theorem setEntry_of_ne {α : Type} (a : Terminal → Int → α) {t u : Terminal} {i j : Int} (v : α)
    (h : u ≠ t ∨ j ≠ i) : setEntry a t i v u j = a u j := by
  by_cases hu : u = t
  · subst hu
    rcases h with h | h
    · exact absurd rfl h
    · simp [setEntry, Function.update_of_ne h]
  · simp [setEntry, Function.update_of_ne hu]

/-- `schedule`: pushes the current process on the stack of the displayed terminal. -/
def schedule (k : Kernel) : Kernel :=
  -- not `current_process`, which `deschedule` takes
  let t := k.terms.currentTerminal
  { k with sched := { k.sched with
      scheduleTop := Function.update k.sched.scheduleTop t (k.sched.scheduleTop t + 1)
      scheduleStack := setEntry k.sched.scheduleStack t (k.sched.scheduleTop t)
        k.procs.currentPid } }

/-- `deschedule`: pops the stack of the running terminal. -/
def deschedule (k : Kernel) : Kernel :=
  let t := k.sched.currentProcess
  { k with sched := { k.sched with
      scheduleTop := Function.update k.sched.scheduleTop t (k.sched.scheduleTop t - 1)
      scheduleStack := setEntry k.sched.scheduleStack t (k.sched.topIdx t) 0
      scheduleEbp := setEntry k.sched.scheduleEbp t (k.sched.topIdx t) 0
      scheduleEsp := setEntry k.sched.scheduleEsp t (k.sched.topIdx t) 0 } }

/-- `KERNEL_ADDR + (M_4 - 0xF) - 2 * K_4 * pid`: the top of the kernel stack of a process. -/
def kernelStackTop (pid : Pid) : Nat := kernelAddr + (m4 - 0xF) - 2 * k4 * pid.val

/-- The value that `execute` and `timer_handler` give to `tss.esp0`. -/
def esp0Of (pid : Pid) : Word := BitVec.ofNat 32 (kernelStackTop pid)

/-- The page-directory entry of the program page: `M_4 * (pid + 1) | PAGE_ARGS`. -/
def programPageOf (pid : Pid) : Nat := m4 * (pid.val + 1) ||| pageArgs

/-! ## The timer interrupt -/

/-- The first part of `timer_handler`: the interrupted context goes to the top slot of the
running terminal, if that has one. -/
def saveContext (k : Kernel) : Kernel :=
  let t := k.sched.currentProcess
  if k.sched.scheduleTop t ≠ 0 then
    { k with sched := { k.sched with
        scheduleTss := setEntry k.sched.scheduleTss t (k.sched.topIdx t) k.sched.tss
        scheduleEsp := setEntry k.sched.scheduleEsp t (k.sched.topIdx t) k.sched.lastEsp
        scheduleEbp := setEntry k.sched.scheduleEbp t (k.sched.topIdx t) k.sched.lastEbp } }
  else k

/-- The `while` loop that searches a terminal with something to run. Running out of `fuel` is
an endless loop: after three rounds the search is back where it began. -/
def searchLoop (top : Terminal → Int) : Nat → Terminal → Option Terminal
  | 0, _ => none
  | fuel + 1, t => if top t = 0 then searchLoop top fuel (t + 1) else some t

/-- The search that starts behind terminal `t`. -/
def searchNext (top : Terminal → Int) (t : Terminal) : Option Terminal :=
  searchLoop top 3 (t + 1)

/-- The choice of `next_process`; `none` is an endless search. -/
def nextProcess (k : Kernel) : Option Terminal :=
  match k.sched.terminalRequest with
  | none => searchNext k.sched.scheduleTop k.sched.currentProcess
  | some t => some t

/-- The guard in front of the restore. -/
def restores (k : Kernel) (t : Terminal) : Bool :=
  k.sched.scheduleTop t ≠ 0 && k.sched.scheduleEbp t (k.sched.topIdx t) ≠ 0

/-- The restore: process, registers, task state segment, program page and text page of
terminal `t`. -/
def restoreContext (k : Kernel) (t : Terminal) : Kernel :=
  let i := k.sched.topIdx t
  let pid := k.sched.scheduleStack t i
  { k with
    procs := { k.procs with currentPid := pid }
    sched := { k.sched with
      lastEsp := k.sched.scheduleEsp t i
      lastEbp := k.sched.scheduleEbp t i
      tss := { k.sched.scheduleTss t i with esp0 := esp0Of pid } }
    video := { k.video with
      programPage := programPageOf pid
      vidEntry := if t ≠ k.terms.currentTerminal then .backing t else .screen
      videoMem := if t ≠ k.terms.currentTerminal then .backing t else .vidmap } }

/-- The rest of `timer_handler` once the next terminal is chosen. -/
def continueWith (k : Kernel) (t : Terminal) : Kernel :=
  let k := { k with sched := { k.sched with currentProcess := t, terminalRequest := none } }
  -- a chosen terminal without a saved context leaves the interrupted one on the processor
  let k := if restores k t then restoreContext k t else k
  { k with sched := { k.sched with scheduleTick := !k.sched.scheduleTick } }

/-- `timer_handler`; `none` is an endless search. -/
def timerHandler (k : Kernel) : Option Kernel :=
  let k := saveContext k.cli
  (nextProcess k).map (continueWith k)

/-- `schedule_wrapper`: the interrupted stack and frame pointers go to `last_esp` and
`last_ebp`, and the `iret` enables interrupts again. -/
def scheduleWrapper (k : Kernel) (esp ebp : Word) : Option Kernel :=
  (timerHandler { k with sched := { k.sched with lastEsp := esp, lastEbp := ebp } }).map
    Kernel.sti

/-! ## What an interrupt changes -/

section Interrupt

variable {k k' : Kernel} {t : Terminal}

/-- The saving half writes to the slots only. -/
theorem saveContext_frame (k : Kernel) : ∃ tss esp ebp, saveContext k =
    { k with sched := { k.sched with
        scheduleTss := tss, scheduleEsp := esp, scheduleEbp := ebp } } := by
  rw [saveContext]
  split
  · exact ⟨_, _, _, rfl⟩
  · exact ⟨k.sched.scheduleTss, k.sched.scheduleEsp, k.sched.scheduleEbp, rfl⟩

/-- The rest of the handler when a context is restored. -/
theorem continueWith_of_restores (h : restores k t = true) :
    continueWith k t =
      let k := restoreContext
        { k with sched := { k.sched with currentProcess := t, terminalRequest := none } } t
      { k with sched := { k.sched with scheduleTick := !k.sched.scheduleTick } } := by
  have hrestores : restores { k with sched := { k.sched with
      currentProcess := t, terminalRequest := none } } t = true := h
  simp only [continueWith, hrestores, if_true]

/-- When none is, the interrupted context goes on. -/
theorem continueWith_of_not_restores (h : restores k t = false) :
    continueWith k t = { k with sched := { k.sched with
      currentProcess := t, terminalRequest := none, scheduleTick := !k.sched.scheduleTick } } := by
  have hrestores : restores { k with sched := { k.sched with
      currentProcess := t, terminalRequest := none } } t = false := h
  simp only [continueWith, hrestores]
  rfl

theorem continueWith_frame (k : Kernel) (t : Terminal) : ∃ pid sched video, continueWith k t =
    { k with procs := { k.procs with currentPid := pid }, sched := sched, video := video } := by
  cases h : restores k t with
  | false => exact ⟨k.procs.currentPid, _, k.video, continueWith_of_not_restores h⟩
  | true => exact ⟨_, _, _, continueWith_of_restores h⟩

/-- A timer interrupt leaves control blocks, terminals, keyboard and real-time clock alone. -/
theorem scheduleWrapper_frame {esp ebp : Word} (h : scheduleWrapper k esp ebp = some k') :
    ∃ pid sched video, k' = { k with
      procs := { k.procs with currentPid := pid }
      sched := sched
      video := video
      interrupts := true } := by
  obtain ⟨k₁, htimer, rfl⟩ := Option.map_eq_some_iff.mp h
  obtain ⟨t, -, rfl⟩ := Option.map_eq_some_iff.mp htimer
  obtain ⟨pid, sched, video, hcontinue⟩ := continueWith_frame
    (saveContext (Kernel.cli { k with sched := { k.sched with lastEsp := esp, lastEbp := ebp } })) t
  obtain ⟨tss, esp', ebp', hsave⟩ := saveContext_frame
    (Kernel.cli { k with sched := { k.sched with lastEsp := esp, lastEbp := ebp } })
  refine ⟨pid, sched, video, ?_⟩
  rw [hcontinue, hsave]
  rfl

end Interrupt

end Ece391Os
