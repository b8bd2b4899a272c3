import Ece391Os.Model.NestedKeyboard

/-!
# Input sessions

Keys handled one at a time, switches among running terminals, and `execute`, `halt` and `read`
called by the processes of the terminals in any order. `terminal_read` is cut at its wait loop:
`startRead` asks for a line and `finishRead` goes on when `terminal_return` has delivered it.
-/

set_option autoImplicit false

namespace Ece391Os

/-! ## Sessions -/

/-- What can happen. `resume` stands for the timer going on with the process of a terminal, whose
calls the next events are; the sentinel calls `execute` for a new shell after the first process of a
terminal has halted. -/
inductive InputEvent where
  | key (code : UInt8)
  | switch (num : Terminal) (res : Residue) (frame : ExecuteFrame)
  | resume (t : Terminal)
  | execute (command : Option CString) (res : Residue) (frame : ExecuteFrame)
  | halt
  | startRead
  | finishRead (nbytes beyond : Nat)

/-- The kernel, and for each terminal what its reads have returned and delivered. -/
structure InputSession where
  kernel : Kernel
  delivered : Terminal → List (Int × List UInt8)

namespace InputSession

/-- One step. A key does not switch terminals, which is an event of its own. -/
def step (img : FsImage) (s : InputSession) : InputEvent → Option InputSession
  | .key code =>
      (handleKeyboard s.kernel code.toNat).map fun k => { s with kernel := k }
  | .switch num res frame =>
      if s.kernel.terms.terminalRunning num = true then
        match terminalSwitch img res frame (Machine.keyboardKernel s.kernel) num with
        | .unchanged => some s
        | .waiting _ k =>
            some { s with kernel :=
              { k with video := { k.video with videoMem := s.kernel.video.videoMem } } }
        | .executed _ => none
      else none
  | .resume t =>
      if s.kernel.sched.scheduleTop t ≠ 0 then
        some { s with kernel :=
          restoreContext { s.kernel with sched := { s.kernel.sched with currentProcess := t } } t }
      else none
  | .execute command res frame =>
      match Ece391Os.execute img res frame s.kernel.cli command with
      | .returned _ k => some { s with kernel := k }
      | .stuck => none
      | .started _ k => some { s with kernel := k }
  | .halt =>
      if s.kernel.procs.currentPid ≠ sentinelProcess then
        some { s with kernel := halted (Ece391Os.halt s.kernel.cli) }
      else none
  | .startRead => some { s with kernel := Ece391Os.startRead s.kernel }
  | .finishRead nbytes beyond =>
      let cip := s.kernel.sched.currentProcess
      if s.kernel.terms.returnSwitch cip = .off ∧ 1 ≤ nbytes then
        let r := Ece391Os.finishRead s.kernel nbytes beyond
        some
          { kernel := r.2.2
            delivered := Function.update s.delivered cip
              (s.delivered cip ++ [(r.1, r.2.1)]) }
      else none

/-- What one step does. -/
inductive Effect (img : FsImage) (s : InputSession) : InputEvent → InputSession → Prop
  | key {code : UInt8} {k : Kernel} (hk : handleKeyboard s.kernel code.toNat = some k) :
      Effect img s (.key code) { s with kernel := k }
  | displayed {res : Residue} {frame : ExecuteFrame} :
      Effect img s (.switch s.kernel.terms.currentTerminal res frame) s
  | switch {num : Terminal} {res : Residue} {frame : ExecuteFrame} {ticked : Bool} {k : Kernel}
      (hwait : terminalSwitch img res frame (Machine.keyboardKernel s.kernel) num =
        .waiting ticked k) :
      Effect img s (.switch num res frame) { s with kernel :=
        { k with video := { k.video with videoMem := s.kernel.video.videoMem } } }
  | resume {t : Terminal} (htop : s.kernel.sched.scheduleTop t ≠ 0) :
      Effect img s (.resume t)
        { s with
          kernel := restoreContext
            { s.kernel with sched := { s.kernel.sched with currentProcess := t } } t }
  | returned {command : Option CString} {res : Residue} {frame : ExecuteFrame} {v : Int}
      {k : Kernel}
      (hret : Ece391Os.execute img res frame s.kernel.cli command = .returned v k) :
      Effect img s (.execute command res frame) { s with kernel := k }
  | started {command : Option CString} {res : Residue} {frame : ExecuteFrame} {entry : Word}
      {k : Kernel}
      (hstart : Ece391Os.execute img res frame s.kernel.cli command = .started entry k) :
      Effect img s (.execute command res frame) { s with kernel := k }
  | halt (hpid : s.kernel.procs.currentPid ≠ sentinelProcess) :
      Effect img s .halt { s with kernel := halted (Ece391Os.halt s.kernel.cli) }
  | startRead : Effect img s .startRead { s with kernel := Ece391Os.startRead s.kernel }
  | finishRead {nbytes beyond : Nat} {r : Int × List UInt8 × Kernel} (hpos : 1 ≤ nbytes)
      (hr : Ece391Os.finishRead s.kernel nbytes beyond = r) :
      Effect img s (.finishRead nbytes beyond)
        { kernel := r.2.2
          delivered := Function.update s.delivered s.kernel.sched.currentProcess
            (s.delivered s.kernel.sched.currentProcess ++ [(r.1, r.2.1)]) }

theorem effect_of_step {img : FsImage} {s s' : InputSession} {e : InputEvent}
    (hstep : step img s e = some s') : Effect img s e s' := by
  cases e with
  | key code =>
      obtain ⟨k, hk, rfl⟩ := Option.map_eq_some_iff.mp hstep
      exact .key hk
  | switch num res frame =>
      simp only [step] at hstep
      split at hstep
      next hrunning =>
        split at hstep
        next hsame =>
          obtain rfl := Option.some.inj hstep
          -- a terminal with running processes is refused only if it is displayed already
          rcases terminalSwitch_unchanged hsame with rfl | hstopped
          · exact .displayed
          · have hnot : s.kernel.terms.terminalRunning num = false := hstopped
            rw [hrunning] at hnot
            cases hnot
        next ticked k hwait =>
          obtain rfl := Option.some.inj hstep
          exact .switch hwait
        · cases hstep
      · cases hstep
  | resume t =>
      simp only [step] at hstep
      split at hstep
      next htop =>
        obtain rfl := Option.some.inj hstep
        exact .resume htop
      · cases hstep
  | execute command res frame =>
      simp only [step] at hstep
      split at hstep
      next v k hret =>
        obtain rfl := Option.some.inj hstep
        exact .returned hret
      · cases hstep
      next entry k hstart =>
        obtain rfl := Option.some.inj hstep
        exact .started hstart
  | halt =>
      simp only [step] at hstep
      split at hstep
      next hpid =>
        obtain rfl := Option.some.inj hstep
        exact .halt hpid
      · cases hstep
  | startRead =>
      obtain rfl := Option.some.inj hstep
      exact .startRead
  | finishRead nbytes beyond =>
      simp only [step] at hstep
      split at hstep
      next hready =>
        obtain rfl := Option.some.inj hstep
        exact .finishRead hready.2 rfl
      · cases hstep

end InputSession

end Ece391Os
