import Ece391Os.Library.ErasedRun
import Ece391Os.Properties.ScreenIsolation
import Ece391Os.Properties.TerminalInput

/-!
# Input of its own

Keys are typed, terminals are switched, and processes of all terminals call `execute`, `halt` and
`read`. In every run that meets a condition, the input of a terminal is what its own machine makes
of the keys that were translated while the terminal was displayed and of the calls of its own
processes. Calls of processes of other terminals can be inserted and removed anywhere.
-/

set_option autoImplicit false

namespace Ece391Os

open EventRun

namespace InputSession

/-! ## What a terminal takes part in -/

/-- The input of terminal `t`. -/
def inputOf (s : InputSession) (t : Terminal) : TerminalInput :=
  s.kernel.terminalInput t (s.delivered t)

/-- A call of `execute` starts a program. -/
def starts (img : FsImage) (s : InputSession) (command : Option CString) (res : Residue)
    (frame : ExecuteFrame) : Bool :=
  match Ece391Os.execute img res frame s.kernel.cli command with
  | .started _ _ => true
  | _ => false

/-- A call, as the terminal of the calling process sees it. -/
def callEvent (s : InputSession) : InputEvent → List OwnEvent
  | .execute command res _ => [.execute command res s.kernel.hasFree]
  | .halt => [.halt]
  | .startRead => [.startRead]
  | .finishRead nbytes _ => [.finishRead nbytes]
  | _ => []

/-- The part of a step that terminal `t` takes part in: a key if it is displayed, a call if it is
that of the running process. -/
def ownEvent (t : Terminal) (s : InputSession) (e : InputEvent) (_ : InputSession) :
    List OwnEvent :=
  match e with
  | .key code =>
      if s.kernel.terms.currentTerminal = t then [.key (keyAction s.kernel.kbd code.toNat)] else []
  | e => if s.kernel.sched.currentProcess = t then s.callEvent e else []

/-- The own events of terminal `t` in a run. -/
def ownEvents (img : FsImage) (t : Terminal) (s : InputSession) (es : List InputEvent) :
    List OwnEvent :=
  erased (step img) (ownEvent t) s es

/-! ## The steps that keep inputs apart -/

/-- A step that keeps inputs apart: a key that works on the history finds a process on the
displayed terminal; a program is started by a process of the displayed terminal, and `open` knows
the type of the entry; a read asks for at most a row, and the `NUL` that it stores leaves a newline
in the row. -/
def KeepsInputs (img : FsImage) (s : InputSession) (e : InputEvent) (_ : InputSession) : Prop :=
  let k := s.kernel
  match e with
  | .key code =>
      (keyAction k.kbd code.toNat).usesHistory = true →
        0 < k.sched.scheduleTop k.terms.currentTerminal
  | .execute command res frame =>
      KnownEntry img command ∧ (s.starts img command res frame = true →
        k.sched.currentProcess = k.terms.currentTerminal)
  | .finishRead nbytes _ =>
      nbytes ≤ maxBufferSize ∧
        (newlineIndex (Function.update (k.terms.readBuffer k.sched.currentProcess)
          (nbytes - 1) 0)).isSome
  | _ => True

instance (img : FsImage) (s : InputSession) (e : InputEvent) (s' : InputSession) :
    Decidable (KeepsInputs img s e s') := by
  unfold KeepsInputs
  cases e <;> infer_instance

section Steps

variable {img : FsImage} {s s' : InputSession} {e : InputEvent}

/-! ## One step -/

/-- The call of `execute` behind a step that starts a program. -/
theorem starts_of_started {command : Option CString} {res : Residue} {frame : ExecuteFrame}
    {entry : Word} {k : Kernel}
    (hstart : Ece391Os.execute img res frame s.kernel.cli command = .started entry k) :
    s.starts img command res frame = true := by
  simp only [starts, hstart]

/-- The processes stay on the stacks. -/
theorem seated_step (hs : Seated s.kernel.tasks) (hkeeps : KeepsInputs img s e s')
    (hstep : step img s e = some s') : Seated s'.kernel.tasks := by
  cases effect_of_step hstep with
  | key hk =>
      rw [(tasks_handleKeyboard hk).1]
      exact hs
  | displayed => exact hs
  | @switch num _ _ _ k hwait =>
      have htasks : k.tasks = (Machine.keyboardKernel s.kernel).tasks.request num :=
        (tasks_terminalSwitch_waiting hwait).2.2.2
      have hvideo : Kernel.tasks
          { k with video := { k.video with videoMem := s.kernel.video.videoMem } } =
          k.tasks := rfl
      rw [hvideo, htasks]
      exact hs.request num
  | @resume t htop =>
      -- the process that goes on is the uppermost one of its terminal
      have hpos : 0 < s.kernel.tasks.sched.scheduleTop t :=
        lt_of_le_of_ne (hs.top_nonneg t) (Ne.symm htop)
      refine ⟨hs.forest, hs.live, hs.top_nonneg, ?_⟩
      have htip : stackTip sentinelProcess (s.kernel.tasks.entries t) =
          s.kernel.sched.scheduleStack t (s.kernel.sched.topIdx t) := by
        rw [Tasks.entries_eq_append hpos, stackTip_append]
        rfl
      exact htip
  | returned hret =>
      rw [tasks_execute_returned hret]
      exact hs
  | started hstart =>
      obtain ⟨q, hfresh, htasks⟩ := tasks_execute_started hstart
      rw [htasks]
      exact hs.spawn (hkeeps.2 (starts_of_started hstart)).symm hfresh
  | halt hpid =>
      rw [tasks_halt]
      exact hs.exit hpid
  | startRead => exact hs
  | finishRead _ hr =>
      obtain rfl := hr
      exact hs

/-- What a call does, if it acts on the input of the running terminal and leaves those of the
others. -/
theorem inputOf_call {t : Terminal} {e : OwnEvent}
    (hself : (s.inputOf s.kernel.sched.currentProcess).step img e =
      some (s'.inputOf s.kernel.sched.currentProcess))
    (hothers : ∀ u, u ≠ s.kernel.sched.currentProcess → s'.inputOf u = s.inputOf u) :
    runFrom (TerminalInput.step img) (s.inputOf t)
        (if s.kernel.sched.currentProcess = t then [e] else []) = some (s'.inputOf t) := by
  split
  next heq =>
    subst heq
    rw [runFrom_cons, hself]
    rfl
  next hne =>
    rw [hothers t (Ne.symm hne)]
    rfl

/-- One step does to the input of every terminal what its own events do. -/
theorem inputOf_step (hs : Seated s.kernel.tasks) (hkeeps : KeepsInputs img s e s')
    (hstep : step img s e = some s') (t : Terminal) :
    runFrom (TerminalInput.step img) (s.inputOf t) (ownEvent t s e s') = some (s'.inputOf t) := by
  cases effect_of_step hstep with
  | @key code k hk =>
      simp only [ownEvent]
      split
      next heq =>
        subst heq
        rw [runFrom_cons, TerminalInput.step, inputOf, terminalInput_key hs hk hkeeps]
        rfl
      next hne =>
        have hother : k.terminalInput t (s.delivered t) = _ :=
          terminalInput_key_other hs hk hkeeps (Ne.symm hne)
        exact congrArg some hother.symm
  | displayed =>
      simp only [ownEvent, callEvent, ite_self, runFrom_nil]
  | switch hwait =>
      simp only [ownEvent, callEvent, ite_self, runFrom_nil, Option.some.injEq]
      exact (terminalInput_switch hwait s.kernel.video).symm
  | @resume u _ =>
      simp only [ownEvent, callEvent, ite_self, runFrom_nil, Option.some.injEq]
      exact (terminalInput_resume u).symm
  | @returned command res _ v k hret =>
      apply inputOf_call
      · -- the handler runs with interrupts disabled, which no input depends on
        have hrun : (s.inputOf s.kernel.sched.currentProcess).execute img command res
            s.kernel.hasFree = _ :=
          terminalInput_execute (k := s.kernel.cli) hs hkeeps.1 (Or.inl ⟨v, hret⟩)
        exact congrArg some hrun
      · intro u _
        exact terminalInput_returned (k := s.kernel.cli) hkeeps.1 hret
  | @started command res _ entry k hstart =>
      -- the program belongs to the displayed terminal, so that is the line that it clears
      have hplace := hkeeps.2 (starts_of_started hstart)
      apply inputOf_call
      · have hrun : (s.inputOf s.kernel.sched.currentProcess).execute img command res
            s.kernel.hasFree = _ :=
          terminalInput_execute (k := s.kernel.cli) hs hkeeps.1 (Or.inr ⟨hplace, entry, hstart⟩)
        exact congrArg some hrun
      · intro u hu
        apply (terminalInput_started (k := s.kernel.cli) hs hkeeps.1 hstart).2
        exact fun heq => hu (heq.trans hplace.symm)
  | halt hpid =>
      apply inputOf_call
      · exact congrArg some (terminalInput_halt (k := s.kernel.cli) hs hpid).1.symm
      · intro u hu
        exact (terminalInput_halt (k := s.kernel.cli) hs hpid).2 u hu
  | startRead =>
      apply inputOf_call
      · exact congrArg some terminalInput_startRead.1.symm
      · intro u hu
        exact terminalInput_startRead.2 u hu
  | @finishRead nbytes beyond r hpos hr =>
      have hfinish : (s.inputOf s.kernel.sched.currentProcess).finishRead nbytes = _ ∧ _ :=
        terminalInput_finishRead hr hpos hkeeps.1 hkeeps.2
      obtain ⟨hself, hothers⟩ := hfinish
      apply inputOf_call
      · rw [TerminalInput.step, hself]
        simp only [inputOf, Function.update_self]
      · intro u hu
        simp only [inputOf, Function.update_of_ne hu]
        exact hothers u (s.delivered u) hu

end Steps

/-! ## What can be seen from a terminal -/

/-- An event that a terminal cannot help but see: a key, a switch or a call of its own. -/
inductive VisibleEvent where
  | key (code : UInt8)
  | switch (num : Terminal)
  | own (e : OwnEvent)

/-- The part of a step that can be seen from terminal `t`. The calls of the processes of other
terminals cannot, and neither can the timer. -/
def visible (t : Terminal) (s : InputSession) (e : InputEvent) (_ : InputSession) :
    List VisibleEvent :=
  match e with
  | .key code => [.key code]
  | .switch num _ _ => [.switch num]
  | e => (if s.kernel.sched.currentProcess = t then s.callEvent e else []).map .own

/-- What can be seen from terminal `t` in a run. -/
def visibleEvents (img : FsImage) (t : Terminal) (s : InputSession) (es : List InputEvent) :
    List VisibleEvent :=
  erased (step img) (visible t) s es

/-- What decides where a key goes and how it is translated. -/
structure Controls where
  displayed : Terminal
  modifiers : Modifiers

namespace Controls

/-- The action that a scan code asks for. -/
def action (c : Controls) (code : UInt8) : KeyAction :=
  keyAction
    { shiftDown := c.modifiers.shiftDown, capsLock := c.modifiers.capsLock
      ctrlDown := c.modifiers.ctrlDown, altDown := c.modifiers.altDown
      keyFlag := false
      buffer := fun _ _ => 0, bufferIDX := fun _ => 0, bufferSIZE := fun _ => 0
      history := fun _ _ _ => 0, historyIDX := fun _ => 0, historyBASE := fun _ => 0
      historySIZE := fun _ => 0 } code.toNat

/-- The controls behind a visible event. -/
def after (c : Controls) : VisibleEvent → Controls
  | .key code => { c with modifiers := (c.action code).modifiersAfter c.modifiers }
  | .switch num => { c with displayed := num }
  | .own _ => c

/-- The own events of terminal `t` in a visible one. -/
def own (t : Terminal) (c : Controls) : VisibleEvent → List OwnEvent
  | .key code => if c.displayed = t then [.key (c.action code)] else []
  | .switch _ => []
  | .own e => [e]

theorem foldl_after_own (c : Controls) (l : List OwnEvent) :
    (l.map .own).foldl after c = c := by
  induction l with
  | nil => rfl
  | cons e l ih => exact ih

theorem transduce_own (t : Terminal) (c : Controls) (l : List OwnEvent) :
    transduce after (own t) c (l.map .own) = l := by
  induction l with
  | nil => rfl
  | cons e l ih => exact congrArg (e :: ·) ih

end Controls

/-- The controls of a session. -/
def controls (s : InputSession) : Controls :=
  ⟨s.kernel.terms.currentTerminal, s.kernel.kbd.modifiers⟩

theorem controls_action (s : InputSession) (code : UInt8) :
    s.controls.action code = keyAction s.kernel.kbd code.toNat :=
  keyAction_congr rfl code.toNat

section Steps

variable {img : FsImage} {s s' : InputSession} {e : InputEvent}

/-- A call of `execute` that returns leaves the displayed terminal and the modifiers. -/
theorem controls_returned {command : Option CString} {res : Residue} {frame : ExecuteFrame}
    {v : Int} {k : Kernel}
    (hret : Ece391Os.execute img res frame s.kernel.cli command = .returned v k) :
    controls { s with kernel := k } = s.controls := by
  have hmodifiers : k.kbd.modifiers = s.kernel.cli.kbd.modifiers :=
    modifiers_execute_returned hret
  have hshown : k.terms.currentTerminal = s.kernel.terms.currentTerminal :=
    congrArg Tasks.currentTerminal (tasks_execute_returned hret)
  simp only [controls, hmodifiers, hshown]
  rfl

/-- So does a call that starts a program. -/
theorem controls_started {command : Option CString} {res : Residue} {frame : ExecuteFrame}
    {entry : Word} {k : Kernel}
    (hstart : Ece391Os.execute img res frame s.kernel.cli command = .started entry k) :
    controls { s with kernel := k } = s.controls := by
  obtain ⟨q, -, htasks⟩ := tasks_execute_started hstart
  have hmodifiers : k.kbd.modifiers = s.kernel.cli.kbd.modifiers :=
    modifiers_execute_started hstart
  have hshown : k.terms.currentTerminal = s.kernel.terms.currentTerminal :=
    congrArg Tasks.currentTerminal htasks
  simp only [controls, hmodifiers, hshown]
  rfl

/-- The own events of a step can be read off its visible ones. -/
theorem own_of_visible (t : Terminal) (hstep : step img s e = some s') :
    ownEvent t s e s' = transduce Controls.after (Controls.own t) s.controls (visible t s e s') ∧
      s'.controls = (visible t s e s').foldl Controls.after s.controls := by
  -- a call is visible as it is, and changes no controls
  have hcalls : ∀ e : InputEvent, s'.controls = s.controls →
      (if s.kernel.sched.currentProcess = t then s.callEvent e else []) =
          transduce Controls.after (Controls.own t) s.controls
            ((if s.kernel.sched.currentProcess = t then s.callEvent e else []).map .own) ∧
        s'.controls = ((if s.kernel.sched.currentProcess = t then s.callEvent e else []).map
          .own).foldl Controls.after s.controls := by
    intro e hsame
    rw [Controls.transduce_own, Controls.foldl_after_own]
    exact ⟨rfl, hsame⟩
  cases effect_of_step hstep with
  | @key code k hk =>
      obtain ⟨d, -, hr⟩ := replaces_handleKeyboard hk
      constructor
      · simp only [visible, transduce, Controls.own, List.append_nil, controls_action]
        rfl
      · have hshown : k.terms.currentTerminal = s.kernel.terms.currentTerminal := hr.terminal
        have hmodifiers : k.kbd.modifiers =
            (keyAction s.kernel.kbd code.toNat).modifiersAfter s.kernel.kbd.modifiers :=
          hr.modifiers
        simp only [visible, List.foldl_cons, List.foldl_nil, Controls.after, controls_action]
        simp only [controls, hshown, hmodifiers]
  | displayed =>
      simp only [ownEvent, callEvent, ite_self]
      exact ⟨rfl, rfl⟩
  | @switch num _ _ _ k hwait =>
      constructor
      · simp only [ownEvent, callEvent, ite_self]
        rfl
      · obtain ⟨-, -, -, htasks⟩ := tasks_terminalSwitch_waiting hwait
        have hshown : k.terms.currentTerminal = num := congrArg Tasks.currentTerminal htasks
        have hkbd : k.kbd = (Machine.keyboardKernel s.kernel).kbd :=
          terminalSwitch_waiting_kbd hwait
        have hkbd' : k.kbd = s.kernel.kbd := hkbd
        simp only [visible, List.foldl_cons, List.foldl_nil, Controls.after, controls, hshown,
          hkbd']
  | @resume u _ => exact hcalls (.resume u) rfl
  | @returned command res frame _ _ hret =>
      exact hcalls (.execute command res frame) (controls_returned hret)
  | @started command res frame _ _ hstart =>
      exact hcalls (.execute command res frame) (controls_started hstart)
  | halt _ =>
      refine hcalls .halt ?_
      have hshown : (halted (Ece391Os.halt s.kernel.cli)).terms.currentTerminal =
          s.kernel.terms.currentTerminal :=
        congrArg Tasks.currentTerminal (tasks_halt s.kernel.cli)
      simp only [controls, hshown, kbd_halt]
      rfl
  | startRead => exact hcalls .startRead rfl
  | @finishRead nbytes beyond _ _ hr =>
      obtain rfl := hr
      exact hcalls (.finishRead nbytes beyond) rfl

end Steps

/-! ## Every interleaving -/

/-- Two runs from one state, all steps of which keep inputs apart. If a terminal takes part in the
same events in both, its line, its `return_switch` and the lines delivered to its reads are the
same; and so they are if the runs differ only in what other terminals do. -/
theorem inputs_of_runs {img : FsImage} {s s₁ s₂ : InputSession} {es fs : List InputEvent}
    (hs : Seated s.kernel.tasks) (hes : AllSteps (step img) (KeepsInputs img) s es)
    (hfs : AllSteps (step img) (KeepsInputs img) s fs)
    (hrun : runFrom (step img) s es = some s₁) (hrun' : runFrom (step img) s fs = some s₂)
    (t : Terminal) :
    (ownEvents img t s es = ownEvents img t s fs →
        s₁.kernel.inputLine t = s₂.kernel.inputLine t ∧ s₁.delivered t = s₂.delivered t) ∧
      (visibleEvents img t s es = visibleEvents img t s fs →
        s₁.kernel.inputLine t = s₂.kernel.inputLine t ∧ s₁.delivered t = s₂.delivered t) := by
  have hcommutes : ∀ c e c', Seated c.kernel.tasks → step img c e = some c' →
      KeepsInputs img c e c' → Seated c'.kernel.tasks ∧
        runFrom (TerminalInput.step img) (c.inputOf t) (ownEvent t c e c') =
          some (c'.inputOf t) := by
    intro c e c' hc hstep hkeeps
    exact ⟨seated_step hc hkeeps hstep, inputOf_step hc hkeeps hstep t⟩
  have hown : ownEvents img t s es = ownEvents img t s fs →
      s₁.kernel.inputLine t = s₂.kernel.inputLine t ∧ s₁.delivered t = s₂.delivered t := by
    intro herased
    have hinput : s₁.inputOf t = s₂.inputOf t :=
      eq_of_erased_eq (a := fun c : InputSession => c.inputOf t) hcommutes hs hs rfl hes hfs
        herased hrun hrun'
    exact ⟨congrArg TerminalInput.line hinput, congrArg TerminalInput.delivered hinput⟩
  refine ⟨hown, fun hvisible => hown ?_⟩
  -- the own events of a run are made of its visible ones
  have hread : ∀ gs, ownEvents img t s gs =
      transduce Controls.after (Controls.own t) s.controls (visibleEvents img t s gs) := by
    intro gs
    apply erased_transduce controls
    intro c e c' hstep
    exact own_of_visible t hstep
  rw [hread, hread, hvisible]

/-- Three running shells, the third of them displayed and on the processor. -/
def shells : InputSession := ⟨Console.threeShells.kernel, fun _ => []⟩

theorem seated_shells : Seated shells.kernel.tasks := by
  have hentries : ∀ t : Terminal, shells.kernel.tasks.entries t = [t.succ.castLE (by decide)] := by
    decide
  constructor
  · constructor
    · intro t
      rw [hentries t]
      revert t
      decide
    · intro t
      rw [hentries t]
      revert t
      decide
    · intro t u htu
      rw [hentries t, hentries u, List.disjoint_singleton]
      revert t u htu
      decide
  · intro t p hp
    rw [hentries t] at hp
    obtain rfl := List.mem_singleton.mp hp
    clear hp
    revert t
    decide
  · decide
  · decide

/-- The third shell reads a line. -/
def readsAlone : List InputEvent := [.startRead, .key 0x1E, .key 0x1C, .finishRead 128 0]

/-- The same, while the first shell asks for a line as well. -/
def readsTogether : List InputEvent :=
  [.startRead, .key 0x1E, .resume 0, .startRead, .resume 2, .key 0x1C, .finishRead 128 0]

theorem inputs_of_reads :
    ∃ s₁ s₂, runFrom (step shellImage) shells readsAlone = some s₁ ∧
      runFrom (step shellImage) shells readsTogether = some s₂ ∧
      s₁.kernel.inputLine 2 = s₂.kernel.inputLine 2 ∧ s₁.delivered 2 = s₂.delivered 2 := by
  have halone : (runFrom (step shellImage) shells readsAlone).isSome := by decide
  have htogether : (runFrom (step shellImage) shells readsTogether).isSome := by decide
  obtain ⟨s₁, hrun⟩ := Option.isSome_iff_exists.mp halone
  obtain ⟨s₂, hrun'⟩ := Option.isSome_iff_exists.mp htogether
  refine ⟨s₁, s₂, hrun, hrun', ?_⟩
  exact (inputs_of_runs seated_shells (by decide) (by decide) hrun hrun' 2).2 rfl

/-- A letter is typed, and the first shell goes on. -/
def typesBehind : List InputEvent := [.key 0x1E, .resume 0]

/-- Then the first shell starts a program. -/
def startsBehind : List InputEvent :=
  typesBehind ++ [.execute (some shellName) emptyResidue ⟨0x7F7D00, 0x7EE100⟩]

/-- The call of the first terminal clears the line of the third. -/
theorem not_inputs_of_startsBehind :
    runFrom (Console.step shellImage) (bootConsole 0x7FFFC0) Console.toThirdShell =
        some Console.threeShells ∧
      Seated shells.kernel.tasks ∧
      ∃ s₁ s₂, runFrom (step shellImage) shells typesBehind = some s₁ ∧
        runFrom (step shellImage) shells startsBehind = some s₂ ∧
        ownEvents shellImage 2 shells typesBehind = ownEvents shellImage 2 shells startsBehind ∧
        visibleEvents shellImage 2 shells typesBehind =
          visibleEvents shellImage 2 shells startsBehind ∧
        s₁.kernel.kbd.bufferSIZE 2 = 1 ∧ s₂.kernel.kbd.bufferSIZE 2 = 0 := by
  refine ⟨Console.run_threeShells, seated_shells, ?_⟩
  have hfirst : (runFrom (step shellImage) shells typesBehind).map
      (fun s => s.kernel.kbd.bufferSIZE 2) = some 1 := by decide
  have hsecond : (runFrom (step shellImage) shells startsBehind).map
      (fun s => s.kernel.kbd.bufferSIZE 2) = some 0 := by decide
  obtain ⟨s₁, hrun, hsize⟩ := Option.map_eq_some_iff.mp hfirst
  obtain ⟨s₂, hrun', hsize'⟩ := Option.map_eq_some_iff.mp hsecond
  exact ⟨s₁, s₂, hrun, hrun', rfl, rfl, hsize, hsize'⟩

end InputSession

end Ece391Os
