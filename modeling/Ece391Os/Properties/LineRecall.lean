import Ece391Os.Properties.LineHistory

/-!
# Recalling lines

Runs of the keyboard together with the calls that start and end processes. A
`HistorySession` keeps, beside the kernel and the reference editor, the lines that were
submitted since each process started. In every run the ring of a process remembers these lines,
and the up and down keys walk through them.
-/

set_option autoImplicit false

namespace Ece391Os

open EventRun RecallRing

/-! ## Walks on a line -/

section Walks

variable {recent : List (List UInt8)} {draft : List UInt8} {bound depth : Nat} {e : Line}
  {m : Move} {moves : List Move}

/-- One move on the line: a line at another depth is recalled. -/
def moveLine (recent : List (List UInt8)) (draft : List UInt8) (bound depth : Nat) (e : Line)
    (m : Move) : Line :=
  if m.depth bound depth = depth then e
  else e.replace (lineAt recent draft (m.depth bound depth))

/-- Some moves on the line at `depth`. -/
def walkLine (recent : List (List UInt8)) (draft : List UInt8) (bound : Nat) :
    Nat → Line → List Move → Line
  | _, e, [] => e
  | d, e, m :: moves =>
      walkLine recent draft bound (m.depth bound d) (moveLine recent draft bound d e m) moves

/-- The lines at all depths fit in the editor. -/
def Fitting (recent : List (List UInt8)) (draft : List UInt8) (bound : Nat) : Prop :=
  ∀ d, d ≤ bound → (lineAt recent draft d).length ≤ maxCharacters ∧
    ∀ c ∈ lineAt recent draft d, Legal c

/-- After a move the line at the new depth is on display. -/
theorem text_moveLine (hfit : Fitting recent draft bound) (hdepth : depth ≤ bound)
    (htext : e.text = lineAt recent draft depth) (m : Move) :
    (moveLine recent draft bound depth e m).text = lineAt recent draft (m.depth bound depth) := by
  obtain ⟨hlength, hlegal⟩ := hfit _ (Move.depth_le hdepth m)
  rw [moveLine]
  split
  next hsame => rw [hsame, htext]
  next hmoved => exact LineEditor.text_replace hlength hlegal

/-- After a walk the line at the depth reached is on display. -/
theorem text_walkLine (hfit : Fitting recent draft bound) (hdepth : depth ≤ bound)
    (htext : e.text = lineAt recent draft depth) :
    (walkLine recent draft bound depth e moves).text =
      lineAt recent draft (depthAfter bound depth moves) := by
  induction moves generalizing depth e with
  | nil => exact htext
  | cons m moves ih =>
      exact ih (Move.depth_le hdepth m) (text_moveLine hfit hdepth htext m)

/-- A walk that has recalled a line leaves the cursor at the end. -/
theorem cursor_walkLine (hfit : Fitting recent draft bound) (hdepth : depth ≤ bound)
    (hcursor : e.cursor = e.text.length) :
    (walkLine recent draft bound depth e moves).cursor =
      (walkLine recent draft bound depth e moves).text.length := by
  induction moves generalizing depth e with
  | nil => exact hcursor
  | cons m moves ih =>
      apply ih (Move.depth_le hdepth m)
      obtain ⟨hlength, hlegal⟩ := hfit _ (Move.depth_le hdepth m)
      rw [moveLine]
      split
      next hsame => exact hcursor
      next hmoved =>
        rw [LineEditor.cursor_replace hlength hlegal, LineEditor.text_replace hlength hlegal]

/-- From the newest position, the first move to an older line recalls a line, if there is one. -/
theorem cursor_walkLine_of_older (hfit : Fitting recent draft bound) (hbound : bound ≠ 0)
    (holder : Move.older ∈ moves) :
    (walkLine recent draft bound 0 e moves).cursor =
      (walkLine recent draft bound 0 e moves).text.length := by
  induction moves generalizing e with
  | nil => cases holder
  | cons m moves ih =>
      cases m with
      | newer =>
          have htail : Move.older ∈ moves := by simpa using holder
          exact ih htail
      | older =>
          have hmove : Move.depth bound 0 .older = 1 :=
            Nat.min_eq_left (Nat.one_le_iff_ne_zero.mpr hbound)
          obtain ⟨hlength, hlegal⟩ := hfit 1 (Nat.one_le_iff_ne_zero.mpr hbound)
          rw [walkLine, moveLine, hmove, if_neg Nat.one_ne_zero]
          apply cursor_walkLine hfit (Nat.one_le_iff_ne_zero.mpr hbound)
          rw [LineEditor.cursor_replace hlength hlegal, LineEditor.text_replace hlength hlegal]

/-- Without such a move the line stays as it is, with its cursor. -/
theorem walkLine_of_not_older (hstay : bound = 0 ∨ Move.older ∉ moves) :
    walkLine recent draft bound 0 e moves = e := by
  induction moves generalizing e with
  | nil => rfl
  | cons m moves ih =>
      have hm : bound = 0 ∨ m = .newer := by
        refine hstay.imp_right fun hnot => ?_
        cases m with
        | older => exact absurd List.mem_cons_self hnot
        | newer => rfl
      have htail : bound = 0 ∨ Move.older ∉ moves :=
        hstay.imp_right fun hnot hmem => hnot (List.mem_cons_of_mem _ hmem)
      rw [walkLine, moveLine, Move.depth_zero hm, if_pos rfl]
      exact ih htail

end Walks

/-! ## Sessions with processes -/

/-- A session and the lines that each process got since it started, the last one first. -/
structure HistorySession where
  session : Session
  submitted : Pid → List (List UInt8)

/-- A scan code or a reader that waits, and what starts, ends and switches processes: `execute`
and `halt` by the current process, and the timer. -/
inductive HistoryEvent where
  | session (e : SessionEvent)
  | execute (command : Option CString) (res : Residue) (frame : ExecuteFrame)
  | halt
  | tick (esp ebp : Word)

namespace HistorySession

/-- The kernel before the first program is executed. -/
def boot (espBoot : Word) : HistorySession :=
  ⟨⟨bootKernel espBoot, fun _ => .empty, false⟩, fun _ => []⟩

/-- The process that the displayed terminal shows. -/
def shown (s : HistorySession) : Pid := s.session.kernel.displayedPid

/-- The lines that the shown process got. -/
def recent (s : HistorySession) : List (List UInt8) := s.submitted s.shown

/-- The line in progress. -/
def line (s : HistorySession) : Line := s.session.line

/-- The scan code starts a shell. -/
def startsShell (img : FsImage) (s : HistorySession) (key : Nat) (res : Residue)
    (frame : ExecuteFrame) : Bool :=
  match handleKeyboardInput s.session.kernel key with
  | some (.switch num k) =>
      match terminalSwitch img res frame k num with
      | .executed (.started _ _) => true
      | _ => false
  | _ => false

/-- The submitted lines after an event that leads to the session `s'`: Enter submits a line that is
not empty, and a new process starts without lines. -/
def submittedAfter (img : FsImage) (s : HistorySession) (s' : Session) :
    SessionEvent → Pid → List (List UInt8)
  | .wait _ => s.submitted
  | .key code res frame =>
      if s.startsShell img code.toNat res frame then
        Function.update s.submitted s'.kernel.procs.currentPid []
      else if code.toNat = enterKey ∧ s.line.text ≠ [] then
        Function.update s.submitted s.shown (s.line.text :: s.recent)
      else s.submitted

/-- One step. -/
def step (img : FsImage) (s : HistorySession) : HistoryEvent → Option HistorySession
  | .session e =>
      (Session.step img s.session e).map fun s' => ⟨s', s.submittedAfter img s' e⟩
  | .execute command res frame =>
      match Ece391Os.execute img res frame s.session.kernel.cli command with
      | .returned _ k => some { s with session := { s.session with kernel := k } }
      | .stuck => none
      | .started _ k =>
          some
            { session := { s.session with
                kernel := k
                lines := Function.update s.session.lines
                  s.session.kernel.terms.currentTerminal .empty }
              submitted := Function.update s.submitted k.procs.currentPid [] }
  | .halt =>
      if s.session.kernel.procs.currentPid ≠ sentinelProcess then
        some { s with session := { s.session with
          kernel := halted (Ece391Os.halt s.session.kernel.cli) } }
      else none
  | .tick esp ebp =>
      (scheduleWrapper s.session.kernel esp ebp).map fun k =>
        { s with session := { s.session with kernel := k } }

/-- The step types no newline. -/
def Avoids (s : HistorySession) (e : HistoryEvent) (_ : HistorySession) : Prop :=
  ∀ code res frame, e = .session (.key code res frame) → ¬ TypesNewline s.session.kernel code.toNat

/-- The reference editors show the lines, and each ring remembers the lines of its process. -/
structure Remembered (s : HistorySession) : Prop where
  shows : s.session.Matches
  remembers : ∀ p, ∃ d, Remembers (s.session.kernel.kbd.historyOf p) (s.submitted p) d

section Steps

variable {img : FsImage} {s s' : HistorySession} {e : HistoryEvent}

/-- Steps that leave the keyboard alone. -/
theorem Remembered.of_kbd_eq (h : s.Remembered) {k : Kernel} (hkbd : k.kbd = s.session.kernel.kbd) :
    Remembered { s with session := { s.session with kernel := k } } := by
  refine ⟨⟨h.shows.inRow, ?_⟩, ?_⟩
  · rw [hkbd]
    exact h.shows.shows
  · rw [hkbd]
    exact h.remembers

/-- The histories after a process has been started. -/
theorem Remembered.after_start (h : s.Remembered) {k' k : Kernel} {command : Option CString}
    {entry : Word} {res : Residue} {frame : ExecuteFrame}
    (hk : k.kbd = s.session.kernel.kbd)
    (hexec : Ece391Os.execute img res frame k command = .started entry k') (p : Pid) :
    ∃ d, Remembers (k'.kbd.historyOf p)
      (Function.update s.submitted k'.procs.currentPid [] p) d := by
  obtain ⟨hself, hother⟩ := execute_started_history hexec
  by_cases hp : p = k'.procs.currentPid
  · subst hp
    rw [Function.update_self]
    exact ⟨0, hself⟩
  · rw [Function.update_of_ne hp, hother p hp, hk]
    exact h.remembers p

/-- The submitted lines after a key that is handled in the driver. -/
theorem submittedAfter_done {t : Session} {code : UInt8} {res : Residue} {frame : ExecuteFrame}
    {k : Kernel} (hrun : handleKeyboardInput s.session.kernel code.toNat = some (.done k)) :
    s.submittedAfter img t (.key code res frame) =
      if code.toNat = enterKey ∧ s.line.text ≠ [] then
        Function.update s.submitted s.shown (s.line.text :: s.recent)
      else s.submitted := by
  have hnone : s.startsShell img code.toNat res frame = false := by
    simp only [startsShell, hrun]
  rw [submittedAfter, hnone, if_neg Bool.false_ne_true]

/-- The histories after a key that is handled in the driver. -/
theorem Remembered.after_done (h : s.Remembered) {t : Session} {code : UInt8} {res : Residue}
    {frame : ExecuteFrame} {k : Kernel}
    (hrun : handleKeyboardInput s.session.kernel code.toNat = some (.done k)) (p : Pid) :
    ∃ d, Remembers (k.kbd.historyOf p) (s.submittedAfter img t (.key code res frame) p) d := by
  obtain ⟨depth, hshown⟩ := h.remembers s.shown
  rw [submittedAfter_done hrun]
  by_cases henter : code.toNat = enterKey
  · -- Enter submits the line unless it is empty
    have hbranch : handleKeyboardInput s.session.kernel enterKey =
        (keyboardEnter s.session.kernel).map .done := rfl
    rw [henter, hbranch] at hrun
    obtain ⟨k', hk', hdone⟩ := eq_done_of_map hrun
    obtain rfl := KeyOutcome.done.inj hdone
    obtain ⟨hself, hother⟩ := keyboardEnter_remembers h.shows.shows hk' hshown
    by_cases hp : p = s.shown
    · subst hp
      have hsubmitted : (if code.toNat = enterKey ∧ s.line.text ≠ [] then
            Function.update s.submitted s.shown (s.line.text :: s.recent)
          else s.submitted) s.shown =
          if s.line.text ≠ [] then s.line.text :: s.recent else s.recent := by
        by_cases hempty : s.line.text ≠ []
        · rw [if_pos ⟨henter, hempty⟩, if_pos hempty, Function.update_self]
        · rw [if_neg (fun hand => hempty hand.2), if_neg hempty]
          rfl
      rw [hsubmitted]
      exact hself
    · rw [hother p hp]
      split
      · rw [Function.update_of_ne hp]
        exact h.remembers p
      · exact h.remembers p
  · rw [if_neg (fun hand => henter hand.1)]
    obtain ⟨hself, hother⟩ := (handles_of_handleKeyboardInput hrun).remembers henter
      h.shows.shows hshown
    by_cases hp : p = s.shown
    · subst hp
      exact hself
    · rw [hother p hp]
      exact h.remembers p

/-- The submitted lines after an Alt-Fn key. -/
theorem submittedAfter_switch {t : Session} {code : UInt8} {res : Residue} {frame : ExecuteFrame}
    {num : Terminal} {k : Kernel}
    (hrun : handleKeyboardInput s.session.kernel code.toNat = some (.switch num k)) :
    s.submittedAfter img t (.key code res frame) =
      if s.startsShell img code.toNat res frame then
        Function.update s.submitted t.kernel.procs.currentPid []
      else s.submitted := by
  have hne : ¬ (code.toNat = enterKey ∧ s.line.text ≠ []) := by
    rintro ⟨henter, -⟩
    have hbranch : handleKeyboardInput s.session.kernel enterKey =
        (keyboardEnter s.session.kernel).map .done := rfl
    rw [henter, hbranch] at hrun
    obtain ⟨k', -, hdone⟩ := eq_done_of_map hrun
    cases hdone
  rw [submittedAfter, if_neg hne]

/-- The histories after a scan code. -/
theorem Remembered.after_key (h : s.Remembered) {code : UInt8} {res : Residue}
    {frame : ExecuteFrame} {t : Session}
    (hpress : s.session.press img code.toNat res frame = some t) (hinRow : t.outOfRow = false)
    (p : Pid) :
    ∃ d, Remembers (t.kernel.kbd.historyOf p)
      (s.submittedAfter img t (.key code res frame) p) d := by
  simp only [Session.press] at hpress
  split at hpress
  next hrun =>
    obtain rfl := Option.some.inj hpress
    cases hinRow
  next k hrun =>
    obtain rfl := Option.some.inj hpress
    exact h.after_done hrun p
  next num k hrun =>
    have hk : k = s.session.kernel := by
      cases handles_of_handleKeyboardInput hrun
      rfl
    subst hk
    rw [submittedAfter_switch hrun]
    -- only the last case starts a process; in the others `terminal_switch` is done with the lines
    split at hpress
    next hswitch =>
      have hnone : s.startsShell img code.toNat res frame = false := by
        simp only [startsShell, hrun, hswitch]
      obtain rfl := Option.some.inj hpress
      rw [hnone]
      exact h.remembers p
    next hswitch =>
      have hnone : s.startsShell img code.toNat res frame = false := by
        simp only [startsShell, hrun, hswitch]
      obtain rfl := Option.some.inj hpress
      rw [hnone, terminalSwitch_waiting_kbd hswitch]
      exact h.remembers p
    next hswitch =>
      have hnone : s.startsShell img code.toNat res frame = false := by
        simp only [startsShell, hrun, hswitch]
      obtain rfl := Option.some.inj hpress
      obtain ⟨k₀, hkbd, -, hexec⟩ := terminalSwitch_executed_kbd hswitch
      rw [hnone, callFrame_kbd.executeLoad.1 _ (executeLoad_of_returned hexec.symm), hkbd]
      exact h.remembers p
    next hswitch => cases hpress
    next hswitch =>
      have hstarts : s.startsShell img code.toNat res frame = true := by
        simp only [startsShell, hrun, hswitch]
      obtain rfl := Option.some.inj hpress
      obtain ⟨k₀, hkbd, -, hexec⟩ := terminalSwitch_executed_kbd hswitch
      rw [hstarts, if_pos rfl]
      exact h.after_start hkbd hexec.symm p

/-- One step that types no newline. -/
theorem Remembered.keep (h : s.Remembered) (hstep : step img s e = some s')
    (hno : Avoids s e s') : s'.Remembered := by
  cases e with
  | session e =>
      obtain ⟨t, hsession, rfl⟩ := Option.map_eq_some_iff.mp hstep
      have ht : t.Matches := by
        refine (h.shows.follows hsession ?_).1
        rintro code res frame rfl
        exact hno code res frame rfl
      refine ⟨ht, fun p => ?_⟩
      cases e with
      | key code res frame =>
          simp only [Session.step] at hsession
          split at hsession
          next htop => exact h.after_key hsession ht.inRow p
          next htop => cases hsession
      | wait u =>
          obtain rfl := Option.some.inj hsession
          exact h.remembers p
  | execute command res frame =>
      simp only [step] at hstep
      split at hstep
      next v k hexec =>
        obtain rfl := Option.some.inj hstep
        have hkbd : k.kbd = _ :=
          (callFrame_kbd.executeLoad.1 v (executeLoad_of_returned hexec)).trans rfl
        exact h.of_kbd_eq hkbd
      next hexec => cases hstep
      -- the new process starts with an empty line and without a history
      next entry k hexec =>
        obtain rfl := Option.some.inj hstep
        exact ⟨⟨h.shows.inRow,
            execute_started_shows (k := s.session.kernel.cli) h.shows.shows hexec⟩,
          h.after_start (k := s.session.kernel.cli) rfl hexec⟩
  | halt =>
      simp only [step] at hstep
      split at hstep
      next hpid =>
        obtain rfl := Option.some.inj hstep
        exact h.of_kbd_eq (kbd_halt _)
      next hpid => cases hstep
  | tick esp ebp =>
      obtain ⟨k, htick, rfl⟩ := Option.map_eq_some_iff.mp hstep
      exact h.of_kbd_eq (kbd_scheduleWrapper htick)

/-- Before the first program no process has lines. -/
theorem remembered_boot (espBoot : Word) : (boot espBoot).Remembered := by
  refine ⟨⟨rfl, Session.linesShow_bootKernel espBoot⟩, fun p => ⟨0, ?_⟩⟩
  exact ⟨.nil, rfl, rfl, rfl, Nat.zero_le _⟩

/-- Every run whose keys type no newline. -/
theorem remembered_of_run {espBoot : Word} {es : List HistoryEvent}
    (hno : AllSteps (step img) Avoids (boot espBoot) es)
    (hrun : runFrom (step img) (boot espBoot) es = some s) : s.Remembered :=
  invariant_of_allSteps (fun _ _ _ h hstep hQ => h.keep hstep hQ) (remembered_boot espBoot) hno hrun

end Steps

/-! ## The up and down keys -/

/-- The scan code of a move. -/
def moveKey : Move → UInt8
  | .older => 0x48
  | .newer => 0x50

/-- The key of a move. Neither of the two keys uses what `execute` would find on the stack. -/
def moveEvent (res : Residue) (frame : ExecuteFrame) (m : Move) : HistoryEvent :=
  .session (.key (moveKey m) res frame)

/-- What a walk from `s` to `s'` leaves alone: the displayed terminal, the process it shows with its
submitted lines, and the histories of the other processes. -/
structure SameShown (s s' : HistorySession) : Prop where
  terms : s'.session.kernel.terms = s.session.kernel.terms
  sched : s'.session.kernel.sched = s.session.kernel.sched
  submitted : s'.submitted = s.submitted
  others : ∀ p, p ≠ s.shown →
    s'.session.kernel.kbd.historyOf p = s.session.kernel.kbd.historyOf p

namespace SameShown

variable {s s' s'' : HistorySession}

theorem refl (s : HistorySession) : SameShown s s := ⟨rfl, rfl, rfl, fun _ _ => rfl⟩

theorem shown_eq (h : SameShown s s') : s'.shown = s.shown := by
  simp only [shown, Kernel.displayedPid, Kernel.topPid, h.terms, h.sched]

theorem recent_eq (h : SameShown s s') : s'.recent = s.recent := by
  rw [recent, h.submitted, h.shown_eq, recent]

theorem trans (h : SameShown s s') (h' : SameShown s' s'') : SameShown s s'' where
  terms := h'.terms.trans h.terms
  sched := h'.sched.trans h.sched
  submitted := h'.submitted.trans h.submitted
  others := fun p hp => (h'.others p (h.shown_eq ▸ hp)).trans (h.others p hp)

end SameShown

section Walk

variable {img : FsImage} {s : HistorySession} {depth : Nat} {draft : List UInt8}
  {res : Residue} {frame : ExecuteFrame}

/-- The key of a move runs one of the two routines. -/
theorem handleKeyboardInput_moveKey (k : Kernel) (m : Move) :
    handleKeyboardInput k (moveKey m).toNat =
      (match m with
        | .older => upHistory k
        | .newer => downHistory k).map .done := by
  cases m <;> rfl

/-- A move that is handled in the driver is one step of the session. -/
theorem step_of_done
    (hshown : 1 ≤ s.session.kernel.sched.scheduleTop s.session.kernel.terms.currentTerminal)
    {m : Move} {k : Kernel}
    (hrun : handleKeyboardInput s.session.kernel (moveKey m).toNat = some (.done k))
    (hterms : k.terms = s.session.kernel.terms) (hsched : k.sched = s.session.kernel.sched)
    (hother : ∀ p, p ≠ s.shown → k.kbd.historyOf p = s.session.kernel.kbd.historyOf p) :
    ∃ s', step img s (moveEvent res frame m) = some s' ∧ s'.session.kernel = k ∧
      SameShown s s' ∧ s'.line = s.line.apply (editOf s.session.kernel (moveKey m).toNat) := by
  have hne : ¬ ((moveKey m).toNat = enterKey ∧ s.line.text ≠ []) := by
    rintro ⟨henter, -⟩
    cases m
    · exact absurd henter (by decide)
    · exact absurd henter (by decide)
  obtain ⟨t, hpress, hkernel, hlines⟩ :
      ∃ t, s.session.press img (moveKey m).toNat res frame = some t ∧ t.kernel = k ∧
        t.lines = Function.update s.session.lines s.session.kernel.terms.currentTerminal
          (s.line.apply (editOf s.session.kernel (moveKey m).toNat)) := by
    simp only [Session.press, hrun]
    exact ⟨_, rfl, rfl, rfl⟩
  refine ⟨⟨t, s.submittedAfter img t (.key (moveKey m) res frame)⟩, ?_, hkernel, ?_, ?_⟩
  · simp only [step, moveEvent, Session.step, if_pos hshown, hpress, Option.map_some]
  · refine ⟨(congrArg Kernel.terms hkernel).trans hterms,
      (congrArg Kernel.sched hkernel).trans hsched, ?_, fun p hp => ?_⟩
    · exact (submittedAfter_done hrun).trans (if_neg hne)
    · exact (congrArg (fun k' : Kernel => k'.kbd.historyOf p) hkernel).trans (hother p hp)
  · change t.lines t.kernel.terms.currentTerminal = _
    rw [hkernel, hterms, hlines, Function.update_self]

/-- One move: the key succeeds, and both the ring and the line follow. -/
theorem step_move (img : FsImage) (res : Residue) (frame : ExecuteFrame) (h : s.Remembered)
    (hshown : 1 ≤ s.session.kernel.sched.scheduleTop s.session.kernel.terms.currentTerminal)
    (hw : Walking (s.session.kernel.kbd.historyOf s.shown) s.recent draft depth)
    (htext : depth = 0 → s.line.text = draft) (m : Move) :
    ∃ s', step img s (moveEvent res frame m) = some s' ∧ SameShown s s' ∧
      Walking (s'.session.kernel.kbd.historyOf s.shown) s.recent draft
        (m.depth (reach s.recent.length) depth) ∧
      s'.line = moveLine s.recent draft (reach s.recent.length) depth s.line m := by
  have hr : Remembers (s.session.kernel.kbd.historyOf s.shown) s.recent depth := hw.remembers
  have hle := hr.depth_le
  cases m with
  | older =>
      obtain ⟨k, hrun, -⟩ := upHistory_shows h.shows.shows
      obtain ⟨hterms, hsched⟩ := Prod.mk.inj (keyStable_terms_sched.upHistory hrun)
      obtain ⟨hwalk, hother⟩ := upHistory_walks h.shows.shows hw htext hrun
      have hkey : handleKeyboardInput s.session.kernel (moveKey .older).toNat = some (.done k) := by
        rw [handleKeyboardInput_moveKey, hrun]
        rfl
      obtain ⟨s', hstep, hkernel, hsame, hline⟩ := step_of_done hshown hkey hterms hsched hother
      refine ⟨s', hstep, hsame, hkernel ▸ hwalk, ?_⟩
      have hedit : editOf s.session.kernel (moveKey .older).toNat =
          (olderLine s.session.kernel).elim .keep .replace := rfl
      rw [hline, hedit, olderLine_eq hr, moveLine]
      -- at the oldest line that can be reached the key does nothing
      by_cases hdepth : depth < reach s.recent.length
      · have hmove : Move.depth (reach s.recent.length) depth .older = depth + 1 :=
          Nat.min_eq_left hdepth
        rw [if_pos hdepth, hmove, if_neg (Nat.succ_ne_self depth)]
        rfl
      · have hmove : Move.depth (reach s.recent.length) depth .older = depth := by
          change min (depth + 1) (reach s.recent.length) = depth
          omega
        rw [if_neg hdepth, if_pos hmove]
        rfl
  | newer =>
      obtain ⟨k, hrun, -⟩ := downHistory_shows h.shows.shows
      obtain ⟨hterms, hsched⟩ := Prod.mk.inj (keyStable_terms_sched.downHistory hrun)
      obtain ⟨hwalk, hother⟩ := downHistory_walks hw hrun
      have hkey : handleKeyboardInput s.session.kernel (moveKey .newer).toNat = some (.done k) := by
        rw [handleKeyboardInput_moveKey, hrun]
        rfl
      obtain ⟨s', hstep, hkernel, hsame, hline⟩ := step_of_done hshown hkey hterms hsched hother
      refine ⟨s', hstep, hsame, hkernel ▸ hwalk, ?_⟩
      have hedit : editOf s.session.kernel (moveKey .newer).toNat =
          (newerLine s.session.kernel).elim .keep .replace := rfl
      -- at depth `0` the key does nothing, as in the reference
      rw [hline, hedit, newerLine_eq hw, moveLine]
      cases depth with
      | zero => rfl
      | succ d =>
          rw [if_neg (Nat.succ_ne_zero d)]
          exact (if_neg (Nat.succ_ne_self d).symm).symm

/-- Neither of the two keys types a newline. -/
theorem avoids_moveEvent (m : Move) (s' : HistorySession) :
    Avoids s (moveEvent res frame m) s' := by
  rintro code res' frame' hevent ⟨hcode, -⟩
  cases hevent
  cases m
  · exact absurd hcode (by decide)
  · exact absurd hcode (by decide)

/-- Every line within reach fits in the editor: it comes from a row of the ring. -/
theorem Remembered.fitting (h : s.Remembered)
    (hr : Remembers (s.session.kernel.kbd.historyOf s.shown) s.recent depth) :
    Fitting s.recent s.line.text (reach s.recent.length) := by
  intro d hd
  cases d with
  | zero => exact ⟨s.line.length_le, s.line.legal_text⟩
  | succ d =>
      have hfits := slot_fits (n := s.recent.length) (d := d + 1) (by decide : 0 < ringSize)
      have hends := h.shows.shows.history.ends s.shown _ hfits.1 hfits.2
      rw [← hr.keeps.lineAt_eq hd s.line.text]
      exact ⟨length_rowText_le hends, fun c hc => legal_of_mem_textFrom hc⟩

/-- A walk: the keys succeed one after another, and the line follows them. -/
theorem run_moves (img : FsImage) (res : Residue) (frame : ExecuteFrame) (h : s.Remembered)
    (hshown : 1 ≤ s.session.kernel.sched.scheduleTop s.session.kernel.terms.currentTerminal)
    (hw : Walking (s.session.kernel.kbd.historyOf s.shown) s.recent draft depth)
    (htext : s.line.text = lineAt s.recent draft depth)
    (hfit : Fitting s.recent draft (reach s.recent.length)) (moves : List Move) :
    ∃ s', runFrom (step img) s (moves.map (moveEvent res frame)) = some s' ∧ s'.Remembered ∧
      SameShown s s' ∧
      s'.line = walkLine s.recent draft (reach s.recent.length) depth s.line moves := by
  induction moves generalizing s depth with
  | nil => exact ⟨s, rfl, h, .refl s, rfl⟩
  | cons m moves ih =>
      obtain ⟨s₁, hstep, hsame, hw₁, hline⟩ :=
        step_move img res frame h hshown hw (fun hzero => by rw [htext, hzero, lineAt]) m
      have h₁ : s₁.Remembered := h.keep hstep (avoids_moveEvent m s₁)
      have hshown₁ : 1 ≤ s₁.session.kernel.sched.scheduleTop
          s₁.session.kernel.terms.currentTerminal := by
        rw [hsame.terms, hsame.sched]
        exact hshown
      have htext₁ := text_moveLine hfit hw.remembers.depth_le htext m
      rw [← hline] at htext₁
      rw [← hsame.shown_eq] at hw₁
      rw [← hsame.recent_eq] at hw₁ htext₁ hfit
      obtain ⟨s', hrun, hs', hsame', hline'⟩ := ih h₁ hshown₁ hw₁ htext₁ hfit
      refine ⟨s', ?_, hs', hsame.trans hsame', ?_⟩
      · rw [List.map_cons, runFrom_cons, hstep]
        exact hrun
      · rw [hline', hline, hsame.recent_eq]
        rfl

/-- What the up and down keys `moves` recall from the newest position: the line at the depth that
they reach, with the cursor at its end as soon as a line was recalled. -/
structure Recalls (s : HistorySession) (moves : List Move) (s' : HistorySession) : Prop where
  before : Shows s.session.kernel.kbd s.session.kernel.terms.currentTerminal s.line
  shows : Shows s'.session.kernel.kbd s.session.kernel.terms.currentTerminal s'.line
  text : s'.line.text =
    lineAt s.recent s.line.text (depthAfter (min s.recent.length 19) 0 moves)
  cursor : s'.line.cursor =
    if s.recent ≠ [] ∧ Move.older ∈ moves then s'.line.text.length else s.line.cursor
  others : ∀ p, p ≠ s.shown →
    s'.session.kernel.kbd.historyOf p = s.session.kernel.kbd.historyOf p

/-- Any up and down keys after the newest position recall the submitted lines. -/
theorem Remembered.recalls (h : s.Remembered) (img : FsImage)
    (hshown : 1 ≤ s.session.kernel.sched.scheduleTop s.session.kernel.terms.currentTerminal)
    (hnewest : s.session.kernel.kbd.historyIDX s.shown =
      s.session.kernel.kbd.historyBASE s.shown)
    (moves : List Move) (res : Residue) (frame : ExecuteFrame) :
    ∃ s', runFrom (step img) s (moves.map (moveEvent res frame)) = some s' ∧
      Recalls s moves s' := by
  obtain ⟨depth, hr⟩ := h.remembers s.shown
  -- the index is at the base, so no walk is under way
  have hzero : depth = 0 := by
    have hle := hr.depth_le
    have hbound : depth < ringSize := Nat.lt_of_le_of_lt hle
      (Nat.lt_of_le_of_lt (Nat.min_le_right _ _) (by decide))
    apply slot_injective hbound (by decide)
    exact (hr.index.symm.trans hnewest).trans hr.base
  subst hzero
  have hfit := h.fitting hr
  obtain ⟨s', hmoves, hs', hsame, hline⟩ := run_moves img res frame h hshown
    ⟨hr, fun hpos => absurd rfl hpos⟩ rfl hfit moves
  refine ⟨s', hmoves, h.shows.shows.shows _, ?_, ?_, ?_, hsame.others⟩
  · rw [← hsame.terms]
    exact hs'.shows.shows.shows _
  · rw [hline]
    exact text_walkLine hfit (Nat.zero_le _) rfl
  · rw [hline]
    split
    -- the cursor jumps to the end with the first line that is recalled
    next holder =>
      have hbound : reach s.recent.length ≠ 0 := by
        have hpos := List.length_pos_of_ne_nil holder.1
        change min s.recent.length 19 ≠ 0
        omega
      exact cursor_walkLine_of_older hfit hbound holder.2
    next hnot =>
      rw [walkLine_of_not_older]
      by_cases hempty : s.recent = []
      · left
        change min s.recent.length 19 = 0
        rw [hempty]
        rfl
      · exact Or.inr fun hmem => hnot ⟨hempty, hmem⟩

end Walk

/-- In every run whose keys type no newline, any up and down keys after the newest position recall
the submitted lines. -/
theorem recalls_of_run {img : FsImage} {espBoot : Word} {es : List HistoryEvent}
    {s : HistorySession} (hno : AllSteps (step img) Avoids (boot espBoot) es)
    (hrun : runFrom (step img) (boot espBoot) es = some s)
    (hshown : 1 ≤ s.session.kernel.sched.scheduleTop s.session.kernel.terms.currentTerminal)
    (hnewest : s.session.kernel.kbd.historyIDX s.shown =
      s.session.kernel.kbd.historyBASE s.shown)
    (moves : List Move) (res : Residue) (frame : ExecuteFrame) :
    ∃ s', runFrom (step img) s (moves.map (moveEvent res frame)) = some s' ∧
      Recalls s moves s' :=
  (remembered_of_run hno hrun).recalls img hshown hnewest moves res frame

/-! ## The first shell -/

/-- The first shell starts, gets the lines `a` and `b`, and `l` is typed with the cursor in front of
it. -/
def twoLines : List HistoryEvent :=
  .execute (some shellName) emptyResidue ⟨0x7FFFB0, 0x7F6300⟩ ::
    [0x1E, 0x1C, 0x30, 0x1C, 0x26, 0x4B].map fun code =>
      .session (.key code emptyResidue ⟨0x7F7D00, 0x7EE100⟩)

/-- The session after these events. -/
def twoLinesSession : HistorySession :=
  (runFrom (step shellImage) (boot 0x7FFFC0) twoLines).get (by decide +kernel)

theorem runFrom_twoLines :
    runFrom (step shellImage) (boot 0x7FFFC0) twoLines = some twoLinesSession :=
  (Option.some_get _).symm

/-- Runs without the key `0x76` type no newline. -/
theorem avoids_of_codes {img : FsImage} {es : List HistoryEvent}
    (hes : ∀ code res frame, .session (.key code res frame) ∈ es → code ≠ 0x76)
    {s : HistorySession} : AllSteps (step img) Avoids s es := by
  apply allSteps_of_mem
  rintro e hmem _ _ code res frame rfl ⟨hcode, -⟩
  exact hes code res frame hmem (UInt8.toNat_inj.mp hcode)

/-- Up, up, down: the last line `b` is on display, with the cursor at its end. -/
theorem recalls_twoLines :
    ∃ s', runFrom (step shellImage) twoLinesSession
        ([Move.older, .older, .newer].map (moveEvent emptyResidue ⟨0x7F7D00, 0x7EE100⟩)) =
          some s' ∧
      Recalls twoLinesSession [.older, .older, .newer] s' := by
  apply recalls_of_run _ runFrom_twoLines (by decide +kernel) (by decide +kernel)
  apply avoids_of_codes
  intro code res frame hmem
  simp only [twoLines, List.map_cons, List.map_nil, List.mem_cons, List.not_mem_nil, or_false,
    reduceCtorEq, HistoryEvent.session.injEq, SessionEvent.key.injEq, false_or] at hmem
  rcases hmem with ⟨rfl, -⟩ | ⟨rfl, -⟩ | ⟨rfl, -⟩ | ⟨rfl, -⟩ | ⟨rfl, -⟩ | ⟨rfl, -⟩ <;> decide

/-- After any up and down keys the cursor is at the end of the line. -/
def RecallsAtEnd (img : FsImage) (s : HistorySession) : Prop :=
  ∀ (moves : List Move) (res : Residue) (frame : ExecuteFrame) (s' : HistorySession),
    runFrom (step img) s (moves.map (moveEvent res frame)) = some s' →
      s'.session.kernel.kbd.bufferIDX s'.session.kernel.terms.currentTerminal =
        s'.session.kernel.kbd.bufferSIZE s'.session.kernel.terms.currentTerminal

/-- The session after a down key. -/
def downSession : HistorySession :=
  (runFrom (step shellImage) twoLinesSession
    ([Move.newer].map (moveEvent emptyResidue ⟨0x7F7D00, 0x7EE100⟩))).get (by decide +kernel)

/-- A down key at the newest position leaves the cursor in front of the `l`. -/
theorem not_recallsAtEnd_twoLines :
    twoLinesSession.session.kernel.kbd.historyIDX twoLinesSession.shown =
        twoLinesSession.session.kernel.kbd.historyBASE twoLinesSession.shown ∧
      downSession.session.kernel.kbd.bufferSIZE 0 = 1 ∧
      downSession.session.kernel.kbd.bufferIDX 0 = 0 ∧
      ¬ RecallsAtEnd shellImage twoLinesSession := by
  refine ⟨by decide +kernel, by decide +kernel, by decide +kernel, fun h => ?_⟩
  have hcursor := h [.newer] emptyResidue ⟨0x7F7D00, 0x7EE100⟩ downSession
    (Option.some_get _).symm
  exact absurd hcursor (by decide +kernel)

end HistorySession

end Ece391Os
