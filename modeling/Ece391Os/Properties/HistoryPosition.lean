import Ece391Os.Properties.LineRecall

/-!
# The history position after Enter

Enter resets the position to the newest line only if it stores a line. An empty line leaves the
position where the up and down keys brought it. `newestAfterEnter_iff` says in which runs the
position is always the newest one, and that the next up key then recalls the line that was submitted
last.
-/

set_option autoImplicit false

namespace Ece391Os

open EventRun RecallRing

/-! ## The key -/

section Key

variable {k k' : Kernel}

/-- After Enter the position is the newest one exactly if the line was not empty or the position
was the newest one before. -/
theorem keyboardEnter_newest_iff (h : keyboardEnter k = some k') :
    k'.kbd.historyIDX k.displayedPid = k'.kbd.historyBASE k.displayedPid ↔
      k.kbd.buffer k.terms.currentTerminal 0 ≠ 0 ∨
        k.kbd.historyIDX k.displayedPid = k.kbd.historyBASE k.displayedPid := by
  simp only [keyboardEnter, Option.bind_eq_bind, Option.pure_def] at h
  by_cases hline : k.kbd.buffer k.terms.currentTerminal 0 ≠ 0
  · rw [if_pos hline] at h
    obtain ⟨k₁, hremember, h⟩ := Option.bind_eq_some_iff.mp h
    obtain ⟨k₂, hcopy, rfl⟩ := Option.map_eq_some_iff.mp hremember
    obtain ⟨row, rfl⟩ := exists_storeRow hcopy
    have hsame : k'.kbd.historyOf k.displayedPid =
        (incrementHistoryIndices (k.storeRow row)).kbd.historyOf k.displayedPid :=
      historyOf_finishLine h k.displayedPid
    have hmoved := (historyOf_incrementHistoryIndices (k.storeRow row)).1
    have hpid : (k.storeRow row).displayedPid = k.displayedPid := rfl
    rw [hpid] at hmoved
    rw [hmoved] at hsame
    -- both indices have been set to the slot behind the old base
    have hnewest : k'.kbd.historyIDX k.displayedPid = k'.kbd.historyBASE k.displayedPid :=
      (congrArg History.index hsame).trans (congrArg History.base hsame).symm
    exact ⟨fun _ => Or.inl hline, fun _ => hnewest⟩
  · rw [if_neg hline, Option.bind_some] at h
    have hsame := historyOf_finishLine h k.displayedPid
    have hindex : k'.kbd.historyIDX k.displayedPid = k.kbd.historyIDX k.displayedPid :=
      congrArg History.index hsame
    have hbase : k'.kbd.historyBASE k.displayedPid = k.kbd.historyBASE k.displayedPid :=
      congrArg History.base hsame
    rw [hindex, hbase]
    exact (or_iff_right hline).symm

/-- Enter changes neither the displayed process nor the schedule stacks. -/
theorem keyStable_shown : KeyStable fun k : Kernel => (k.terms.currentTerminal, k.sched) where
  kbd := fun _ _ => rfl
  output := fun _ _ _ => rfl
  interrupts := fun _ _ => rfl

theorem keyboardEnter_shown (h : keyboardEnter k = some k') :
    k'.terms.currentTerminal = k.terms.currentTerminal ∧ k'.sched = k.sched :=
  Prod.mk.inj (keyStable_shown.keyboardEnter (fun _ _ _ => rfl) h)

end Key

namespace HistorySession

/-! ## Enter in a session -/

/-- The event is the Enter key. -/
def IsEnter (e : HistoryEvent) : Prop :=
  ∃ code res frame, e = .session (.key code res frame) ∧ code.toNat = enterKey

/-- The position of the displayed process is the newest one. -/
def AtNewest (s : HistorySession) : Prop :=
  s.session.kernel.kbd.historyIDX s.shown = s.session.kernel.kbd.historyBASE s.shown

/-- The line of the displayed terminal is not empty. -/
def HasLine (s : HistorySession) : Prop :=
  s.session.kernel.kbd.buffer s.session.kernel.terms.currentTerminal 0 ≠ 0

/-- After Enter the position is the newest one, as long as no access has left its row. -/
def NewestAfterEnter (_ : HistorySession) (e : HistoryEvent) (s' : HistorySession) : Prop :=
  IsEnter e → s'.session.outOfRow = false → s'.AtNewest

/-- Enter is pressed with a line that is not empty, or at the newest position. -/
def EnterFits (s : HistorySession) (e : HistoryEvent) (s' : HistorySession) : Prop :=
  IsEnter e → s'.session.outOfRow = false → s.HasLine ∨ s.AtNewest

section Enter

variable {img : FsImage} {s s' : HistorySession}

/-- Enter, when no access leaves its row. -/
theorem step_enter {e : HistoryEvent} (henter : IsEnter e) (hstep : step img s e = some s')
    (hrow : s'.session.outOfRow = false) :
    keyboardEnter s.session.kernel = some s'.session.kernel ∧
      1 ≤ s.session.kernel.sched.scheduleTop s.session.kernel.terms.currentTerminal := by
  obtain ⟨code, res, frame, rfl, hcode⟩ := henter
  obtain ⟨t, ht, rfl⟩ := Option.map_eq_some_iff.mp hstep
  obtain ⟨htop, hpress⟩ := Option.ite_none_right_eq_some.mp ht
  have hbranch : handleKeyboardInput s.session.kernel code.toNat =
      (keyboardEnter s.session.kernel).map .done := by
    rw [hcode]
    rfl
  simp only [Session.press, hbranch] at hpress
  refine ⟨?_, htop⟩
  cases hrun : keyboardEnter s.session.kernel with
  | none =>
      rw [hrun] at hpress
      obtain rfl := Option.some.inj hpress
      cases hrow
  | some k =>
      rw [hrun] at hpress
      obtain rfl := Option.some.inj hpress
      rfl

theorem shown_enter (hrun : keyboardEnter s.session.kernel = some s'.session.kernel) :
    s'.shown = s.shown := by
  obtain ⟨hterminal, hsched⟩ := keyboardEnter_shown hrun
  simp only [shown, Kernel.displayedPid, Kernel.topPid, hterminal, hsched]

/-- One Enter. -/
theorem newestAfterEnter_step_iff {e : HistoryEvent} (hstep : step img s e = some s') :
    NewestAfterEnter s e s' ↔ EnterFits s e s' := by
  constructor
  · intro hnewest henter hrow
    obtain ⟨hrun, -⟩ := step_enter henter hstep hrow
    have hafter := hnewest henter hrow
    rw [AtNewest, shown_enter hrun] at hafter
    exact (keyboardEnter_newest_iff hrun).mp hafter
  · intro hfits henter hrow
    obtain ⟨hrun, -⟩ := step_enter henter hstep hrow
    rw [AtNewest, shown_enter hrun]
    exact (keyboardEnter_newest_iff hrun).mpr (hfits henter hrow)

/-! ## The next up key -/

/-- The next up key recalls the line that was submitted last, if there is one. -/
def RecallsLast (img : FsImage) (s : HistorySession) : Prop :=
  ∀ (line : List UInt8) (older : List (List UInt8)) (res : Residue) (frame : ExecuteFrame),
    s.recent = line :: older →
      ∃ s', step img s (moveEvent res frame .older) = some s' ∧
        Shows s'.session.kernel.kbd s.session.kernel.terms.currentTerminal s'.line ∧
        s'.line.text = line

/-- At the newest position of a displayed process. -/
theorem Remembered.recallsLast (h : s.Remembered) (img : FsImage)
    (hshown : 1 ≤ s.session.kernel.sched.scheduleTop s.session.kernel.terms.currentTerminal)
    (hnewest : s.AtNewest) : RecallsLast img s := by
  intro line older res frame hrecent
  obtain ⟨s', hrun, hrecalls⟩ := h.recalls img hshown hnewest [.older] res frame
  have hdepth : depthAfter (min s.recent.length 19) 0 [Move.older] = 1 := by
    rw [hrecent]
    change min 1 (min (older.length + 1) 19) = 1
    omega
  obtain ⟨t, hstep, hrest⟩ := Option.bind_eq_some_iff.mp hrun
  obtain rfl := Option.some.inj hrest
  refine ⟨t, hstep, hrecalls.shows, ?_⟩
  rw [hrecalls.text, hdepth, hrecent]
  rfl

/-- One step that types no newline. -/
theorem Remembered.enter_step (h : s.Remembered) {e : HistoryEvent}
    (hstep : step img s e = some s') (hno : Avoids s e s') (hfits : EnterFits s e s') :
    s'.Remembered ∧ (IsEnter e → s'.AtNewest ∧ RecallsLast img s') := by
  have h' : s'.Remembered := h.keep hstep hno
  refine ⟨h', fun henter => ?_⟩
  have hrow := h'.shows.inRow
  obtain ⟨hrun, htop⟩ := step_enter henter hstep hrow
  obtain ⟨hterminal, hsched⟩ := keyboardEnter_shown hrun
  have hnewest := (newestAfterEnter_step_iff hstep).mpr hfits henter hrow
  refine ⟨hnewest, h'.recallsLast img ?_ hnewest⟩
  rw [hterminal, hsched]
  exact htop

end Enter

/-! ## Every run -/

/-- In every run, the position is the newest one after every Enter exactly if Enter is only pressed
with a line that is not empty or at the newest position. If no key types a newline besides, the up
key behind such an Enter recalls the line that was submitted last. -/
theorem newestAfterEnter_iff (img : FsImage) (espBoot : Word) (es : List HistoryEvent) :
    (AllSteps (step img) NewestAfterEnter (boot espBoot) es ↔
        AllSteps (step img) EnterFits (boot espBoot) es) ∧
      (AllSteps (step img) (fun s e s' => Avoids s e s' ∧ EnterFits s e s') (boot espBoot) es →
        AllSteps (step img) (fun _ e s' => IsEnter e → s'.AtNewest ∧ RecallsLast img s')
          (boot espBoot) es) := by
  constructor
  · apply allSteps_iff_of_invariant (I := fun _ => True) ?_ (fun _ _ _ _ _ _ => trivial) es trivial
    intro s e s' _ hstep
    exact newestAfterEnter_step_iff hstep
  · intro hall
    apply allSteps_of_invariant ?_ (remembered_boot espBoot) hall
    intro s e s' h hstep hsteps
    exact h.enter_step hstep hsteps.1 hsteps.2

/-- The first shell gets the line `a`, which is then recalled and erased. -/
def erasesRecalled : List HistoryEvent :=
  .execute (some shellName) emptyResidue ⟨0x7FFFB0, 0x7F6300⟩ ::
    [0x1E, 0x1C, 0x48, 0x0E].map fun code =>
      .session (.key code emptyResidue ⟨0x7F7D00, 0x7EE100⟩)

/-- Enter. -/
def pressEnter : HistoryEvent := .session (.key 0x1C emptyResidue ⟨0x7F7D00, 0x7EE100⟩)

/-- After Enter on the erased line the position stays at the recalled one. -/
theorem not_newestAfterEnter_erasesRecalled :
    (∃ s, runFrom (step shellImage) (boot 0x7FFFC0) (erasesRecalled ++ [pressEnter]) = some s ∧
        s.session.outOfRow = false ∧ s.session.kernel.kbd.historyIDX s.shown = 0 ∧
        s.session.kernel.kbd.historyBASE s.shown = 1) ∧
      ¬ AllSteps (step shellImage) NewestAfterEnter (boot 0x7FFFC0)
        (erasesRecalled ++ [pressEnter]) := by
  have hfinal : (runFrom (step shellImage) (boot 0x7FFFC0) (erasesRecalled ++ [pressEnter])).map
      (fun s => (s.session.outOfRow, s.session.kernel.kbd.historyIDX s.shown,
        s.session.kernel.kbd.historyBASE s.shown)) = some (false, 0, 1) := by decide
  obtain ⟨s, hrun, hs⟩ := Option.map_eq_some_iff.mp hfinal
  simp only [Prod.mk.injEq] at hs
  obtain ⟨hrow, hindex, hbase⟩ := hs
  refine ⟨⟨s, hrun, hrow, hindex, hbase⟩, fun hall => ?_⟩
  rw [runFrom_append] at hrun
  obtain ⟨t, hprefix, hlast⟩ := Option.bind_eq_some_iff.mp hrun
  obtain ⟨s', hstep, hend⟩ := Option.bind_eq_some_iff.mp hlast
  obtain rfl := Option.some.inj hend
  obtain ⟨hnewest, -⟩ := allSteps_of_append hall hprefix s' hstep
  have hafter := hnewest ⟨_, _, _, rfl, rfl⟩ hrow
  rw [AtNewest, hindex, hbase] at hafter
  cases hafter

end HistorySession

end Ece391Os
