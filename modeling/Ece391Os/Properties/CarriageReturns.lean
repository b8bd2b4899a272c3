import Ece391Os.Properties.LineRecall

/-!
# No carriage returns

`putc` takes a carriage return for a newline that does not scroll. The scan code tables have none,
so that no line gets one, and the history is filled from the lines.
-/

set_option autoImplicit false

namespace Ece391Os

open EventRun

/-- No carriage return is in the history. -/
def NoReturns (kbd : Keyboard) : Prop := ∀ p j i, kbd.history p j i ≠ 13

/-! ## Keys -/

section Keys

variable {k k' : Kernel} {kbd kbd' : Keyboard} {e : Line} {key : Nat} {c : UInt8}
  {text : List UInt8}

theorem getD_ne_return {table : List UInt8} (h : 13 ∉ table) (i : Nat) :
    table.getD i 0 ≠ 13 := by
  by_cases hi : i < table.length
  · rw [List.getD_eq_getElem _ _ hi]
    exact fun heq => h (heq ▸ List.getElem_mem hi)
  · rw [List.getD_eq_default _ _ (Nat.le_of_not_lt hi)]
    decide

/-- No key is translated to a carriage return. -/
theorem translate_ne_return (kbd : Keyboard) (key : Nat) : translate kbd key ≠ 13 := by
  have hscan : 13 ∉ scancode := by decide
  have hcaps : 13 ∉ capsCode := by decide
  have halt : 13 ∉ altCode := by decide
  rw [translate]
  split
  · exact getD_ne_return hscan _
  · split
    · exact getD_ne_return hcaps _
    · split
      · exact getD_ne_return hcaps _
      · split
        · exact getD_ne_return halt _
        · exact getD_ne_return hscan _

theorem NoReturns.of_rows (h : NoReturns kbd)
    (hrows : ∀ p, (kbd'.historyOf p).rows = (kbd.historyOf p).rows) : NoReturns kbd' := by
  intro p j i
  have hrow : kbd'.history p = kbd.history p := hrows p
  rw [hrow]
  exact h p j i

/-- The characters of a history line are bytes of its row. -/
theorem NoReturns.notMem_rowText (h : NoReturns kbd) (p : Pid) (i : Int) :
    13 ∉ rowText (kbd.history p i) := by
  intro hmem
  have hrow := (List.takeWhile_prefix _).subset hmem
  obtain ⟨j, -, hj⟩ := List.mem_map.mp hrow
  exact h p i j hj

/-- What an edit brings into the line is the character of the key or a line of the history. -/
structure BroughtBy (k : Kernel) (key : Nat) (edit : Edit UInt8) : Prop where
  insert : ∀ c, edit = .insert c → c = translate k.kbd key
  replace : ∀ text, edit = .replace text → olderLine k = some text ∨ newerLine k = some text

theorem broughtBy_editOf (k : Kernel) (key : Nat) : BroughtBy k key (editOf k key) := by
  have hrecall : ∀ o : Option (List UInt8), o = olderLine k ∨ o = newerLine k →
      BroughtBy k key (o.elim .keep .replace) := by
    intro o ho
    cases o with
    | none => exact ⟨nofun, nofun⟩
    | some text =>
        refine ⟨nofun, fun _ h => ?_⟩
        obtain rfl := Edit.replace.inj h
        exact ho.imp Eq.symm Eq.symm
  -- the guards of `editOf` in their order
  iterate 2 refine iteInduction (motive := BroughtBy k key) (fun _ => ⟨nofun, nofun⟩) fun _ => ?_
  refine iteInduction (motive := BroughtBy k key) (fun _ => hrecall _ (.inl rfl)) fun _ => ?_
  refine iteInduction (motive := BroughtBy k key) (fun _ => hrecall _ (.inr rfl)) fun _ => ?_
  iterate 4 refine iteInduction (motive := BroughtBy k key) (fun _ => ⟨nofun, nofun⟩) fun _ => ?_
  refine iteInduction (motive := BroughtBy k key) (fun _ => ?_) fun _ => ?_
  · exact iteInduction (motive := BroughtBy k key) (fun _ => ⟨nofun, nofun⟩)
      fun _ => ⟨fun _ h => (Edit.insert.inj h).symm, nofun⟩
  · exact iteInduction (motive := BroughtBy k key) (fun _ => ⟨nofun, nofun⟩)
      fun _ => ⟨nofun, nofun⟩

/-- A recalled line is a row of the history. -/
theorem NoReturns.notMem_recalled (h : NoReturns k.kbd)
    (htext : olderLine k = some text ∨ newerLine k = some text) : 13 ∉ text := by
  rcases htext with hold | hnew
  · simp only [olderLine] at hold
    generalize (if k.kbd.historyIDX k.displayedPid = 0 then numHistoryBuffers - 1
      else k.kbd.historyIDX k.displayedPid - 1) = i at hold
    split at hold
    · cases hold
    · split at hold
      · cases hold
      · obtain rfl := Option.some.inj hold
        exact h.notMem_rowText _ _
  · simp only [newerLine] at hnew
    split at hnew
    · cases hnew
    · obtain rfl := Option.some.inj hnew
      exact h.notMem_rowText _ _

/-- A key puts no carriage return in the line. -/
theorem NoReturns.notMem_apply (h : NoReturns k.kbd) (hline : 13 ∉ e.text) (key : Nat) :
    13 ∉ (e.apply (editOf k key)).text := by
  obtain ⟨hinsert, hreplace⟩ := broughtBy_editOf k key
  intro hmem
  rcases LineEditor.mem_apply hmem with hold | hnew | ⟨text, hrecall, hin⟩
  · exact hline hold
  · exact translate_ne_return k.kbd key (hinsert 13 hnew).symm
  · exact h.notMem_recalled (hreplace text hrecall) hin

/-- `copy_to_history` stores the line of the displayed terminal. -/
theorem NoReturns.copy (h : NoReturns k.kbd) (hshows : Shows k.kbd k.terms.currentTerminal e)
    (hline : 13 ∉ e.text) (hrun : copyToHistory k = some k') : NoReturns k'.kbd := by
  simp only [copyToHistory, Option.bind_eq_bind, Option.pure_def] at hrun
  obtain ⟨old, hold, hrun⟩ := Option.bind_eq_some_iff.mp hrun
  obtain rfl := Option.some.inj hrun
  intro p j i
  dsimp only
  rcases eq_or_ne p k.displayedPid with rfl | hp
  · rw [Function.update_self]
    rcases eq_or_ne j (k.kbd.historyBASE k.displayedPid) with rfl | hj
    · rw [Function.update_self]
      split
      next hin =>
        rw [historyByte]
        split
        · decide
        next hchar =>
          -- a byte that is kept is a character of the line
          intro hreturn
          have hlong : i < e.text.length := by
            by_contra hout
            exact hchar (.inr (hshows.fills.eq_terminator (Nat.le_of_not_lt hout) hin))
          exact hline (hreturn ▸ hshows.fills.mem hlong hin)
      next hout =>
        rw [historyRow] at hold
        split at hold
        · obtain rfl := Option.some.inj hold
          exact h _ _ i
        · cases hold
    · rw [Function.update_of_ne hj]
      exact h _ j i
  · rw [Function.update_of_ne hp]
    exact h p j i

theorem NoReturns.recall (h : NoReturns k.kbd) {i : Int} (hrun : recallHistory k i = some k') :
    NoReturns k'.kbd := by
  obtain ⟨hown, hothers⟩ := historyOf_recallHistory hrun
  refine h.of_rows fun p => ?_
  rcases eq_or_ne p k.displayedPid with rfl | hne
  · rw [hown]
  · rw [hothers p hne]

theorem NoReturns.up (h : NoReturns k.kbd) (hshows : Shows k.kbd k.terms.currentTerminal e)
    (hline : 13 ∉ e.text) (hrun : upHistory k = some k') : NoReturns k'.kbd := by
  simp only [upHistory, Option.bind_eq_bind, Option.pure_def] at hrun
  generalize (if k.kbd.historyIDX k.displayedPid - 1 < 0 then numHistoryBuffers - 1
    else k.kbd.historyIDX k.displayedPid - 1) = i at hrun
  split at hrun
  · obtain rfl := Option.some.inj hrun
    exact h
  · split at hrun
    next hsave =>
      obtain ⟨k₁, hcopy, hrun⟩ := Option.bind_eq_some_iff.mp hrun
      have hk₁ := h.copy hshows hline hcopy
      split at hrun
      · obtain rfl := Option.some.inj hrun
        exact hk₁
      · exact hk₁.recall hrun
    next hkeep =>
      rw [Option.bind_some] at hrun
      split at hrun
      · obtain rfl := Option.some.inj hrun
        exact h
      · exact h.recall hrun

theorem NoReturns.down (h : NoReturns k.kbd) (hrun : downHistory k = some k') :
    NoReturns k'.kbd := by
  simp only [downHistory] at hrun
  split at hrun
  · obtain rfl := Option.some.inj hrun
    exact h
  · split at hrun
    · obtain rfl := Option.some.inj hrun
      exact h
    · exact h.recall hrun

theorem NoReturns.enter (h : NoReturns k.kbd) (hshows : Shows k.kbd k.terms.currentTerminal e)
    (hline : 13 ∉ e.text) (hrun : keyboardEnter k = some k') : NoReturns k'.kbd := by
  simp only [keyboardEnter, Option.bind_eq_bind, Option.pure_def] at hrun
  split at hrun
  next hremember =>
    obtain ⟨k₂, hstored, hrun⟩ := Option.bind_eq_some_iff.mp hrun
    obtain ⟨k₁, hcopy, rfl⟩ := Option.map_eq_some_iff.mp hstored
    have hterms : k₁.terms = k.terms :=
      congrArg Prod.fst (keyStable_terms_sched.copyToHistory hcopy)
    have hk₁ := h.copy hshows hline hcopy
    rw [← hterms] at hrun
    have hfinish : NoReturns (incrementHistoryIndices k₁).kbd := hk₁
    exact hfinish.of_rows fun p => congrArg History.rows (historyOf_finishLine hrun p)
  next hempty =>
    rw [Option.bind_some] at hrun
    exact h.of_rows fun p => congrArg History.rows (historyOf_finishLine hrun p)

/-- Every key that is handled in the driver, one case for each of them. -/
theorem NoReturns.handles (h : NoReturns k.kbd) (hshows : Shows k.kbd k.terms.currentTerminal e)
    (hline : 13 ∉ e.text) (hh : Handles k key (.done k')) : NoReturns k'.kbd := by
  cases hh with
  | modifiers shift caps ctrl alt => exact h
  | up _ hrun => exact h.up hshows hline hrun
  | down _ hrun => exact h.down hrun
  | left => exact h.of_rows fun p => congrArg History.rows (historyOf_keyboardLeftArrow k p)
  | right => exact h.of_rows fun p => congrArg History.rows (historyOf_keyboardRightArrow k p)
  | backspace _ hrun =>
      exact h.of_rows fun p => congrArg History.rows (historyOf_keyboardBackspace hrun p)
  | enter _ hrun => exact h.enter hshows hline hrun
  | insert _ _ hrun =>
      exact h.of_rows fun p => congrArg History.rows (historyOf_keyboardInsert hrun p)
  | clear => exact h

/-- A new process starts with an empty history. -/
theorem NoReturns.clearHistory (h : NoReturns k.kbd) (pid : Pid) :
    NoReturns (clearHistoryBuffer k pid).kbd := by
  intro p j i
  dsimp only [clearHistoryBuffer]
  rcases eq_or_ne p pid with rfl | hp
  · rw [Function.update_self]
    split
    · decide
    · exact h p j i
  · rw [Function.update_of_ne hp]
    exact h p j i

end Keys

/-! ## Runs -/

/-- No line and no history has a carriage return. -/
structure Unreturned (s : Session) : Prop where
  lines : ∀ t, 13 ∉ (s.lines t).text
  history : NoReturns s.kernel.kbd

section Runs

variable {img : FsImage} {res : Residue} {frame : ExecuteFrame}

theorem NoReturns.started {k k' : Kernel} (h : NoReturns k.kbd) {command : Option CString}
    {entry : Word} (hexec : execute img res frame k command = .started entry k') :
    NoReturns k'.kbd := by
  obtain ⟨buf, k₁, hload, hspawn, -⟩ := executeSpawn_of_started hexec
  have hk₁ : NoReturns (clearKeyboardBuffer k₁).kbd := by
    show NoReturns { k₁.kbd with .. }
    rw [callFrame_kbd.executeLoad.2 _ hload]
    exact h
  rw [executeSpawn_kbd hspawn]
  exact hk₁.clearHistory _

theorem NoReturns.returned {k k' : Kernel} (h : NoReturns k.kbd) {command : Option CString}
    {v : Int} (hexec : execute img res frame k command = .returned v k') : NoReturns k'.kbd := by
  rw [callFrame_kbd.executeLoad.1 v (executeLoad_of_returned hexec)]
  exact h

variable {s s' : Session}

/-- One line is another one. -/
theorem Unreturned.line (h : Unreturned s) {k : Kernel} (hk : NoReturns k.kbd) (t : Terminal)
    {e : Line} (he : 13 ∉ e.text) :
    Unreturned { s with kernel := k, lines := Function.update s.lines t e } := by
  refine ⟨fun u => ?_, hk⟩
  dsimp only
  rcases eq_or_ne u t with rfl | hne
  · rw [Function.update_self]
    exact he
  · rw [Function.update_of_ne hne]
    exact h.lines u

/-- A scan code. -/
theorem Unreturned.press (h : Unreturned s) (hmatches : s.Matches) {key : Nat}
    (hpress : s.press img key res frame = some s') (hrow : s'.outOfRow = false) :
    Unreturned s' := by
  simp only [Session.press] at hpress
  split at hpress
  next hrun =>
    obtain rfl := Option.some.inj hpress
    cases hrow
  next k hrun =>
    obtain rfl := Option.some.inj hpress
    have hshows := hmatches.shows.shows s.kernel.terms.currentTerminal
    have hline := h.lines s.kernel.terms.currentTerminal
    exact h.line (h.history.handles hshows hline (handles_of_handleKeyboardInput hrun)) _
      (h.history.notMem_apply hline key)
  next num k hrun =>
    have hk : k = s.kernel := by
      cases handles_of_handleKeyboardInput hrun
      rfl
    subst hk
    split at hpress
    next hswitch =>
      obtain rfl := Option.some.inj hpress
      exact h
    next hswitch =>
      obtain rfl := Option.some.inj hpress
      exact ⟨h.lines, terminalSwitch_waiting_kbd hswitch ▸ h.history⟩
    next hswitch =>
      obtain rfl := Option.some.inj hpress
      obtain ⟨k₀, hkbd, -, hexec⟩ := terminalSwitch_executed_kbd hswitch
      have hk₀ : NoReturns k₀.kbd := hkbd ▸ h.history
      exact ⟨h.lines, hk₀.returned hexec.symm⟩
    next hswitch => cases hpress
    next hswitch =>
      obtain rfl := Option.some.inj hpress
      obtain ⟨k₀, hkbd, -, hexec⟩ := terminalSwitch_executed_kbd hswitch
      have hk₀ : NoReturns k₀.kbd := hkbd ▸ h.history
      exact h.line (hk₀.started hexec.symm) num List.not_mem_nil

/-- One step that types no newline. -/
theorem Unreturned.step {s s' : HistorySession} {e : HistoryEvent} (h : Unreturned s.session)
    (hremembered : s.Remembered) (hstep : s.step img e = some s')
    (hno : HistorySession.Avoids s e s') : Unreturned s'.session := by
  have hrow := (hremembered.keep hstep hno).shows.inRow
  cases e with
  | session e =>
      obtain ⟨t, hsession, rfl⟩ := Option.map_eq_some_iff.mp hstep
      cases e with
      | key code res frame =>
          simp only [Session.step] at hsession
          split at hsession
          next htop => exact h.press hremembered.shows hsession hrow
          next htop => cases hsession
      | wait u =>
          obtain rfl := Option.some.inj hsession
          exact ⟨h.lines, h.history⟩
  | execute command res frame =>
      simp only [HistorySession.step] at hstep
      split at hstep
      next v k hexec =>
        obtain rfl := Option.some.inj hstep
        exact ⟨h.lines, NoReturns.returned (k := s.session.kernel.cli) h.history hexec⟩
      next hexec => cases hstep
      next entry k hexec =>
        obtain rfl := Option.some.inj hstep
        exact h.line (NoReturns.started (k := s.session.kernel.cli) h.history hexec) _
          List.not_mem_nil
  | halt =>
      simp only [HistorySession.step] at hstep
      split at hstep
      next hpid =>
        obtain rfl := Option.some.inj hstep
        exact ⟨h.lines, h.history⟩
      next hpid => cases hstep
  | tick esp ebp =>
      obtain ⟨k, htick, rfl⟩ := Option.map_eq_some_iff.mp hstep
      exact ⟨h.lines, kbd_scheduleWrapper htick ▸ h.history⟩

/-- In no run from the boot on does a carriage return get into a line or a history. -/
theorem unreturned_of_run {espBoot : Word} {es : List HistoryEvent} {s : HistorySession}
    (hno : AllSteps (HistorySession.step img) HistorySession.Avoids
      (HistorySession.boot espBoot) es)
    (hrun : runFrom (HistorySession.step img) (HistorySession.boot espBoot) es = some s) :
    Unreturned s.session := by
  have hboot : Unreturned (HistorySession.boot espBoot).session :=
    ⟨fun _ => List.not_mem_nil, fun _ _ _ => (by decide : (0 : UInt8) ≠ 13)⟩
  have hboth : s.Remembered ∧ Unreturned s.session := invariant_of_allSteps
    (I := fun s => s.Remembered ∧ Unreturned s.session)
    (fun _ _ _ h hstep hQ => ⟨h.1.keep hstep hQ, h.2.step h.1 hstep hQ⟩)
    ⟨HistorySession.remembered_boot espBoot, hboot⟩ hno hrun
  exact hboth.2

end Runs

end Ece391Os
