import Ece391Os.Model.Keyboard
import Ece391Os.Properties.InterruptedOutput

/-!
# What a scan code can do

`handle_keyboard_input` is one chain of tests. `Handles` lists how it can end, one constructor
for each routine that it calls; what is proved about all keys is proved by cases on it. The
routines write to the globals of the keyboard driver, to the text page and to the reader's row,
and nowhere else: a part of the kernel that is `KeyStable` is unchanged by them.
-/

set_option autoImplicit false

namespace Ece391Os

/-- How the handling of a scan code ends. -/
inductive Handles (k : Kernel) (key : Nat) : KeyOutcome → Prop where
  | modifiers (shift caps ctrl alt : Bool) :
      Handles k key (.done { k with kbd := { k.kbd with
        shiftDown := shift, capsLock := caps, ctrlDown := ctrl, altDown := alt } })
  | up {k' : Kernel} (hkey : key = upArrow) (hrun : upHistory k = some k') :
      Handles k key (.done k')
  | down {k' : Kernel} (hkey : key = downArrow) (hrun : downHistory k = some k') :
      Handles k key (.done k')
  | left : Handles k key (.done (keyboardLeftArrow k))
  | right : Handles k key (.done (keyboardRightArrow k))
  | backspace {k' : Kernel} (hcursor : k.kbd.bufferIDX k.terms.currentTerminal ≠ 0)
      (hrun : keyboardBackspace k = some k') : Handles k key (.done k')
  | enter {k' : Kernel} (hkey : key = enterKey) (hrun : keyboardEnter k = some k') :
      Handles k key (.done k')
  | insert {k' : Kernel} (hroom : k.kbd.bufferSIZE k.terms.currentTerminal ≠ maxCharacters)
      (hchar : translate k.kbd key ≠ 0) (hrun : keyboardInsert k (translate k.kbd key) = some k') :
      Handles k key (.done k')
  | switch (num : Terminal) : Handles k key (.switch num k)
  | clear : Handles k key (.done { clearKeyboardBuffer k with
      video := (clearKeyboardBuffer k).video.terminalClear })

section Cases

variable {k : Kernel} {key : Nat} {o : KeyOutcome}

/-- A key without effect. -/
theorem Handles.nothing : Handles k key (.done k) :=
  .modifiers k.kbd.shiftDown k.kbd.capsLock k.kbd.ctrlDown k.kbd.altDown

/-- The end of a routine that may leave a row. -/
theorem eq_done_of_map {r : Option Kernel} (h : r.map KeyOutcome.done = some o) :
    ∃ k', r = some k' ∧ o = .done k' := by
  obtain ⟨k', hrun, rfl⟩ := Option.map_eq_some_iff.mp h
  exact ⟨k', hrun, rfl⟩

/-- The branch that translates a key. -/
theorem handles_of_typeKey (h : typeKey k key = some o) : Handles k key o := by
  simp only [typeKey] at h
  split at h
  · cases h
    exact .nothing
  next hroom =>
    split at h
    · cases h
      exact .nothing
    next hchar =>
      split at h
      · cases h
        exact .switch 0
      · split at h
        · cases h
          exact .switch 1
        · split at h
          · cases h
            exact .switch 2
          · obtain ⟨k', hrun, rfl⟩ := eq_done_of_map h
            exact .insert hroom hchar hrun

/-- Every way through the chain of tests. -/
theorem handles_of_handleKeyboardInput (h : handleKeyboardInput k key = some o) :
    Handles k key o := by
  unfold handleKeyboardInput at h
  dsimp only at h
  -- one case for every guard of the handler, in the order of the source
  by_cases hcaps : key = capslock
  · rw [if_pos hcaps] at h
    cases h
    exact .modifiers _ _ _ _
  rw [if_neg hcaps] at h
  by_cases hctrl : key = ctrlPress
  · rw [if_pos hctrl] at h
    cases h
    exact .modifiers _ _ _ _
  rw [if_neg hctrl] at h
  by_cases hctrlRelease : key = ctrlRelease
  · rw [if_pos hctrlRelease] at h
    cases h
    exact .modifiers _ _ _ _
  rw [if_neg hctrlRelease] at h
  by_cases halt : key = altPress
  · rw [if_pos halt] at h
    cases h
    exact .modifiers _ _ _ _
  rw [if_neg halt] at h
  by_cases haltRelease : key = altRelease
  · rw [if_pos haltRelease] at h
    cases h
    exact .modifiers _ _ _ _
  rw [if_neg haltRelease] at h
  by_cases hshift : key = lshiftPress ∨ key = rshiftPress ∨ key = lshiftRelease ∨
      key = rshiftRelease
  · rw [if_pos hshift] at h
    cases h
    exact .modifiers _ _ _ _
  rw [if_neg hshift] at h
  -- from here on the guards ask for a press
  by_cases hup : key &&& releaseBit = 0 ∧ key = upArrow
  · rw [if_pos hup] at h
    obtain ⟨k', hrun, rfl⟩ := eq_done_of_map h
    exact .up hup.2 hrun
  rw [if_neg hup] at h
  by_cases hdown : key &&& releaseBit = 0 ∧ key = downArrow
  · rw [if_pos hdown] at h
    obtain ⟨k', hrun, rfl⟩ := eq_done_of_map h
    exact .down hdown.2 hrun
  rw [if_neg hdown] at h
  by_cases hleft : key &&& releaseBit = 0 ∧ key = leftArrow
  · rw [if_pos hleft] at h
    cases h
    exact .left
  rw [if_neg hleft] at h
  by_cases hright : key &&& releaseBit = 0 ∧ key = rightArrow
  · rw [if_pos hright] at h
    cases h
    exact .right
  rw [if_neg hright] at h
  by_cases hback : key &&& releaseBit = 0 ∧ key = backspaceKey
  · rw [if_pos hback] at h
    by_cases hstart : k.kbd.bufferIDX k.terms.currentTerminal = 0
    · rw [if_pos hstart] at h
      cases h
      exact .nothing
    · rw [if_neg hstart] at h
      obtain ⟨k', hrun, rfl⟩ := eq_done_of_map h
      exact .backspace hstart hrun
  rw [if_neg hback] at h
  by_cases henter : key &&& releaseBit = 0 ∧ key = enterKey
  · rw [if_pos henter] at h
    obtain ⟨k', hrun, rfl⟩ := eq_done_of_map h
    exact .enter henter.2 hrun
  rw [if_neg henter] at h
  -- with control held, no key but `l` does anything
  by_cases htype : key &&& releaseBit = 0 ∧ k.kbd.ctrlDown = false
  · rw [if_pos htype] at h
    exact handles_of_typeKey h
  rw [if_neg htype] at h
  by_cases hclear : key &&& releaseBit = 0 ∧ k.kbd.ctrlDown = true ∧ key = lKey
  · rw [if_pos hclear] at h
    cases h
    exact .clear
  rw [if_neg hclear] at h
  cases h
  exact .nothing

end Cases

/-! ## What keys leave alone -/

/-- A part of the kernel that does not depend on the keyboard driver, on text output and on the
interrupt flag. -/
structure KeyStable {α : Type} (f : Kernel → α) : Prop where
  kbd : ∀ (k : Kernel) (kbd : Keyboard), f { k with kbd := kbd } = f k
  output : ∀ (k : Kernel) (video : Video), k.video.Output video →
    f { k with video := video } = f k
  interrupts : ∀ (k : Kernel) (enabled : Bool), f { k with interrupts := enabled } = f k

namespace KeyStable

variable {α : Type} {f : Kernel → α} {k k' : Kernel}

theorem terminalWrite (h : KeyStable f) (k : Kernel) (text : List UInt8) :
    f (terminalWrite k text).2 = f k := by
  simp only [Ece391Os.terminalWrite]
  split
  · rfl
  · have houtput := h.output k _ (Video.Output.write k.video text)
    have hkbd := h.kbd { k with video := text.foldl Video.writeChar k.video }
      { k.kbd with keyFlag := k.kbd.keyFlag && text.all (· == 10) }
    exact (h.interrupts _ true).trans (hkbd.trans houtput)

/-- A statement of `terminal_write`. -/
theorem outputExec (h : KeyStable f) (k : Kernel) (st : OutputStatement) :
    f (st.exec k).1 = f k := by
  have houtput := h.output k _ (Video.Output.execVideo k.video st)
  have hkbd := h.kbd { k with video := (st.execVideo k.video).1 }
    { k.kbd with keyFlag := k.kbd.keyFlag && !st.clearsFlag }
  exact (h.interrupts _ true).trans (hkbd.trans houtput)

/-- A row and text output, as the routines for a key combine them. -/
theorem written (h : KeyStable f) {k₁ : Kernel} (hk₁ : f k₁ = f k) (text : List UInt8)
    {video : Video} (hvideo : (Ece391Os.terminalWrite k₁ text).2.video.Output video)
    (kbd : Keyboard) :
    f { (Ece391Os.terminalWrite k₁ text).2 with kbd := kbd, video := video } = f k := by
  have hkbd := h.kbd { (Ece391Os.terminalWrite k₁ text).2 with video := video } kbd
  exact hkbd.trans ((h.output _ video hvideo).trans ((h.terminalWrite k₁ text).trans hk₁))

theorem keyboardInsert (h : KeyStable f) {c : UInt8} (hrun : keyboardInsert k c = some k') :
    f k' = f k := by
  obtain ⟨_, row, text, -, -, -, rfl⟩ := keyboardInsert_eq_some hrun
  exact h.written (h.kbd k _) text (Video.Output.cursorLeft _ _) _

theorem keyboardBackspace (h : KeyStable f) (hrun : keyboardBackspace k = some k') :
    f k' = f k := by
  obtain ⟨_, row, text, -, -, -, rfl⟩ := keyboardBackspace_eq_some hrun
  exact h.written (h.output k _ (Video.Output.backspace _)) text (Video.Output.cursorLeft _ _) _

theorem keyboardLeftArrow (h : KeyStable f) (k : Kernel) : f (keyboardLeftArrow k) = f k := by
  simp only [Ece391Os.keyboardLeftArrow]
  split
  · rfl
  · exact (h.kbd { k with video := k.video.cursorLeft 1 } _).trans
      (h.output k _ (Video.Output.cursorLeft _ _))

theorem keyboardRightArrow (h : KeyStable f) (k : Kernel) : f (keyboardRightArrow k) = f k := by
  simp only [Ece391Os.keyboardRightArrow]
  split
  · rfl
  · exact (h.kbd { k with video := k.video.cursorRight 1 } _).trans
      (h.output k _ (Video.Output.cursorRight _ _))

theorem copyToHistory (h : KeyStable f) (hrun : copyToHistory k = some k') : f k' = f k := by
  simp only [Ece391Os.copyToHistory, Option.bind_eq_bind, Option.pure_def] at hrun
  obtain ⟨old, -, hrun⟩ := Option.bind_eq_some_iff.mp hrun
  obtain rfl := Option.some.inj hrun
  exact h.kbd k _

theorem recallHistory (h : KeyStable f) {i : Int} (hrun : recallHistory k i = some k') :
    f k' = f k := by
  simp only [Ece391Os.recallHistory, Option.bind_eq_bind, Option.pure_def] at hrun
  obtain ⟨line, -, hrun⟩ := Option.bind_eq_some_iff.mp hrun
  obtain ⟨⟨row, n⟩, -, hrun⟩ := Option.bind_eq_some_iff.mp hrun
  obtain ⟨text, -, hrun⟩ := Option.bind_eq_some_iff.mp hrun
  obtain rfl := Option.some.inj hrun
  refine (h.terminalWrite _ text).trans ((h.kbd _ _).trans ((h.kbd _ _).trans ?_))
  exact (h.kbd _ _).trans (h.output k _ (Video.Output.resetInput _ _ _))

theorem upHistory (h : KeyStable f) (hrun : upHistory k = some k') : f k' = f k := by
  simp only [Ece391Os.upHistory, Option.bind_eq_bind, Option.pure_def] at hrun
  generalize (if k.kbd.historyIDX k.displayedPid - 1 < 0 then numHistoryBuffers - 1
    else k.kbd.historyIDX k.displayedPid - 1) = i at hrun
  split at hrun
  · obtain rfl := Option.some.inj hrun
    rfl
  · split at hrun
    next hsave =>
      obtain ⟨k₁, hcopy, hrun⟩ := Option.bind_eq_some_iff.mp hrun
      split at hrun
      · obtain rfl := Option.some.inj hrun
        exact h.copyToHistory hcopy
      · exact (h.recallHistory hrun).trans (h.copyToHistory hcopy)
    next hkeep =>
      rw [Option.bind_some] at hrun
      split at hrun
      · obtain rfl := Option.some.inj hrun
        rfl
      · exact h.recallHistory hrun

theorem downHistory (h : KeyStable f) (hrun : downHistory k = some k') : f k' = f k := by
  simp only [Ece391Os.downHistory] at hrun
  split at hrun
  · obtain rfl := Option.some.inj hrun
    rfl
  · split at hrun
    · obtain rfl := Option.some.inj hrun
      rfl
    · exact h.recallHistory hrun

/-- `terminal_return` also writes to the reader's row and switch. -/
theorem terminalReturn (h : KeyStable f)
    (hreader : ∀ (k : Kernel) (switch : Terminal → Switch) (rows : Terminal → Row),
      f { k with terms := { k.terms with returnSwitch := switch, readBuffer := rows } } = f k)
    (hrun : terminalReturn k = some k') : f k' = f k := by
  simp only [Ece391Os.terminalReturn] at hrun
  split at hrun
  · obtain ⟨r, -, hrun⟩ := Option.bind_eq_some_iff.mp hrun
    obtain rfl := Option.some.inj hrun
    exact hreader k _ _
  · obtain rfl := Option.some.inj hrun
    exact h.output k _ (Video.Output.nextLine _)
  · obtain rfl := Option.some.inj hrun
    rfl

theorem keyboardEnter (h : KeyStable f)
    (hreader : ∀ (k : Kernel) (switch : Terminal → Switch) (rows : Terminal → Row),
      f { k with terms := { k.terms with returnSwitch := switch, readBuffer := rows } } = f k)
    (hrun : keyboardEnter k = some k') : f k' = f k := by
  have hfinish : ∀ {k₁ : Kernel}, f k₁ = f k →
      ((rowSet (k₁.kbd.buffer k.terms.currentTerminal)
          (k₁.kbd.bufferSIZE k.terms.currentTerminal) 10).bind fun row =>
        (Ece391Os.terminalReturn (k₁.setLine k.terms.currentTerminal row
          (k₁.kbd.bufferIDX k.terms.currentTerminal)
          (k₁.kbd.bufferSIZE k.terms.currentTerminal))).bind fun k =>
            some (clearKeyboardBuffer k)) = some k' → f k' = f k := by
    intro k₁ hk₁ hrun
    obtain ⟨row, -, hrun⟩ := Option.bind_eq_some_iff.mp hrun
    obtain ⟨k₂, hreturn, hrun⟩ := Option.bind_eq_some_iff.mp hrun
    obtain rfl := Option.some.inj hrun
    exact (h.kbd k₂ _).trans ((h.terminalReturn hreader hreturn).trans ((h.kbd k₁ _).trans hk₁))
  simp only [Ece391Os.keyboardEnter, Option.bind_eq_bind, Option.pure_def] at hrun
  split at hrun
  next hremember =>
    obtain ⟨k₁, hstored, hrun⟩ := Option.bind_eq_some_iff.mp hrun
    obtain ⟨k₂, hcopy, rfl⟩ := Option.map_eq_some_iff.mp hstored
    exact hfinish ((h.kbd k₂ _).trans (h.copyToHistory hcopy)) hrun
  next hempty =>
    rw [Option.bind_some] at hrun
    exact hfinish rfl hrun

/-- Every key that is handled in the driver. -/
theorem handles (h : KeyStable f)
    (hreader : ∀ (k : Kernel) (switch : Terminal → Switch) (rows : Terminal → Row),
      f { k with terms := { k.terms with returnSwitch := switch, readBuffer := rows } } = f k)
    {key : Nat} (hh : Handles k key (.done k')) : f k' = f k := by
  cases hh with
  | modifiers shift caps ctrl alt => exact h.kbd k _
  | up _ hrun => exact h.upHistory hrun
  | down _ hrun => exact h.downHistory hrun
  | left => exact h.keyboardLeftArrow k
  | right => exact h.keyboardRightArrow k
  | backspace _ hrun => exact h.keyboardBackspace hrun
  | enter _ hrun => exact h.keyboardEnter hreader hrun
  | insert _ _ hrun => exact h.keyboardInsert hrun
  | clear =>
      exact (h.output _ _ (Video.Output.terminalClear _)).trans (h.kbd k _)

end KeyStable

end Ece391Os
