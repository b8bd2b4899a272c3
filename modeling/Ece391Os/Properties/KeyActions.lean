import Ece391Os.Properties.KeyCases
import Ece391Os.Properties.LineHistory

/-!
# What a key does to its terminal

The driver first translates a scan code, with the modifiers that all terminals share
(`keyAction`), and then acts on the line of the displayed terminal, on the history of the process
on top of its schedule stack and on its row of `read_buffer`. These three are the `Desk` of the
terminal; `Desk.act` performs an action on a desk alone, and `Replaces` says that the driver does
just this to the desk of the displayed terminal.
-/

set_option autoImplicit false

namespace Ece391Os

/-! ## Translation -/

/-- The modifiers, which all terminals share. -/
structure Modifiers where
  shiftDown : Bool
  capsLock : Bool
  ctrlDown : Bool
  altDown : Bool
  deriving DecidableEq, Repr

/-- The modifiers of the driver. -/
def Keyboard.modifiers (kbd : Keyboard) : Modifiers :=
  ⟨kbd.shiftDown, kbd.capsLock, kbd.ctrlDown, kbd.altDown⟩

/-- What a scan code asks for. -/
inductive KeyAction where
  | modify (m : Modifiers)
  | up
  | down
  | left
  | right
  | backspace
  | enter
  | type (c : UInt8)
  | clear
  | nothing
  deriving DecidableEq, Repr

/-- The translation of a scan code, which depends on the modifiers only. -/
def keyAction (kbd : Keyboard) (key : Nat) : KeyAction :=
  let pressed := key &&& releaseBit = 0
  let m := kbd.modifiers
  if key = capslock then .modify { m with capsLock := !kbd.capsLock }
  else if key = ctrlPress then .modify { m with ctrlDown := true }
  else if key = ctrlRelease then .modify { m with ctrlDown := false }
  else if key = altPress then .modify { m with altDown := true }
  else if key = altRelease then .modify { m with altDown := false }
  else if key = lshiftPress ∨ key = rshiftPress ∨ key = lshiftRelease ∨ key = rshiftRelease then
    .modify { m with shiftDown := !kbd.shiftDown }
  else if pressed ∧ key = upArrow then .up
  else if pressed ∧ key = downArrow then .down
  else if pressed ∧ key = leftArrow then .left
  else if pressed ∧ key = rightArrow then .right
  else if pressed ∧ key = backspaceKey then .backspace
  else if pressed ∧ key = enterKey then .enter
  else if pressed ∧ kbd.ctrlDown = false then .type (translate kbd key)
  else if pressed ∧ kbd.ctrlDown = true ∧ key = lKey then .clear
  else .nothing

/-- The driver acts. -/
def KeyAction.run (k : Kernel) : KeyAction → Option KeyOutcome
  | .modify m =>
      some (.done { k with kbd := { k.kbd with
        shiftDown := m.shiftDown, capsLock := m.capsLock, ctrlDown := m.ctrlDown,
        altDown := m.altDown } })
  | .up => (upHistory k).map .done
  | .down => (downHistory k).map .done
  | .left => some (.done (keyboardLeftArrow k))
  | .right => some (.done (keyboardRightArrow k))
  | .backspace =>
      if k.kbd.bufferIDX k.terms.currentTerminal = 0 then some (.done k)
      else (keyboardBackspace k).map .done
  | .enter => (keyboardEnter k).map .done
  | .type c =>
      if k.kbd.bufferSIZE k.terms.currentTerminal = maxCharacters then some (.done k)
      else if c = 0 then some (.done k)
      else if c = altF1 then some (.switch 0 k)
      else if c = altF2 then some (.switch 1 k)
      else if c = altF3 then some (.switch 2 k)
      else (keyboardInsert k c).map .done
  | .clear =>
      let k := clearKeyboardBuffer k
      some (.done { k with video := k.video.terminalClear })
  | .nothing => some (.done k)

/-- The modifiers behind an action. -/
def KeyAction.modifiersAfter (m : Modifiers) : KeyAction → Modifiers
  | .modify m' => m'
  | _ => m

/-- The translation depends on the modifiers only. -/
theorem keyAction_congr {kbd kbd' : Keyboard} (h : kbd.modifiers = kbd'.modifiers) (key : Nat) :
    keyAction kbd key = keyAction kbd' key := by
  have hshift : kbd.shiftDown = kbd'.shiftDown := congrArg Modifiers.shiftDown h
  have hcaps : kbd.capsLock = kbd'.capsLock := congrArg Modifiers.capsLock h
  have hctrl : kbd.ctrlDown = kbd'.ctrlDown := congrArg Modifiers.ctrlDown h
  have halt : kbd.altDown = kbd'.altDown := congrArg Modifiers.altDown h
  simp only [keyAction, translate, h, hshift, hcaps, hctrl, halt]

/-- `handle_keyboard_input` translates and then acts. -/
theorem handleKeyboardInput_eq (k : Kernel) (key : Nat) :
    handleKeyboardInput k key = (keyAction k.kbd key).run k := by
  simp only [handleKeyboardInput, keyAction, apply_ite (KeyAction.run k)]
  rfl

/-! ## Desks -/

/-- The line that is edited in a terminal, and what its reader sees. -/
structure InputLine where
  row : Row
  idx : Nat
  size : Nat
  returnSwitch : Switch
  readRow : Row

/-- The input of a terminal while one process is displayed in it. -/
structure Desk where
  line : InputLine
  history : History

/-- The part of a history that lies in its rows. -/
def History.window (h : History) : History :=
  { h with rows := fun j i =>
      if 0 ≤ j ∧ j < numHistoryBuffers ∧ i < maxBufferSize then h.rows j i else 0 }

/-- What the rows of process `p` hold. -/
def Keyboard.ringOf (kbd : Keyboard) (p : Pid) : History := (kbd.historyOf p).window

/-- The line of terminal `t`. -/
def Kernel.inputLine (k : Kernel) (t : Terminal) : InputLine where
  row := k.kbd.buffer t
  idx := k.kbd.bufferIDX t
  size := k.kbd.bufferSIZE t
  returnSwitch := k.terms.returnSwitch t
  readRow := k.terms.readBuffer t

/-- The desk of the displayed terminal. -/
def Kernel.desk (k : Kernel) : Desk where
  line := k.inputLine k.terms.currentTerminal
  history := k.kbd.ringOf k.displayedPid

namespace InputLine

/-- The line is cleared. -/
def clear (l : InputLine) : InputLine :=
  { l with row := fun i => if i < maxBufferSize then 0 else l.row i, idx := 0, size := 0 }

/-- A character is inserted. -/
def insert (l : InputLine) (c : UInt8) : Option InputLine := do
  let row ← insertLoop l.idx (l.size + 1) l.row
  let row ← rowSet row l.idx c
  return { l with row := row, idx := (l.idx + 1) % 256, size := (l.size + 1) % 256 }

/-- The character in front of the cursor is removed. -/
def backspace (l : InputLine) : Option InputLine := do
  let row ← backspaceLoop (l.size - (l.idx - 1)) (l.idx - 1) l.row
  let row ← rowSet row l.size 0
  return { l with row := row, idx := l.idx - 1, size := l.size - 1 }

/-- The cursor moves to the left. -/
def left (l : InputLine) : InputLine := if l.idx = 0 then l else { l with idx := l.idx - 1 }

/-- The cursor moves to the right. -/
def right (l : InputLine) : InputLine :=
  if l.idx = l.size then l else { l with idx := (l.idx + 1) % 256 }

/-- The line goes to the reader that waits for it. -/
def deliver (l : InputLine) : Option InputLine :=
  match l.returnSwitch with
  | .on =>
      (keyboardReadLoop l.row maxBufferSize 0 l.readRow).map fun r =>
        { l with readRow := r.2, returnSwitch := .off }
  | .off => some l
  | .hold => some l

end InputLine

namespace Desk

/-- The history line `i` replaces the line. -/
def recallLine (d : Desk) (i : Int) : Option Desk :=
  if 0 ≤ i ∧ i < numHistoryBuffers then
    (recallLoop (d.history.rows i) maxBufferSize 0 d.line.clear.row).map fun r =>
      { line := { d.line with row := r.1, idx := r.2 % 256, size := r.2 % 256 }
        history := { d.history with index := i } }
  else none

/-- The line is stored in the slot of the next line. -/
def copy (d : Desk) : Option Desk :=
  let base := d.history.base
  if 0 ≤ base ∧ base < numHistoryBuffers then
    let row : Row := fun i =>
      if i < maxBufferSize then historyByte (d.line.row i) else 0
    some { d with history := { d.history with
      rows := Function.update d.history.rows base row } }
  else none

/-- The next slot becomes the slot of the next line. -/
def increment (d : Desk) : Desk :=
  let h := d.history
  let base := (h.base + 1).tmod numHistoryBuffers
  { d with history := { h with
      base := base
      index := base
      size := if h.size < numHistoryBuffers then h.size + 1 else h.size } }

/-- The up key. -/
def up (d : Desk) : Option Desk :=
  let h := d.history
  if h.size < numHistoryBuffers ∧ h.index = 0 then some d
  else do
    let d ← if h.index = h.base then d.copy else some d
    let i := if h.index - 1 < 0 then numHistoryBuffers - 1 else h.index - 1
    if i = h.base then return d
    else d.recallLine i

/-- The down key. -/
def down (d : Desk) : Option Desk :=
  let h := d.history
  if h.size < numHistoryBuffers ∧ h.index = h.base then some d
  else if h.index = h.base then some d
  else d.recallLine ((h.index + 1).tmod numHistoryBuffers)

/-- The Enter key. -/
def enter (d : Desk) : Option Desk := do
  let d ← if d.line.row 0 ≠ 0 then d.copy.map increment else some d
  let row ← rowSet d.line.row d.line.size 10
  let line ← InputLine.deliver { d.line with row := row }
  return { d with line := line.clear }

/-- An action, on one desk. -/
def act (d : Desk) : KeyAction → Option Desk
  | .modify _ => some d
  | .up => d.up
  | .down => d.down
  | .left => some { d with line := d.line.left }
  | .right => some { d with line := d.line.right }
  | .backspace =>
      if d.line.idx = 0 then some d
      else d.line.backspace.map fun line => { d with line := line }
  | .enter => d.enter
  | .type c =>
      if d.line.size = maxCharacters then some d
      else if c = 0 then some d
      else if c = altF1 ∨ c = altF2 ∨ c = altF3 then some d
      else (d.line.insert c).map fun line => { d with line := line }
  | .clear => some { d with line := d.line.clear }
  | .nothing => some d

end Desk

/-! ## Inside of the rows -/

theorem rowGet_congr {row row' : Row} (h : ∀ j, j < maxBufferSize → row j = row' j) (i : Nat) :
    rowGet row i = rowGet row' i := by
  simp only [rowGet]
  split
  next hi => rw [h i hi]
  · rfl

/-- A recall reads the bytes of the row. -/
theorem recallLoop_congr {line line' : Row} (h : ∀ j, j < maxBufferSize → line j = line' j)
    (n i : Nat) (row : Row) : recallLoop line n i row = recallLoop line' n i row := by
  induction n generalizing i row with
  | zero => rfl
  | succ n ih => simp only [recallLoop, rowGet_congr h, ih]

/-- The window of a history in which a line has been stored. -/
theorem History.window_store (h : History) (old line : Row)
    (hbase : 0 ≤ h.base ∧ h.base < numHistoryBuffers) :
    History.window { h with rows := Function.update h.rows h.base fun i =>
      if i < maxBufferSize then historyByte (line i) else old i } =
    { h.window with rows := Function.update h.window.rows h.base fun i =>
      if i < maxBufferSize then historyByte (line i) else 0 } := by
  simp only [History.window]
  congr 1
  funext j i
  by_cases hj : j = h.base
  · subst hj
    by_cases hi : i < maxBufferSize
    · simp [hbase, hi]
    · simp [hi]
  · simp [Function.update_of_ne hj]

/-! ## The driver at the desk of the displayed terminal -/

/-- The input of all terminals is the same. -/
structure SameInput (k k' : Kernel) : Prop where
  terms : k'.terms = k.terms
  sched : k'.sched = k.sched
  buffer : k'.kbd.buffer = k.kbd.buffer
  idx : k'.kbd.bufferIDX = k.kbd.bufferIDX
  size : k'.kbd.bufferSIZE = k.kbd.bufferSIZE
  history : k'.kbd.historyOf = k.kbd.historyOf
  modifiers : k'.kbd.modifiers = k.kbd.modifiers

/-- The desk of the displayed terminal becomes `d`; the other lines and histories stay. -/
structure Replaces (k : Kernel) (d : Desk) (k' : Kernel) : Prop where
  terminal : k'.terms.currentTerminal = k.terms.currentTerminal
  shown : k'.displayedPid = k.displayedPid
  desk : k'.desk = d
  lines : ∀ u, u ≠ k.terms.currentTerminal → k'.inputLine u = k.inputLine u
  histories : ∀ p, p ≠ k.displayedPid → k'.kbd.ringOf p = k.kbd.ringOf p
  modifiers : k'.kbd.modifiers = k.kbd.modifiers

/-- The modifiers are set. -/
def Kernel.setModifiers (k : Kernel) (m : Modifiers) : Kernel :=
  { k with kbd := { k.kbd with
      shiftDown := m.shiftDown, capsLock := m.capsLock, ctrlDown := m.ctrlDown,
      altDown := m.altDown } }

section Driver

variable {k k' k₁ : Kernel} {d : Desk}

theorem SameInput.refl (k : Kernel) : SameInput k k := ⟨rfl, rfl, rfl, rfl, rfl, rfl, rfl⟩

theorem SameInput.trans (h : SameInput k k₁) (h' : SameInput k₁ k') : SameInput k k' :=
  ⟨h'.terms.trans h.terms, h'.sched.trans h.sched, h'.buffer.trans h.buffer, h'.idx.trans h.idx,
    h'.size.trans h.size, h'.history.trans h.history, h'.modifiers.trans h.modifiers⟩

/-- Text output and `key_flag` do not count. -/
theorem SameInput.output (h : SameInput k k') (flag : Bool) (video : Video) :
    SameInput k { k' with kbd := { k'.kbd with keyFlag := flag }, video := video } :=
  ⟨h.terms, h.sched, h.buffer, h.idx, h.size, h.history, h.modifiers⟩

theorem sameInput_terminalWrite (k : Kernel) (text : List UInt8) :
    SameInput k (terminalWrite k text).2 := by
  simp only [terminalWrite]
  split
  · exact .refl k
  · exact ⟨rfl, rfl, rfl, rfl, rfl, rfl, rfl⟩

theorem SameInput.displayedPid (h : SameInput k k') : k'.displayedPid = k.displayedPid := by
  simp only [Kernel.displayedPid, Kernel.topPid, h.terms, h.sched]

theorem SameInput.inputLine (h : SameInput k k') (u : Terminal) :
    k'.inputLine u = k.inputLine u := by
  simp only [Kernel.inputLine, h.terms, h.buffer, h.idx, h.size]

theorem SameInput.ringOf (h : SameInput k k') (p : Pid) : k'.kbd.ringOf p = k.kbd.ringOf p := by
  simp only [Keyboard.ringOf, h.history]

/-- Without effect on the input. -/
theorem SameInput.replaces (h : SameInput k k') : Replaces k k.desk k' where
  terminal := congrArg Terminals.currentTerminal h.terms
  shown := h.displayedPid
  desk := by
    simp only [Kernel.desk, h.displayedPid, h.ringOf, h.terms, h.inputLine]
  lines := fun u _ => h.inputLine u
  histories := fun p _ => h.ringOf p
  modifiers := h.modifiers

theorem Replaces.trans {d' : Desk} (h : Replaces k d k₁) (h' : Replaces k₁ d' k') :
    Replaces k d' k' where
  terminal := h'.terminal.trans h.terminal
  shown := h'.shown.trans h.shown
  desk := h'.desk
  lines := fun u hu => (h'.lines u (h.terminal.symm ▸ hu)).trans (h.lines u hu)
  histories := fun p hp => (h'.histories p (h.shown.symm ▸ hp)).trans (h.histories p hp)
  modifiers := h'.modifiers.trans h.modifiers

/-- Without effect on the input, behind something that has. -/
theorem Replaces.same (h : Replaces k d k₁) (h' : SameInput k₁ k') : Replaces k d k' := by
  have hrest := h'.replaces
  rw [h.desk] at hrest
  exact h.trans hrest

/-- One change of the desk behind another. -/
theorem Replaces.andThen {f : Desk → Desk} (h : Replaces k d k₁)
    (h' : Replaces k₁ (f k₁.desk) k') : Replaces k (f d) k' := by
  rw [h.desk] at h'
  exact h.trans h'

/-- A new line on the displayed terminal. -/
theorem SameInput.setLine (h : SameInput k k') (row : Row) (idx size : Nat) :
    Replaces k { k.desk with line := { k.desk.line with row := row, idx := idx, size := size } }
      (k'.setLine k.terms.currentTerminal row idx size) where
  terminal := congrArg Terminals.currentTerminal h.terms
  shown := h.displayedPid
  desk := by
    have hterminal : (k'.setLine k.terms.currentTerminal row idx size).terms.currentTerminal =
        k.terms.currentTerminal := congrArg Terminals.currentTerminal h.terms
    have hshown : (k'.setLine k.terms.currentTerminal row idx size).displayedPid =
        k.displayedPid := h.displayedPid
    have hring : (k'.setLine k.terms.currentTerminal row idx size).kbd.ringOf k.displayedPid =
        k.kbd.ringOf k.displayedPid := h.ringOf _
    simp only [Kernel.desk, hterminal, hshown, hring]
    simp [Kernel.inputLine, Kernel.setLine, h.terms]
  lines := fun u hu => by
    simp [Kernel.inputLine, Kernel.setLine, h.terms, h.buffer, h.idx, h.size,
      Function.update_of_ne hu]
  histories := fun p _ => h.ringOf p
  modifiers := h.modifiers

/-- `keyboard_insert`. -/
theorem replaces_keyboardInsert {c : UInt8} (h : keyboardInsert k c = some k') :
    ∃ l, k.desk.line.insert c = some l ∧ Replaces k { k.desk with line := l } k' := by
  obtain ⟨row, row', text, hloop, hset, -, rfl⟩ := keyboardInsert_eq_some h
  refine ⟨_, Option.bind_eq_some_iff.mpr ⟨row, hloop, Option.bind_eq_some_iff.mpr
    ⟨row', hset, rfl⟩⟩, ?_⟩
  have hstart : SameInput k { k with kbd := { k.kbd with keyFlag := true } } :=
    (SameInput.refl k).output true k.video
  have hwritten := hstart.trans (sameInput_terminalWrite _ text)
  exact (hwritten.output false _).setLine row' _ _

/-- `keyboard_backspace`. -/
theorem replaces_keyboardBackspace (h : keyboardBackspace k = some k') :
    ∃ l, k.desk.line.backspace = some l ∧ Replaces k { k.desk with line := l } k' := by
  obtain ⟨row, row', text, hloop, hset, -, rfl⟩ := keyboardBackspace_eq_some h
  refine ⟨_, Option.bind_eq_some_iff.mpr ⟨row, hloop, Option.bind_eq_some_iff.mpr
    ⟨row', hset, rfl⟩⟩, ?_⟩
  have hstart : SameInput k { k with video := k.video.backspace } :=
    (SameInput.refl k).output k.kbd.keyFlag k.video.backspace
  have hwritten := hstart.trans (sameInput_terminalWrite _ text)
  exact (hwritten.output _ _).setLine row' _ _

/-- The clearing of the line. -/
theorem SameInput.clear (h : SameInput k k') :
    Replaces k { k.desk with line := k.desk.line.clear } (clearKeyboardBuffer k') := by
  have hclear : clearKeyboardBuffer k' = k'.setLine k.terms.currentTerminal
      (k.desk.line.clear.row) 0 0 := by
    simp only [clearKeyboardBuffer, Kernel.setLine, h.terms, h.buffer]
    rfl
  rw [hclear]
  exact h.setLine _ 0 0

/-- A new cursor on the displayed terminal. -/
theorem setLine_idx (k : Kernel) (idx : Nat) (video : Video) :
    ({ k with
        kbd := { k.kbd with
          bufferIDX := Function.update k.kbd.bufferIDX k.terms.currentTerminal idx }
        video := video } : Kernel) =
      Kernel.setLine { k with video := video } k.terms.currentTerminal k.desk.line.row idx
        k.desk.line.size := by
  simp [Kernel.setLine, Kernel.desk, Kernel.inputLine]

/-- `keyboard_left_arrow`. -/
theorem replaces_keyboardLeftArrow (k : Kernel) :
    Replaces k { k.desk with line := k.desk.line.left } (keyboardLeftArrow k) := by
  have hidx : k.desk.line.idx = k.kbd.bufferIDX k.terms.currentTerminal := rfl
  simp only [keyboardLeftArrow, InputLine.left, hidx]
  split
  · exact (SameInput.refl k).replaces
  · rw [setLine_idx]
    exact ((SameInput.refl k).output k.kbd.keyFlag _).setLine _ _ _

/-- `keyboard_right_arrow`. -/
theorem replaces_keyboardRightArrow (k : Kernel) :
    Replaces k { k.desk with line := k.desk.line.right } (keyboardRightArrow k) := by
  have hidx : k.desk.line.idx = k.kbd.bufferIDX k.terms.currentTerminal := rfl
  have hsize : k.desk.line.size = k.kbd.bufferSIZE k.terms.currentTerminal := rfl
  simp only [keyboardRightArrow, InputLine.right, hidx, hsize]
  split
  · exact (SameInput.refl k).replaces
  · rw [setLine_idx]
    exact ((SameInput.refl k).output k.kbd.keyFlag _).setLine _ _ _

/-- A new history of the displayed process. -/
theorem replaces_history {kbd : Keyboard} {history : History}
    (hlines : kbd.buffer = k.kbd.buffer ∧ kbd.bufferIDX = k.kbd.bufferIDX ∧
      kbd.bufferSIZE = k.kbd.bufferSIZE) (hmodifiers : kbd.modifiers = k.kbd.modifiers)
    (hshown : kbd.ringOf k.displayedPid = history)
    (hothers : ∀ p, p ≠ k.displayedPid → kbd.historyOf p = k.kbd.historyOf p) (video : Video) :
    Replaces k { k.desk with history := history } { k with kbd := kbd, video := video } where
  terminal := rfl
  shown := rfl
  desk := by
    have hpid : Kernel.displayedPid { k with kbd := kbd, video := video } = k.displayedPid := rfl
    rw [Kernel.desk, hpid, hshown]
    simp only [Kernel.desk, Kernel.inputLine, hlines]
  lines := fun u _ => by simp only [Kernel.inputLine, hlines]
  histories := fun p hp => congrArg History.window (hothers p hp)
  modifiers := hmodifiers

/-- `copy_to_history`. -/
theorem replaces_copyToHistory (h : copyToHistory k = some k') :
    ∃ d, k.desk.copy = some d ∧ Replaces k d k' := by
  simp only [copyToHistory, Option.bind_eq_bind, Option.pure_def, historyRow] at h
  obtain ⟨old, hold, h⟩ := Option.bind_eq_some_iff.mp h
  obtain rfl := Option.some.inj h
  obtain ⟨hbase, hrow⟩ := Option.ite_none_right_eq_some.mp hold
  obtain rfl := Option.some.inj hrow
  refine ⟨_, if_pos hbase, ?_⟩
  apply replaces_history
  · exact ⟨rfl, rfl, rfl⟩
  · rfl
  · have hstore := History.window_store (k.kbd.historyOf k.displayedPid)
      (k.kbd.history k.displayedPid (k.kbd.historyBASE k.displayedPid)) k.desk.line.row hbase
    refine Eq.trans ?_ hstore
    simp [Keyboard.ringOf, Keyboard.historyOf, Kernel.desk, Kernel.inputLine]
  · intro p hp
    simp [Keyboard.historyOf, Function.update_of_ne hp]

/-- `increment_history_indices`. -/
theorem replaces_incrementHistoryIndices (k : Kernel) :
    Replaces k k.desk.increment (incrementHistoryIndices k) := by
  apply replaces_history
  · exact ⟨rfl, rfl, rfl⟩
  · rfl
  · simp [Keyboard.ringOf, History.window, Keyboard.historyOf, Kernel.desk]
    rfl
  · intro p hp
    simp [Keyboard.historyOf, Function.update_of_ne hp]

/-- The common end of the up and the down key. -/
theorem replaces_recallHistory {i : Int} (h : recallHistory k i = some k') :
    ∃ d, k.desk.recallLine i = some d ∧ Replaces k d k' := by
  simp only [recallHistory, Option.bind_eq_bind, Option.pure_def, historyRow] at h
  obtain ⟨line, hold, h⟩ := Option.bind_eq_some_iff.mp h
  obtain ⟨⟨row, n⟩, hloop, h⟩ := Option.bind_eq_some_iff.mp h
  obtain ⟨text, -, h⟩ := Option.bind_eq_some_iff.mp h
  obtain rfl := Option.some.inj h
  obtain ⟨hindex, hline⟩ := Option.ite_none_right_eq_some.mp hold
  obtain rfl := Option.some.inj hline
  -- the index moves, the line is cleared and filled, and the text is written
  have hmoved : Replaces k
      { k.desk with history := { k.desk.history with index := i } }
      { k with
        kbd := { k.kbd with
          historyIDX := Function.update k.kbd.historyIDX k.displayedPid i }
        video := k.video.resetInput (k.kbd.bufferIDX k.terms.currentTerminal)
          (k.kbd.bufferSIZE k.terms.currentTerminal) } := by
    apply replaces_history
    · exact ⟨rfl, rfl, rfl⟩
    · rfl
    · simp [Keyboard.ringOf, History.window, Keyboard.historyOf, Kernel.desk]
    · intro p hp
      simp [Keyboard.historyOf, Function.update_of_ne hp]
  have hcleared := hmoved.andThen (f := fun d => { d with line := d.line.clear })
    (SameInput.refl _).clear
  have hfilled := hcleared.andThen
    (f := fun d => { d with line := { d.line with row := row, idx := n % 256, size := n % 256 } })
    ((SameInput.refl _).setLine row (n % 256) (n % 256))
  have hwritten := hfilled.same (sameInput_terminalWrite _ text)
  have hrow : (clearKeyboardBuffer k).kbd.buffer k.terms.currentTerminal = k.desk.line.clear.row :=
    Function.update_self _ _ _
  have hclear : recallLoop (k.desk.history.rows i) maxBufferSize 0 k.desk.line.clear.row =
      some (row, n) := by
    rw [← hrow]
    refine (recallLoop_congr (fun j hj => ?_) _ _ _).trans hloop
    exact if_pos ⟨hindex.1, hindex.2, hj⟩
  exact ⟨_, (if_pos hindex).trans (by rw [hclear]; rfl), hwritten⟩

/-- `up_history`. -/
theorem replaces_upHistory (h : upHistory k = some k') :
    ∃ d, k.desk.up = some d ∧ Replaces k d k' := by
  have hindex : k.desk.history.index = k.kbd.historyIDX k.displayedPid := rfl
  have hbase : k.desk.history.base = k.kbd.historyBASE k.displayedPid := rfl
  have hsize : k.desk.history.size = k.kbd.historySIZE k.displayedPid := rfl
  simp only [upHistory, Option.bind_eq_bind, Option.pure_def] at h
  simp only [Desk.up, hindex, hbase, hsize, Option.bind_eq_bind, Option.pure_def]
  -- the index of the older line is the same on both sides
  generalize (if k.kbd.historyIDX k.displayedPid - 1 < 0 then numHistoryBuffers - 1
    else k.kbd.historyIDX k.displayedPid - 1) = i at h ⊢
  split at h
  next hnone =>
    obtain rfl := Option.some.inj h
    exact ⟨k.desk, if_pos hnone, (SameInput.refl k).replaces⟩
  next hsome =>
    rw [if_neg hsome]
    split at h
    next hsave =>
      -- the line in progress is saved before the walk begins
      obtain ⟨k₁, hcopy, h⟩ := Option.bind_eq_some_iff.mp h
      obtain ⟨d₁, hd₁, hr₁⟩ := replaces_copyToHistory hcopy
      rw [if_pos hsave, hd₁, Option.bind_some]
      split at h
      next hbase =>
        obtain rfl := Option.some.inj h
        exact ⟨d₁, if_pos hbase, hr₁⟩
      next hbase =>
        obtain ⟨d₂, hd₂, hr₂⟩ := replaces_recallHistory h
        rw [hr₁.desk] at hd₂
        exact ⟨d₂, (if_neg hbase).trans hd₂, hr₁.trans hr₂⟩
    next hkeep =>
      rw [Option.bind_some] at h
      rw [if_neg hkeep, Option.bind_some]
      split at h
      next hbase =>
        obtain rfl := Option.some.inj h
        exact ⟨k.desk, if_pos hbase, (SameInput.refl k).replaces⟩
      next hbase =>
        obtain ⟨d₂, hd₂, hr₂⟩ := replaces_recallHistory h
        exact ⟨d₂, (if_neg hbase).trans hd₂, hr₂⟩

/-- `down_history`. -/
theorem replaces_downHistory (h : downHistory k = some k') :
    ∃ d, k.desk.down = some d ∧ Replaces k d k' := by
  have hindex : k.desk.history.index = k.kbd.historyIDX k.displayedPid := rfl
  have hbase : k.desk.history.base = k.kbd.historyBASE k.displayedPid := rfl
  have hsize : k.desk.history.size = k.kbd.historySIZE k.displayedPid := rfl
  simp only [downHistory] at h
  simp only [Desk.down, hindex, hbase, hsize]
  split at h
  next hnone =>
    obtain rfl := Option.some.inj h
    exact ⟨k.desk, if_pos hnone, (SameInput.refl k).replaces⟩
  next hsome =>
    rw [if_neg hsome]
    split at h
    next hbase =>
      obtain rfl := Option.some.inj h
      exact ⟨k.desk, if_pos hbase, (SameInput.refl k).replaces⟩
    next hbase =>
      rw [if_neg hbase]
      exact replaces_recallHistory h

/-- `terminal_return`, for the line that it finds in the row. -/
theorem replaces_terminalReturn (h : terminalReturn k = some k') :
    ∃ l, k.desk.line.deliver = some l ∧ Replaces k { k.desk with line := l } k' := by
  have hswitch : k.desk.line.returnSwitch = k.terms.returnSwitch k.terms.currentTerminal := rfl
  simp only [terminalReturn] at h
  simp only [InputLine.deliver, hswitch]
  cases hvalue : k.terms.returnSwitch k.terms.currentTerminal with
  | on =>
      rw [hvalue] at h
      obtain ⟨r, hread, h⟩ := Option.bind_eq_some_iff.mp h
      obtain rfl := Option.some.inj h
      obtain ⟨r', hloop, rfl⟩ := Option.map_eq_some_iff.mp hread
      refine ⟨_, Option.map_eq_some_iff.mpr ⟨r', hloop, rfl⟩, ?_⟩
      constructor
      · rfl
      · rfl
      · simp [Kernel.desk, Kernel.inputLine, Kernel.displayedPid, Kernel.topPid]
      · intro u hu
        simp [Kernel.inputLine, Function.update_of_ne hu]
      · intro p _
        rfl
      · rfl
  | off =>
      rw [hvalue] at h
      obtain rfl := Option.some.inj h
      exact ⟨_, rfl, ((SameInput.refl k).output k.kbd.keyFlag _).replaces⟩
  | hold =>
      rw [hvalue] at h
      obtain rfl := Option.some.inj h
      exact ⟨_, rfl, (SameInput.refl k).replaces⟩

/-- The Enter key. -/
theorem replaces_keyboardEnter (h : keyboardEnter k = some k') :
    ∃ d, k.desk.enter = some d ∧ Replaces k d k' := by
  -- what comes behind the update of the history, from whichever kernel that has left
  have hfinish : ∀ {k₁ : Kernel} {d₁ : Desk}, Replaces k d₁ k₁ →
      ((rowSet (k₁.kbd.buffer k.terms.currentTerminal)
          (k₁.kbd.bufferSIZE k.terms.currentTerminal) 10).bind fun row =>
        (terminalReturn (k₁.setLine k.terms.currentTerminal row
          (k₁.kbd.bufferIDX k.terms.currentTerminal)
          (k₁.kbd.bufferSIZE k.terms.currentTerminal))).bind fun k =>
            some (clearKeyboardBuffer k)) = some k' →
      ∃ d, ((rowSet d₁.line.row d₁.line.size 10).bind fun row =>
        (InputLine.deliver { d₁.line with row := row }).bind fun line =>
          some { d₁ with line := line.clear }) = some d ∧ Replaces k d k' := by
    intro k₁ d₁ hr₁ hrun
    obtain ⟨row, hset, hrun⟩ := Option.bind_eq_some_iff.mp hrun
    obtain ⟨k₂, hreturn, hrun⟩ := Option.bind_eq_some_iff.mp hrun
    obtain rfl := Option.some.inj hrun
    obtain rfl := hr₁.desk
    rw [← hr₁.terminal] at hset hreturn
    have hr₂ := hr₁.trans ((SameInput.refl k₁).setLine row
      (k₁.kbd.bufferIDX k₁.terms.currentTerminal) (k₁.kbd.bufferSIZE k₁.terms.currentTerminal))
    obtain ⟨l, hl, hr₃⟩ := replaces_terminalReturn hreturn
    have hr₄ := (hr₂.trans hr₃).andThen (f := fun d => { d with line := d.line.clear })
      (SameInput.refl k₂).clear
    rw [hr₂.desk] at hl hr₄
    have hrow : rowSet k₁.desk.line.row k₁.desk.line.size 10 = some row := hset
    exact ⟨_, Option.bind_eq_some_iff.mpr ⟨row, hrow,
      Option.bind_eq_some_iff.mpr ⟨l, hl, rfl⟩⟩, hr₄⟩
  simp only [keyboardEnter, Option.bind_eq_bind, Option.pure_def] at h
  have hfirst : k.desk.line.row 0 = k.kbd.buffer k.terms.currentTerminal 0 := rfl
  simp only [Desk.enter, hfirst, Option.bind_eq_bind, Option.pure_def]
  split at h
  next hremember =>
    obtain ⟨k₁, hstored, h⟩ := Option.bind_eq_some_iff.mp h
    obtain ⟨k₂, hcopy, rfl⟩ := Option.map_eq_some_iff.mp hstored
    obtain ⟨d₁, hd₁, hr₁⟩ := replaces_copyToHistory hcopy
    rw [if_pos hremember, hd₁]
    exact hfinish (hr₁.andThen (replaces_incrementHistoryIndices k₂)) h
  next hempty =>
    rw [Option.bind_some] at h
    rw [if_neg hempty]
    exact hfinish (SameInput.refl k).replaces h

/-- What is done at the desk of the displayed terminal, and only there. The modifiers are set
first. -/
theorem replaces_run {a : KeyAction} (h : a.run k = some (.done k')) :
    ∃ d, k.desk.act a = some d ∧
      Replaces (k.setModifiers (a.modifiersAfter k.kbd.modifiers)) d k' := by
  have hsame := (SameInput.refl k).replaces
  cases a with
  | modify m =>
      cases h
      exact ⟨_, rfl, (SameInput.refl _).replaces⟩
  | up =>
      obtain ⟨k₁, hrun, heq⟩ := Option.map_eq_some_iff.mp h
      cases heq
      exact replaces_upHistory hrun
  | down =>
      obtain ⟨k₁, hrun, heq⟩ := Option.map_eq_some_iff.mp h
      cases heq
      exact replaces_downHistory hrun
  | left =>
      cases h
      exact ⟨_, rfl, replaces_keyboardLeftArrow k⟩
  | right =>
      cases h
      exact ⟨_, rfl, replaces_keyboardRightArrow k⟩
  | backspace =>
      have hidx : k.desk.line.idx = k.kbd.bufferIDX k.terms.currentTerminal := rfl
      simp only [KeyAction.run] at h
      simp only [Desk.act, hidx]
      split at h
      next hstart =>
        cases h
        exact ⟨_, if_pos hstart, hsame⟩
      next hinside =>
        obtain ⟨k₁, hrun, heq⟩ := Option.map_eq_some_iff.mp h
        cases heq
        -- the driver edits the row of the displayed terminal, which is the line of the desk
        obtain ⟨l, hl, hr⟩ := replaces_keyboardBackspace hrun
        exact ⟨_, (if_neg hinside).trans (by rw [hl]; rfl), hr⟩
  | enter =>
      obtain ⟨k₁, hrun, heq⟩ := Option.map_eq_some_iff.mp h
      cases heq
      exact replaces_keyboardEnter hrun
  | type c =>
      have hsize : k.desk.line.size = k.kbd.bufferSIZE k.terms.currentTerminal := rfl
      simp only [KeyAction.run] at h
      simp only [Desk.act, hsize]
      split at h
      next hfull =>
        cases h
        exact ⟨_, if_pos hfull, hsame⟩
      next hroom =>
        rw [if_neg hroom]
        split at h
        next hzero =>
          cases h
          exact ⟨_, if_pos hzero, hsame⟩
        next hchar =>
          rw [if_neg hchar]
          split at h
          · cases h
          -- the characters of Alt-F1 to Alt-F3 switch terminals, which is not a key that is done
          next h1 =>
            split at h
            · cases h
            next h2 =>
              split at h
              · cases h
              next h3 =>
                obtain ⟨k₁, hrun, heq⟩ := Option.map_eq_some_iff.mp h
                cases heq
                obtain ⟨l, hl, hr⟩ := replaces_keyboardInsert hrun
                have hplain : ¬ (c = altF1 ∨ c = altF2 ∨ c = altF3) := by
                  rintro (rfl | rfl | rfl)
                  · exact h1 rfl
                  · exact h2 rfl
                  · exact h3 rfl
                exact ⟨_, (if_neg hplain).trans (by rw [hl]; rfl), hr⟩
  | clear =>
      cases h
      have hclear := (SameInput.refl k).clear
      exact ⟨_, rfl, hclear.same ((SameInput.refl _).output k.kbd.keyFlag _)⟩
  | nothing =>
      cases h
      exact ⟨_, rfl, hsame⟩

/-- A key that ends in `terminal_switch` has changed nothing before. -/
theorem run_switch {a : KeyAction} {num : Terminal} (h : a.run k = some (.switch num k')) :
    (∃ c, a = .type c) ∧ k' = k := by
  cases a with
  | type c =>
      refine ⟨⟨c, rfl⟩, ?_⟩
      simp only [KeyAction.run] at h
      split at h
      · cases h
      · split at h
        · cases h
        · split at h
          · cases h
            rfl
          · split at h
            · cases h
              rfl
            · split at h
              · cases h
                rfl
              · obtain ⟨k₁, -, heq⟩ := Option.map_eq_some_iff.mp h
                cases heq
  | modify m => cases h
  | left => cases h
  | right => cases h
  | clear => cases h
  | nothing => cases h
  | backspace =>
      simp only [KeyAction.run] at h
      split at h
      · cases h
      · obtain ⟨k₁, -, heq⟩ := Option.map_eq_some_iff.mp h
        cases heq
  | up =>
      obtain ⟨k₁, -, heq⟩ := Option.map_eq_some_iff.mp h
      cases heq
  | down =>
      obtain ⟨k₁, -, heq⟩ := Option.map_eq_some_iff.mp h
      cases heq
  | enter =>
      obtain ⟨k₁, -, heq⟩ := Option.map_eq_some_iff.mp h
      cases heq

end Driver

/-! ## Programs and the modifiers -/

section Programs

variable {img : FsImage} {res : Residue} {frame : ExecuteFrame} {k k' : Kernel}

/-- A call of `execute` that returns leaves the modifiers. -/
theorem modifiers_execute_returned {command : Option CString} {v : Int}
    (hret : execute img res frame k command = .returned v k') :
    k'.kbd.modifiers = k.kbd.modifiers := by
  rw [callFrame_kbd.executeLoad.1 v (executeLoad_of_returned hret)]

/-- So does a call that starts a program: the clears of the line and of the history are no concern
of the modifiers. -/
theorem modifiers_execute_started {command : Option CString} {entry : Word}
    (hstart : execute img res frame k command = .started entry k') :
    k'.kbd.modifiers = k.kbd.modifiers := by
  obtain ⟨buf, k₁, hload, hspawn, -⟩ := executeSpawn_of_started hstart
  have hkeyboard : k₁.kbd = k.kbd := callFrame_kbd.executeLoad.2 _ hload
  rw [executeSpawn_kbd hspawn, ← hkeyboard]
  rfl

end Programs

end Ece391Os
