import Mathlib.Data.List.TakeWhile
import Ece391Os.Library.LineEditor
import Ece391Os.Model.Keyboard

/-!
# Line buffers

What the routines of `keyboard.c` do to the rows and counters, in terms of the lines these
stand for. `LinesShow` relates the globals of the driver to one line for each terminal; each
routine succeeds and makes one edit of the line of the displayed terminal.
-/

set_option autoImplicit false

namespace Ece391Os

/-- The characters of a line: neither `NUL` nor a newline. -/
def Legal (c : UInt8) : Prop := c ≠ 0 ∧ c ≠ 10

instance : DecidablePred Legal := fun _ => inferInstanceAs (Decidable (_ ∧ _))

/-- The reference editor: a line of at most 127 characters with a cursor. -/
abbrev Line := LineEditor UInt8 maxCharacters Legal

/-- The row and the counters of terminal `t` hold the line `e`. -/
structure Shows (kbd : Keyboard) (t : Terminal) (e : Line) : Prop where
  fills : Fills 0 maxBufferSize (kbd.buffer t) e.text
  index : kbd.bufferIDX t = e.cursor
  size : kbd.bufferSIZE t = e.text.length

/-- The history indices are in range, and the last byte of each history line is `NUL`. -/
structure HistoryFits (kbd : Keyboard) : Prop where
  base : ∀ p, 0 ≤ kbd.historyBASE p ∧ kbd.historyBASE p < numHistoryBuffers
  index : ∀ p, 0 ≤ kbd.historyIDX p ∧ kbd.historyIDX p < numHistoryBuffers
  ends : ∀ p j, 0 ≤ j → j < numHistoryBuffers → kbd.history p j maxCharacters = 0

/-- The globals of the driver hold one line for each terminal. -/
structure LinesShow (kbd : Keyboard) (lines : Terminal → Line) : Prop where
  shows : ∀ t, Shows kbd t (lines t)
  history : HistoryFits kbd

/-! ## Frames -/

section Frames

variable {k : Kernel} {kbd kbd' : Keyboard} {lines : Terminal → Line} {t u : Terminal}
  {e : Line} {row : Row}

theorem Line.length_le (e : Line) : e.text.length ≤ 127 := LineEditor.length_le e

theorem Shows.of_eq (h : Shows kbd t e) (hbuffer : kbd'.buffer t = kbd.buffer t)
    (hindex : kbd'.bufferIDX t = kbd.bufferIDX t)
    (hsize : kbd'.bufferSIZE t = kbd.bufferSIZE t) : Shows kbd' t e where
  fills := hbuffer ▸ h.fills
  index := hindex.trans h.index
  size := hsize.trans h.size

/-- One line is edited. -/
theorem LinesShow.edit (hself : Shows kbd t e) (hother : ∀ u, u ≠ t → Shows kbd u (lines u))
    (hhistory : HistoryFits kbd) : LinesShow kbd (Function.update lines t e) where
  shows := by
    intro u
    rcases eq_or_ne u t with rfl | hne
    · rw [Function.update_self]
      exact hself
    · rw [Function.update_of_ne hne]
      exact hother u hne
  history := hhistory

/-- The modifiers and `key_flag` do not matter. -/
theorem LinesShow.flags (h : LinesShow kbd lines) (shift caps ctrl alt flag : Bool) :
    LinesShow { kbd with
      shiftDown := shift, capsLock := caps, ctrlDown := ctrl, altDown := alt,
      keyFlag := flag } lines :=
  ⟨fun t => (h.shows t).of_eq rfl rfl rfl, h.history.base, h.history.index, h.history.ends⟩

/-- Output leaves the lines alone. -/
theorem LinesShow.terminalWrite (h : LinesShow k.kbd lines) (text : List UInt8) :
    LinesShow (terminalWrite k text).2.kbd lines := by
  simp only [Ece391Os.terminalWrite]
  split
  · exact h
  · exact h.flags _ _ _ _ _

/-- A new row with its counters. -/
theorem LinesShow.setLine (h : LinesShow k.kbd lines) {idx size : Nat}
    (hfills : Fills 0 maxBufferSize row e.text) (hidx : idx = e.cursor)
    (hsize : size = e.text.length) :
    LinesShow (k.setLine t row idx size).kbd (Function.update lines t e) := by
  apply LinesShow.edit
  · exact
      { fills := by simpa [Kernel.setLine] using hfills
        index := by simp [Kernel.setLine, hidx]
        size := by simp [Kernel.setLine, hsize] }
  · intro u hne
    exact (h.shows u).of_eq (Function.update_of_ne hne _ _) (Function.update_of_ne hne _ _)
      (Function.update_of_ne hne _ _)
  · exact ⟨h.history.base, h.history.index, h.history.ends⟩

/-- The cleared line of the displayed terminal, whatever it was before. -/
theorem clearKeyboardBuffer_shows
    (hother : ∀ u, u ≠ k.terms.currentTerminal → Shows k.kbd u (lines u))
    (hhistory : HistoryFits k.kbd) :
    LinesShow (clearKeyboardBuffer k).kbd
      (Function.update lines k.terms.currentTerminal .empty) := by
  apply LinesShow.edit
  · exact
      { fills := Fills.nil fun i hi => by simp [clearKeyboardBuffer, hi]
        index := by simp [clearKeyboardBuffer, LineEditor.empty]
        size := by simp [clearKeyboardBuffer, LineEditor.empty] }
  · intro u hne
    exact (hother u hne).of_eq (Function.update_of_ne hne _ _) (Function.update_of_ne hne _ _)
      (Function.update_of_ne hne _ _)
  · exact ⟨hhistory.base, hhistory.index, hhistory.ends⟩

end Frames

/-! ## Loops -/

/-- The loop of `keyboard_insert` moves the bytes `idx .. n - 1` to the right. -/
theorem insertLoop_eq (idx : Nat) {n : Nat} (hn : n < maxBufferSize) (row : Row) :
    insertLoop idx n row =
      some fun j => if idx < j ∧ j ≤ n then row (j - 1) else row j := by
  induction n generalizing row with
  | zero =>
      simp only [insertLoop, Option.some.injEq]
      funext j
      rw [if_neg (by omega)]
  | succ n ih =>
      simp only [insertLoop]
      split
      next hstop =>
        rw [Option.some.injEq]
        funext j
        rw [if_neg (by omega)]
      next hmove =>
        simp only [rowGet, rowSet, if_pos hn, if_pos (Nat.lt_of_succ_lt hn),
          Option.bind_eq_bind, Option.bind_some]
        rw [ih (Nat.lt_of_succ_lt hn), Option.some.injEq]
        funext j
        rcases Nat.lt_trichotomy j (n + 1) with hlt | rfl | hgt
        · rw [Function.update_of_ne (by omega), Function.update_of_ne (by omega)]
          simp only [show j ≤ n ↔ j ≤ n + 1 by omega]
        · rw [if_neg (by omega), if_pos (by omega), Function.update_self, Nat.add_sub_cancel]
        · rw [if_neg (by omega), if_neg (by omega), Function.update_of_ne (by omega)]

/-- The loop of `keyboard_backspace` moves the bytes `i + 1 .. i + n` to the left. -/
theorem backspaceLoop_eq {n i : Nat} (hn : i + n < maxBufferSize) (row : Row) :
    backspaceLoop n i row =
      some fun j => if i ≤ j ∧ j < i + n then row (j + 1) else row j := by
  induction n generalizing i row with
  | zero =>
      simp only [backspaceLoop, Option.some.injEq]
      funext j
      rw [if_neg (by omega)]
  | succ n ih =>
      have hget : i + 1 < maxBufferSize := by omega
      simp only [backspaceLoop, rowGet, rowSet, if_pos hget, if_pos (Nat.lt_of_succ_lt hget),
        Option.bind_eq_bind, Option.bind_some]
      rw [ih (by omega), Option.some.injEq]
      funext j
      rcases Nat.lt_trichotomy j i with hlt | rfl | hgt
      · rw [if_neg (by omega), if_neg (by omega), Function.update_of_ne (by omega)]
      · rw [if_neg (by omega), if_pos (by omega), Function.update_self]
      · rw [Function.update_of_ne (by omega), Function.update_of_ne (by omega)]
        simp only [show (i + 1 ≤ j ∧ j < i + 1 + n) ↔ (i ≤ j ∧ j < i + (n + 1)) by omega]

/-! ## Editing -/

section Editing

variable {k : Kernel} {lines : Terminal → Line}

/-- `keyboard_insert` into a line that is not full, whatever the character. -/
theorem keyboardInsert_eq (h : LinesShow k.kbd lines) (c : UInt8)
    (hroom : (lines k.terms.currentTerminal).text.length < 127) :
    ∃ (row : Row) (k₁ : Kernel), keyboardInsert k c = some (k₁.setLine k.terms.currentTerminal row
        ((lines k.terms.currentTerminal).cursor + 1)
        ((lines k.terms.currentTerminal).text.length + 1)) ∧
      LinesShow k₁.kbd lines ∧
      ∀ i, i < maxBufferSize → row i =
        if i < (lines k.terms.currentTerminal).cursor then k.kbd.buffer k.terms.currentTerminal i
        else if i = (lines k.terms.currentTerminal).cursor then c
        else k.kbd.buffer k.terms.currentTerminal (i - 1) := by
  obtain ⟨hfills, hindex, hsize⟩ := h.shows k.terms.currentTerminal
  have hcursor := (lines k.terms.currentTerminal).cursor_le
  have hbound : maxBufferSize = 128 := rfl
  generalize hline : lines k.terms.currentTerminal = e at *
  have hshift := insertLoop_eq e.cursor (by omega : e.text.length + 1 < maxBufferSize)
    (k.kbd.buffer k.terms.currentTerminal)
  have hset : e.cursor < maxBufferSize := by omega
  have hslice : e.cursor + (e.text.length + 1 - e.cursor) ≤ maxBufferSize := by omega
  have hmod : (e.cursor + 1) % 256 = e.cursor + 1 := Nat.mod_eq_of_lt (by omega)
  have hmod' : (e.text.length + 1) % 256 = e.text.length + 1 := Nat.mod_eq_of_lt (by omega)
  simp only [keyboardInsert, hindex, hsize, hshift, rowSet, rowSlice, if_pos hset, if_pos hslice,
    hmod, hmod', Option.bind_eq_bind, Option.bind_some, Option.pure_def]
  have hflag := h.flags k.kbd.shiftDown k.kbd.capsLock k.kbd.ctrlDown k.kbd.altDown true
  have hwritten := LinesShow.terminalWrite (k := { k with
    kbd := { k.kbd with keyFlag := true } }) hflag
  refine ⟨_, _, rfl, (hwritten _).flags _ _ _ _ false, ?_⟩
  intro i hi
  rcases Nat.lt_trichotomy i e.cursor with hlt | rfl | hgt
  · rw [Function.update_of_ne (by omega), if_neg (by omega), if_pos hlt]
  · rw [Function.update_self, if_neg (by omega), if_pos rfl]
  · rw [Function.update_of_ne (by omega)]
    rcases Nat.lt_or_ge (e.text.length + 1) i with hout | hin
    · -- behind the bytes that are moved there are only terminators
      rw [if_neg (by omega), if_neg (by omega), if_neg (by omega),
        hfills.eq_terminator (by omega) hi, hfills.eq_terminator (by omega) (by omega)]
    · rw [if_pos ⟨hgt, hin⟩, if_neg (by omega), if_neg (by omega)]

/-- `keyboard_insert` of a legal character. -/
theorem keyboardInsert_shows (h : LinesShow k.kbd lines) {c : UInt8} (hc : Legal c)
    (hroom : (lines k.terms.currentTerminal).text.length < 127) :
    ∃ k', keyboardInsert k c = some k' ∧ LinesShow k'.kbd
      (Function.update lines k.terms.currentTerminal
        ((lines k.terms.currentTerminal).insert c)) := by
  obtain ⟨row, k₁, hrun, hk₁, hrow⟩ := keyboardInsert_eq h c hroom
  have htext := LineEditor.text_insert hroom hc
  have hfills := (h.shows k.terms.currentTerminal).fills.insertIdx
    (lines k.terms.currentTerminal).cursor_le hrow
  refine ⟨_, hrun, hk₁.setLine (htext ▸ hfills) (LineEditor.cursor_insert hroom hc).symm ?_⟩
  rw [htext, List.length_insertIdx_of_le_length (lines k.terms.currentTerminal).cursor_le]

/-- `keyboard_backspace` behind a cursor that is not in the first column. -/
theorem keyboardBackspace_shows (h : LinesShow k.kbd lines)
    (hcursor : (lines k.terms.currentTerminal).cursor ≠ 0) :
    ∃ k', keyboardBackspace k = some k' ∧ LinesShow k'.kbd
      (Function.update lines k.terms.currentTerminal
        (lines k.terms.currentTerminal).backspace) := by
  obtain ⟨hfills, hindex, hsize⟩ := h.shows k.terms.currentTerminal
  have hle := (lines k.terms.currentTerminal).cursor_le
  have hlen := (lines k.terms.currentTerminal).length_le
  have hbound : maxBufferSize = 128 := rfl
  generalize lines k.terms.currentTerminal = e at *
  have htext := LineEditor.text_backspace hcursor
  have hshift := backspaceLoop_eq (i := e.cursor - 1) (n := e.text.length - (e.cursor - 1))
    (by omega) (k.kbd.buffer k.terms.currentTerminal)
  have hset : e.text.length < maxBufferSize := by omega
  have hslice : e.cursor - 1 + (e.text.length + 1 - e.cursor) ≤ maxBufferSize := by omega
  simp only [keyboardBackspace, hindex, hsize, hshift, rowSet, rowSlice, if_pos hset,
    if_pos hslice, Option.bind_eq_bind, Option.bind_some, Option.pure_def]
  refine ⟨_, rfl, ?_⟩
  have hwritten := LinesShow.terminalWrite (k := { k with video := k.video.backspace }) h
  refine LinesShow.setLine (hwritten _) (htext ▸ hfills.eraseIdx hset ?_)
    (LineEditor.cursor_backspace hcursor).symm
    (by rw [htext, List.length_eraseIdx_of_lt (by omega)])
  intro i hi
  -- the slot behind the shorter line has been cleared, and the rest was shifted by one
  rcases Nat.lt_trichotomy i e.text.length with hlt | rfl | hgt
  · rw [Function.update_of_ne (by omega)]
    rcases Nat.lt_or_ge i (e.cursor - 1) with hbefore | hbehind
    · rw [if_neg (by omega), if_pos hbefore]
    · rw [if_pos (by omega), if_neg (by omega), if_pos hlt]
  · rw [Function.update_self, if_neg (by omega), if_neg (by omega)]
  · rw [Function.update_of_ne (by omega), if_neg (by omega), if_neg (by omega),
      if_neg (by omega), hfills.eq_terminator (by omega) hi]

/-- `keyboard_left_arrow`. -/
theorem keyboardLeftArrow_shows (h : LinesShow k.kbd lines) :
    LinesShow (keyboardLeftArrow k).kbd
      (Function.update lines k.terms.currentTerminal (lines k.terms.currentTerminal).left) := by
  obtain ⟨hfills, hindex, hsize⟩ := h.shows k.terms.currentTerminal
  simp only [keyboardLeftArrow]
  split
  next hzero =>
    apply LinesShow.edit _ (fun u _ => h.shows u) h.history
    have hcursor : (lines k.terms.currentTerminal).cursor = 0 := hindex.symm.trans hzero
    exact ⟨hfills, by simp [LineEditor.left, hindex, hcursor], hsize⟩
  next hpos =>
    apply LinesShow.edit
    · exact ⟨hfills, by simp [LineEditor.left, hindex], hsize⟩
    · intro u hne
      exact (h.shows u).of_eq rfl (Function.update_of_ne hne _ _) rfl
    · exact ⟨h.history.base, h.history.index, h.history.ends⟩

/-- `keyboard_right_arrow`. -/
theorem keyboardRightArrow_shows (h : LinesShow k.kbd lines) :
    LinesShow (keyboardRightArrow k).kbd
      (Function.update lines k.terms.currentTerminal (lines k.terms.currentTerminal).right) := by
  obtain ⟨hfills, hindex, hsize⟩ := h.shows k.terms.currentTerminal
  have hle := (lines k.terms.currentTerminal).cursor_le
  have hlen := (lines k.terms.currentTerminal).length_le
  simp only [keyboardRightArrow]
  split
  next hend =>
    apply LinesShow.edit _ (fun u _ => h.shows u) h.history
    rw [hindex, hsize] at hend
    refine ⟨hfills, ?_, hsize⟩
    dsimp only [LineEditor.right]
    omega
  next hinside =>
    apply LinesShow.edit
    · rw [hindex, hsize] at hinside
      refine ⟨hfills, ?_, hsize⟩
      dsimp only [LineEditor.right]
      rw [Function.update_self, hindex]
      omega
    · intro u hne
      exact (h.shows u).of_eq rfl (Function.update_of_ne hne _ _) rfl
    · exact ⟨h.history.base, h.history.index, h.history.ends⟩

end Editing

/-! ## History -/

section History

variable {k : Kernel} {lines : Terminal → Line}

/-- The characters in front of the terminator, among the `n` bytes from index `i` on. -/
def textFrom (row : Row) (i n : Nat) : List UInt8 :=
  ((List.range' i n).map row).takeWhile fun c => decide (Legal c)

/-- The line that a row of the history holds. -/
def rowText (row : Row) : List UInt8 := textFrom row 0 maxBufferSize

theorem legal_of_mem_textFrom {row : Row} {i n : Nat} {c : UInt8} (hc : c ∈ textFrom row i n) :
    Legal c := by
  have hkept := List.mem_takeWhile_imp hc
  exact of_decide_eq_true hkept

/-- A row that ends in `NUL` holds at most 127 characters. -/
theorem length_rowText_le {row : Row} (hend : row maxCharacters = 0) :
    (rowText row).length ≤ maxCharacters := by
  by_contra hlong
  have hlast : 127 < (rowText row).length := Nat.lt_of_not_le hlong
  have hlead : rowText row <+: (List.range' 0 maxBufferSize).map row :=
    List.takeWhile_prefix _
  have hbyte : (rowText row)[127] = row maxCharacters := by
    rw [hlead.getElem hlast, List.getElem_map, List.getElem_range']
    rfl
  have hlegal := legal_of_mem_textFrom (List.getElem_mem hlast)
  exact hlegal.1 (hbyte.trans hend)

/-- The loop of `up_history` and `down_history` copies the text of the history line. -/
theorem recallLoop_eq (line : Row) {n i : Nat} (hn : i + n ≤ maxBufferSize) (row : Row) :
    ∃ row', recallLoop line n i row = some (row', i + (textFrom line i n).length) ∧
      ∀ j, row' j = if j < i then row j else ((textFrom line i n)[j - i]?).getD (row j) := by
  -- over the rounds that are left; the text grows at its front
  induction n generalizing i row with
  | zero =>
      refine ⟨row, rfl, fun j => ?_⟩
      simp [textFrom]
  | succ n ih =>
      have hi : i < maxBufferSize := by omega
      simp only [recallLoop, rowGet, rowSet, if_pos hi, Option.bind_eq_bind, Option.bind_some]
      by_cases hlegal : Legal (line i)
      · have htext : textFrom line i (n + 1) = line i :: textFrom line (i + 1) n := by
          simp [textFrom, List.range'_succ, hlegal]
        obtain ⟨row', hrun, hrow'⟩ := ih (i := i + 1) (by omega) (Function.update row i (line i))
        have hgo : ¬ (line i = 0 ∨ line i = 10) := not_or.mpr hlegal
        rw [if_neg hgo, htext, List.length_cons]
        refine ⟨row', by rw [hrun]; simp only [Nat.add_assoc, Nat.add_comm 1], fun j => ?_⟩
        rw [hrow']
        rcases Nat.lt_trichotomy j i with hlt | rfl | hgt
        · rw [if_pos (by omega), if_pos hlt, Function.update_of_ne (by omega)]
        · simp
        · rw [if_neg (by omega), if_neg (by omega), Function.update_of_ne (by omega),
            show j - i = j - (i + 1) + 1 by omega, List.getElem?_cons_succ]
      · have htext : textFrom line i (n + 1) = [] := by
          simp [textFrom, List.range'_succ, hlegal]
        -- the loop ends at the first `NUL` or newline
        have hstop : line i = 0 ∨ line i = 10 := by
          by_contra hgo
          exact hlegal (not_or.mp hgo)
        rw [if_pos hstop, htext]
        exact ⟨row, rfl, by simp⟩

/-- Any row can be copied to the history: the lines stay, and so do the other history lines. -/
theorem copyToHistory_shows (h : LinesShow k.kbd lines) :
    ∃ history', copyToHistory k = some { k with kbd := { k.kbd with history := history' } } ∧
      LinesShow { k.kbd with history := history' } lines ∧
      ∀ j, j ≠ k.kbd.historyBASE k.displayedPid →
        history' k.displayedPid j = k.kbd.history k.displayedPid j := by
  have hbase := h.history.base k.displayedPid
  simp only [copyToHistory, historyRow, if_pos hbase, Option.bind_eq_bind, Option.bind_some,
    Option.pure_def]
  refine ⟨_, rfl, ⟨fun t => (h.shows t).of_eq rfl rfl rfl,
    h.history.base, h.history.index, ?_⟩, ?_⟩
  · intro p j hlow hhigh
    rcases eq_or_ne p k.displayedPid with rfl | hp
    · rcases eq_or_ne j (k.kbd.historyBASE k.displayedPid) with rfl | hj
      · -- the new line ends in `NUL` because the line does
        have hlast : k.kbd.buffer k.terms.currentTerminal maxCharacters = 0 :=
          (h.shows k.terms.currentTerminal).fills.eq_terminator
            (lines k.terms.currentTerminal).length_le (by decide)
        have hin : maxCharacters < maxBufferSize := by decide
        simp [hlast, historyByte, hin]
      · simpa [Function.update_of_ne hj] using h.history.ends k.displayedPid j hlow hhigh
    · simpa [Function.update_of_ne hp] using h.history.ends p j hlow hhigh
  · intro j hj
    rw [Function.update_self, Function.update_of_ne hj]

/-- The index step of the ring of history lines. -/
theorem tmod_succ_fits {i : Int} (hi : 0 ≤ i) :
    0 ≤ (i + 1).tmod numHistoryBuffers ∧ (i + 1).tmod numHistoryBuffers < numHistoryBuffers :=
  ⟨Int.tmod_nonneg _ (by omega), Int.tmod_lt_of_pos _ (by decide)⟩

/-- `increment_history_indices`. -/
theorem incrementHistoryIndices_shows (h : LinesShow k.kbd lines) :
    LinesShow (incrementHistoryIndices k).kbd lines := by
  have hnext := tmod_succ_fits (h.history.base k.displayedPid).1
  refine ⟨fun t => (h.shows t).of_eq rfl rfl rfl, ?_, ?_, h.history.ends⟩
  · intro p
    rcases eq_or_ne p k.displayedPid with rfl | hp
    · simpa [incrementHistoryIndices] using hnext
    · simpa [incrementHistoryIndices, Function.update_of_ne hp] using h.history.base p
  · intro p
    rcases eq_or_ne p k.displayedPid with rfl | hp
    · simpa [incrementHistoryIndices] using hnext
    · simpa [incrementHistoryIndices, Function.update_of_ne hp] using h.history.index p

/-- `clear_history_buffer`. -/
theorem clearHistoryBuffer_shows (h : LinesShow k.kbd lines) (pid : Pid) :
    LinesShow (clearHistoryBuffer k pid).kbd lines := by
  refine ⟨fun t => (h.shows t).of_eq rfl rfl rfl, ?_, ?_, ?_⟩
  · intro p
    rcases eq_or_ne p pid with rfl | hp
    · simp [clearHistoryBuffer, numHistoryBuffers]
    · simpa [clearHistoryBuffer, Function.update_of_ne hp] using h.history.base p
  · intro p
    rcases eq_or_ne p pid with rfl | hp
    · simp [clearHistoryBuffer, numHistoryBuffers]
    · simpa [clearHistoryBuffer, Function.update_of_ne hp] using h.history.index p
  · intro p j hlow hhigh
    rcases eq_or_ne p pid with rfl | hp
    · have hin : maxCharacters < maxBufferSize := by decide
      simp [clearHistoryBuffer, hlow, hhigh, hin]
    · simpa [clearHistoryBuffer, Function.update_of_ne hp] using h.history.ends p j hlow hhigh

/-- A recalled history line takes the place of the line. -/
theorem recallHistory_shows (h : LinesShow k.kbd lines) {i : Int}
    (hi : 0 ≤ i ∧ i < numHistoryBuffers) :
    ∃ k', recallHistory k i = some k' ∧ LinesShow k'.kbd
      (Function.update lines k.terms.currentTerminal
        ((lines k.terms.currentTerminal).replace (rowText (k.kbd.history k.displayedPid i)))) := by
  have hlength := length_rowText_le (h.history.ends k.displayedPid i hi.1 hi.2)
  have hlegal : ∀ c ∈ rowText (k.kbd.history k.displayedPid i), Legal c :=
    fun _ => legal_of_mem_textFrom
  have htext := LineEditor.text_replace (e := lines k.terms.currentTerminal) hlength hlegal
  -- the index of the history changes no line
  have hreset : LinesShow { k.kbd with
      historyIDX := Function.update k.kbd.historyIDX k.displayedPid i } lines := by
    refine ⟨fun u => (h.shows u).of_eq rfl rfl rfl, h.history.base, ?_, h.history.ends⟩
    intro p
    rcases eq_or_ne p k.displayedPid with rfl | hp
    · simpa using hi
    · simpa [Function.update_of_ne hp] using h.history.index p
  have hcleared : LinesShow (clearKeyboardBuffer _).kbd
      (Function.update lines k.terms.currentTerminal .empty) :=
    clearKeyboardBuffer_shows (k := { k with
      kbd := { k.kbd with historyIDX := Function.update k.kbd.historyIDX k.displayedPid i }
      video := k.video.resetInput (k.kbd.bufferIDX k.terms.currentTerminal)
        (k.kbd.bufferSIZE k.terms.currentTerminal) }) (fun u _ => hreset.shows u) hreset.history
  simp only [recallHistory]
  generalize hk₁ : clearKeyboardBuffer _ = k₁ at hcleared ⊢
  have hhistory : k₁.kbd.history = k.kbd.history := by
    rw [← hk₁]
    rfl
  obtain ⟨row, hrun, hrow⟩ := recallLoop_eq (k.kbd.history k.displayedPid i) (n := maxBufferSize)
    (i := 0) (Nat.le_of_eq (Nat.zero_add _)) (k₁.kbd.buffer k.terms.currentTerminal)
  rw [Nat.zero_add, ← rowText] at hrun
  have hget : historyRow k₁ k.displayedPid i = some (k.kbd.history k.displayedPid i) := by
    rw [historyRow, if_pos hi, hhistory]
  -- the length is kept in a byte, which a line fits in
  have hmod : (rowText (k.kbd.history k.displayedPid i)).length % 256 =
      (rowText (k.kbd.history k.displayedPid i)).length :=
    Nat.mod_eq_of_lt (Nat.lt_of_le_of_lt hlength (by decide))
  have hslice : 0 + (rowText (k.kbd.history k.displayedPid i)).length ≤ maxBufferSize := by
    rw [Nat.zero_add]
    exact Nat.le_trans hlength (by decide)
  -- the row was cleared before, so the recalled text is all that is in it
  have hfills : Fills 0 maxBufferSize row (rowText (k.kbd.history k.displayedPid i)) := by
    intro j hj
    have hzero := (hcleared.shows k.terms.currentTerminal).fills j hj
    rw [Function.update_self] at hzero
    rw [hrow, if_neg (Nat.not_lt_zero j), Nat.sub_zero, hzero, List.getD_eq_getElem?_getD]
    rfl
  simp only [hget, hrun, rowSlice, hmod, if_pos hslice, Option.bind_eq_bind, Option.bind_some,
    Option.pure_def]
  refine ⟨_, rfl, LinesShow.terminalWrite ?_ _⟩
  have hset := hcleared.setLine (t := k.terms.currentTerminal) (htext.symm ▸ hfills)
    (LineEditor.cursor_replace hlength hlegal).symm (congrArg List.length htext.symm)
  rwa [Function.update_idem] at hset

/-- The line that `up_history` recalls. -/
def olderLine (k : Kernel) : Option (List UInt8) :=
  let pid := k.displayedPid
  let idx := k.kbd.historyIDX pid
  let previous := if idx = 0 then numHistoryBuffers - 1 else idx - 1
  if k.kbd.historySIZE pid < numHistoryBuffers ∧ idx = 0 then none
  else if previous = k.kbd.historyBASE pid then none
  else some (rowText (k.kbd.history pid previous))

/-- The line that `down_history` recalls. -/
def newerLine (k : Kernel) : Option (List UInt8) :=
  let pid := k.displayedPid
  let idx := k.kbd.historyIDX pid
  if idx = k.kbd.historyBASE pid then none
  else some (rowText (k.kbd.history pid ((idx + 1) % numHistoryBuffers)))

/-- The index in front of `idx` in the ring. -/
theorem previous_fits {idx : Int} (hidx : 0 ≤ idx ∧ idx < numHistoryBuffers) :
    let previous := if idx - 1 < 0 then numHistoryBuffers - 1 else idx - 1
    (0 ≤ previous ∧ previous < numHistoryBuffers) ∧
      (if idx = 0 then numHistoryBuffers - 1 else idx - 1) = previous := by
  have hring : numHistoryBuffers = 20 := rfl
  dsimp only
  constructor
  · split <;> omega
  · split <;> split <;> omega

/-- The second half of `up_history`, after it may have stored the line at `historyBASE`. -/
theorem recallOlder_shows {history' : Pid → Int → Row}
    (h : LinesShow { k.kbd with history := history' } lines)
    (hkept : ∀ j, j ≠ k.kbd.historyBASE k.displayedPid →
      history' k.displayedPid j = k.kbd.history k.displayedPid j) {i : Int}
    (hi : 0 ≤ i ∧ i < numHistoryBuffers) :
    ∃ k', (if i = k.kbd.historyBASE k.displayedPid then
          some { k with kbd := { k.kbd with history := history' } }
        else recallHistory { k with kbd := { k.kbd with history := history' } } i) = some k' ∧
      LinesShow k'.kbd (Function.update lines k.terms.currentTerminal
        ((lines k.terms.currentTerminal).apply
          ((if i = k.kbd.historyBASE k.displayedPid then none
            else some (rowText (k.kbd.history k.displayedPid i))).elim .keep .replace))) := by
  split
  next hbase =>
    refine ⟨_, rfl, ?_⟩
    simpa [LineEditor.apply] using h
  next hne =>
    -- the stored line is not the one that is recalled
    rw [← hkept i hne]
    exact recallHistory_shows (k := { k with kbd := { k.kbd with history := history' } }) h hi

/-- `up_history`. -/
theorem upHistory_shows (h : LinesShow k.kbd lines) :
    ∃ k', upHistory k = some k' ∧ LinesShow k'.kbd
      (Function.update lines k.terms.currentTerminal
        ((lines k.terms.currentTerminal).apply ((olderLine k).elim .keep .replace))) := by
  obtain ⟨hfits, hprevious⟩ := previous_fits (h.history.index k.displayedPid)
  simp only [upHistory, olderLine, hprevious]
  split
  next hnone =>
    refine ⟨k, rfl, ?_⟩
    simpa [LineEditor.apply] using h
  next hsome =>
    split
    next hsave =>
      obtain ⟨history', hsaved, hk', hkept⟩ := copyToHistory_shows h
      simp only [hsaved, Option.bind_eq_bind, Option.bind_some]
      exact recallOlder_shows hk' hkept hfits
    next hkeep => exact recallOlder_shows h (fun _ _ => rfl) hfits

/-- `down_history`. -/
theorem downHistory_shows (h : LinesShow k.kbd lines) :
    ∃ k', downHistory k = some k' ∧ LinesShow k'.kbd
      (Function.update lines k.terms.currentTerminal
        ((lines k.terms.currentTerminal).apply ((newerLine k).elim .keep .replace))) := by
  have hindex := (h.history.index k.displayedPid).1
  have hkeep : ∃ k', some k = some k' ∧ LinesShow k'.kbd (Function.update lines
      k.terms.currentTerminal ((lines k.terms.currentTerminal).apply .keep)) := by
    refine ⟨k, rfl, ?_⟩
    simpa [LineEditor.apply] using h
  have hnext : (k.kbd.historyIDX k.displayedPid + 1).tmod numHistoryBuffers =
      (k.kbd.historyIDX k.displayedPid + 1) % numHistoryBuffers :=
    Int.tmod_eq_emod_of_nonneg (by omega)
  simp only [downHistory, newerLine]
  by_cases hbase : k.kbd.historyIDX k.displayedPid = k.kbd.historyBASE k.displayedPid
  · rw [if_pos hbase, ite_self, if_pos hbase]
    exact hkeep
  · rw [if_neg (fun hand => hbase hand.2), if_neg hbase, if_neg hbase, ← hnext]
    exact recallHistory_shows h (tmod_succ_fits hindex)

end History

/-! ## Enter -/

section Enter

variable {k : Kernel} {lines : Terminal → Line}

/-- The loop of `keyboard_read` copies the line with its newline. -/
theorem keyboardReadLoop_eq {line : Row} {len : Nat} (hlegal : ∀ j, j < len → Legal (line j))
    (hend : line len = 10) (hlen : len < maxBufferSize) {n i : Nat} (hi : i ≤ len)
    (hn : i + n = maxBufferSize) (output : Row) :
    keyboardReadLoop line n i output =
      some (len, fun j => if i ≤ j ∧ j ≤ len then line j else output j) := by
  induction n generalizing i output with
  | zero => omega
  | succ n ih =>
      have hin : i < maxBufferSize := by omega
      simp only [keyboardReadLoop, rowGet, rowSet, if_pos hin, Option.bind_eq_bind,
        Option.bind_some]
      rcases Nat.lt_or_eq_of_le hi with hlt | rfl
      · have hgo : ¬ (line i = 10 ∨ line i = 0) := by
          rintro (hnewline | hnul)
          · exact (hlegal i hlt).2 hnewline
          · exact (hlegal i hlt).1 hnul
        rw [if_neg hgo, if_neg (by omega), ih hlt (by omega), Option.some.injEq, Prod.mk.injEq]
        refine ⟨rfl, funext fun j => ?_⟩
        rcases Nat.lt_trichotomy j i with hbefore | rfl | hbehind
        · rw [if_neg (by omega), if_neg (by omega), Function.update_of_ne (by omega)]
        · rw [if_neg (by omega), if_pos (by omega), Function.update_self]
        · rw [Function.update_of_ne (by omega)]
          simp only [show (i + 1 ≤ j ∧ j ≤ len) ↔ (i ≤ j ∧ j ≤ len) by omega]
      · rw [if_pos (Or.inl hend), Option.pure_def, Option.some.injEq, Prod.mk.injEq]
        refine ⟨rfl, funext fun j => ?_⟩
        rcases eq_or_ne j i with rfl | hne
        · rw [Function.update_self, if_pos (by omega)]
        · rw [Function.update_of_ne hne, if_neg (by omega)]

/-- A finished line reaches the waiting reader of terminal `t`. -/
def Terminals.deliver (terms : Terminals) (t : Terminal) (text : List UInt8) : Terminals :=
  match terms.returnSwitch t with
  | .on =>
      { terms with
        readBuffer := Function.update terms.readBuffer t fun j =>
          (text ++ [10]).getD j (terms.readBuffer t j)
        returnSwitch := Function.update terms.returnSwitch t .off }
  | .off => terms
  | .hold => terms

/-- The row with its newline. -/
theorem rowSet_newline {e : Line} {row : Row} (hfills : Fills 0 maxBufferSize row e.text) :
    ∃ row', rowSet row e.text.length 10 = some row' ∧
      (∀ j, j < e.text.length → Legal (row' j)) ∧
      ∀ j, j ≤ e.text.length → row' j = (e.text ++ [10]).getD j 0 := by
  have hin : e.text.length < maxBufferSize := Nat.lt_of_le_of_lt e.length_le (by decide)
  refine ⟨_, if_pos hin, ?_, ?_⟩
  · intro j hj
    rw [Function.update_of_ne (by omega)]
    exact e.legal_text _ (hfills.mem hj (by omega))
  · intro j hj
    rcases Nat.lt_or_eq_of_le hj with hlt | rfl
    · rw [Function.update_of_ne (by omega), hfills j (by omega), List.getD_append _ _ _ _ hlt]
    · rw [Function.update_self, List.getD_append_right _ _ _ _ (Nat.le_refl _), Nat.sub_self]
      rfl

/-- `terminal_return` with the newline in its place: a waiting reader gets the line. -/
theorem terminalReturn_eq {e : Line}
    (hlegal : ∀ j, j < e.text.length → Legal (k.kbd.buffer k.terms.currentTerminal j))
    (hline : ∀ j, j ≤ e.text.length →
      k.kbd.buffer k.terms.currentTerminal j = (e.text ++ [10]).getD j 0) :
    ∃ k', terminalReturn k = some k' ∧ k'.kbd = k.kbd ∧
      k'.terms = k.terms.deliver k.terms.currentTerminal e.text := by
  have hend : k.kbd.buffer k.terms.currentTerminal e.text.length = 10 := by
    rw [hline _ (Nat.le_refl _), List.getD_append_right _ _ _ _ (Nat.le_refl _), Nat.sub_self]
    rfl
  have hin : e.text.length < maxBufferSize := Nat.lt_of_le_of_lt e.length_le (by decide)
  have hread := keyboardReadLoop_eq hlegal hend hin (Nat.zero_le _) (Nat.zero_add _)
    (k.terms.readBuffer k.terms.currentTerminal)
  simp only [terminalReturn, Terminals.deliver]
  cases k.terms.returnSwitch k.terms.currentTerminal with
  | on =>
      have hpositive : ¬ ((maxBufferSize : Int) < 1) := by decide
      simp only [keyboardRead, if_neg hpositive, Int.toNat_natCast, hread, Option.map_some,
        Option.bind_eq_bind, Option.bind_some, Option.pure_def]
      refine ⟨_, rfl, rfl, ?_⟩
      -- the copy ends behind the newline and leaves the tail of the row
      have hcopied : (fun j => if 0 ≤ j ∧ j ≤ e.text.length then
            k.kbd.buffer k.terms.currentTerminal j
          else k.terms.readBuffer k.terms.currentTerminal j) = fun j =>
            (e.text ++ [10]).getD j (k.terms.readBuffer k.terms.currentTerminal j) := by
        funext j
        have hlength : (e.text ++ [10]).length = e.text.length + 1 := List.length_append
        split
        next hj =>
          rw [hline j hj.2, List.getD_eq_getElem _ _ (by omega),
            List.getD_eq_getElem _ _ (by omega)]
        next hj => rw [List.getD_eq_default _ _ (by omega)]
      simp only [hcopied]
  | off => exact ⟨_, rfl, rfl, rfl⟩
  | hold => exact ⟨k, rfl, rfl, rfl⟩

/-- The Enter key behind the update of the history. -/
theorem finishLine_shows (h : LinesShow k.kbd lines) :
    ∃ k', ((rowSet (k.kbd.buffer k.terms.currentTerminal)
        (k.kbd.bufferSIZE k.terms.currentTerminal) 10).bind fun row =>
      (terminalReturn (k.setLine k.terms.currentTerminal row
        (k.kbd.bufferIDX k.terms.currentTerminal)
        (k.kbd.bufferSIZE k.terms.currentTerminal))).bind fun k =>
          some (clearKeyboardBuffer k)) = some k' ∧
      LinesShow k'.kbd (Function.update lines k.terms.currentTerminal .empty) ∧
      k'.terms =
        k.terms.deliver k.terms.currentTerminal (lines k.terms.currentTerminal).text := by
  obtain ⟨hfills, hindex, hsize⟩ := h.shows k.terms.currentTerminal
  obtain ⟨row, hset, hlegal, hline⟩ := rowSet_newline hfills
  rw [hsize, hset, Option.bind_some]
  obtain ⟨k', hreturn, hkbd, hterms⟩ := terminalReturn_eq
    (k := k.setLine k.terms.currentTerminal row (k.kbd.bufferIDX k.terms.currentTerminal)
      (lines k.terms.currentTerminal).text.length)
    (e := lines k.terms.currentTerminal) (by simpa [Kernel.setLine] using hlegal)
    (by simpa [Kernel.setLine] using hline)
  have hcurrent : k'.terms.currentTerminal = k.terms.currentTerminal := by
    rw [hterms]
    simp only [Terminals.deliver]
    split <;> rfl
  -- the line is cleared once it has been delivered; the other terminals keep theirs
  have hcleared : LinesShow (clearKeyboardBuffer k').kbd
      (Function.update lines k'.terms.currentTerminal .empty) := by
    apply clearKeyboardBuffer_shows
    · intro u hne
      rw [hcurrent] at hne
      rw [hkbd]
      exact (h.shows u).of_eq (Function.update_of_ne hne _ _) (Function.update_of_ne hne _ _)
        (Function.update_of_ne hne _ _)
    · rw [hkbd]
      exact ⟨h.history.base, h.history.index, h.history.ends⟩
  rw [hcurrent] at hcleared
  rw [hreturn, Option.bind_some]
  exact ⟨_, rfl, hcleared, hterms⟩

/-- The Enter key. -/
theorem keyboardEnter_shows (h : LinesShow k.kbd lines) :
    ∃ k', keyboardEnter k = some k' ∧
      LinesShow k'.kbd (Function.update lines k.terms.currentTerminal .empty) ∧
      k'.terms =
        k.terms.deliver k.terms.currentTerminal (lines k.terms.currentTerminal).text := by
  simp only [keyboardEnter]
  split
  next hremember =>
    obtain ⟨history', hsaved, hk', -⟩ := copyToHistory_shows h
    have hincremented := incrementHistoryIndices_shows
      (k := { k with kbd := { k.kbd with history := history' } }) hk'
    simp only [hsaved, Option.map_some, Option.bind_eq_bind, Option.bind_some]
    generalize hk₁ : incrementHistoryIndices _ = k₁ at hincremented ⊢
    have hterms : k₁.terms = k.terms := by
      rw [← hk₁]
      rfl
    have hfinish := finishLine_shows hincremented
    rw [hterms] at hfinish
    exact hfinish
  next hempty => exact finishLine_shows h

end Enter

end Ece391Os
