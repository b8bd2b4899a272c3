import Mathlib.Data.List.GetD
import Mathlib.Tactic.Cases

/-!
# A line editor

A line of bounded length over a set of legal characters, with a cursor in it, and the edits
of such a line. `Fills` relates a line to an array that holds it, filled up with a
terminator; the edits of the line become shifts of the array.
-/

set_option autoImplicit false

/-- A line of at most `limit` legal characters, with a cursor. -/
structure LineEditor (α : Type*) (limit : Nat) (legal : α → Prop) where
  text : List α
  cursor : Nat
  cursor_le : cursor ≤ text.length
  length_le : text.length ≤ limit
  legal_text : ∀ c ∈ text, legal c

/-- The edits of a line. -/
inductive Edit (α : Type*) where
  | keep
  | insert (c : α)
  | backspace
  | left
  | right
  | replace (text : List α)
  | clear

namespace LineEditor

variable {α : Type*} {limit : Nat} {legal : α → Prop}

/-- The line without characters. -/
def empty : LineEditor α limit legal := ⟨[], 0, Nat.le_refl 0, Nat.zero_le limit, nofun⟩

/-- A legal character goes to the cursor, if there is room for it. -/
def insert [DecidablePred legal] (e : LineEditor α limit legal) (c : α) :
    LineEditor α limit legal :=
  if h : e.text.length < limit ∧ legal c then
    { text := e.text.insertIdx e.cursor c
      cursor := e.cursor + 1
      cursor_le := by
        rw [List.length_insertIdx_of_le_length e.cursor_le]
        exact Nat.succ_le_succ e.cursor_le
      length_le := by
        rw [List.length_insertIdx_of_le_length e.cursor_le]
        exact h.1
      legal_text := by
        intro d hd
        rcases (List.mem_insertIdx e.cursor_le).mp hd with rfl | hmem
        · exact h.2
        · exact e.legal_text d hmem }
  else e

/-- The character before the cursor is deleted. -/
def backspace (e : LineEditor α limit legal) : LineEditor α limit legal :=
  if h : e.cursor = 0 then e
  else
    { text := e.text.eraseIdx (e.cursor - 1)
      cursor := e.cursor - 1
      cursor_le := by
        have hcursor := e.cursor_le
        rw [List.length_eraseIdx_of_lt (by omega)]
        omega
      length_le := Nat.le_trans (List.length_eraseIdx_le _ _) e.length_le
      legal_text := fun d hd => e.legal_text d (List.mem_of_mem_eraseIdx hd) }

/-- The cursor moves to the left. -/
def left (e : LineEditor α limit legal) : LineEditor α limit legal :=
  { e with
    cursor := e.cursor - 1
    cursor_le := Nat.le_trans (Nat.sub_le _ _) e.cursor_le }

/-- The cursor moves to the right. -/
def right (e : LineEditor α limit legal) : LineEditor α limit legal :=
  { e with
    cursor := min (e.cursor + 1) e.text.length
    cursor_le := Nat.min_le_right _ _ }

/-- Another line takes the place of the line, with the cursor at its end. -/
def replace [DecidablePred legal] (e : LineEditor α limit legal) (text : List α) :
    LineEditor α limit legal :=
  if h : text.length ≤ limit ∧ ∀ c ∈ text, legal c then
    ⟨text, text.length, Nat.le_refl _, h.1, h.2⟩
  else e

/-- An edit. -/
def apply [DecidablePred legal] (e : LineEditor α limit legal) : Edit α → LineEditor α limit legal
  | .keep => e
  | .insert c => e.insert c
  | .backspace => e.backspace
  | .left => e.left
  | .right => e.right
  | .replace text => e.replace text
  | .clear => empty

section Rules

variable {e : LineEditor α limit legal} {c : α} {text : List α}

theorem text_backspace (hcursor : e.cursor ≠ 0) :
    e.backspace.text = e.text.eraseIdx (e.cursor - 1) := by
  rw [backspace, dif_neg hcursor]

theorem cursor_backspace (hcursor : e.cursor ≠ 0) : e.backspace.cursor = e.cursor - 1 := by
  rw [backspace, dif_neg hcursor]

theorem backspace_of_start (hcursor : e.cursor = 0) : e.backspace = e := dif_pos hcursor

variable [DecidablePred legal]

theorem text_insert (hroom : e.text.length < limit) (hc : legal c) :
    (e.insert c).text = e.text.insertIdx e.cursor c := by
  rw [insert, dif_pos ⟨hroom, hc⟩]

theorem cursor_insert (hroom : e.text.length < limit) (hc : legal c) :
    (e.insert c).cursor = e.cursor + 1 := by
  rw [insert, dif_pos ⟨hroom, hc⟩]

/-- A full line takes no further character. -/
theorem insert_of_full (hfull : limit ≤ e.text.length) : e.insert c = e :=
  dif_neg fun h => Nat.not_lt.mpr hfull h.1

/-- A line takes no illegal character. -/
theorem insert_of_illegal (hc : ¬ legal c) : e.insert c = e := dif_neg fun h => hc h.2

theorem text_replace (hlength : text.length ≤ limit) (hlegal : ∀ c ∈ text, legal c) :
    (e.replace text).text = text := by
  rw [replace, dif_pos ⟨hlength, hlegal⟩]

theorem cursor_replace (hlength : text.length ≤ limit) (hlegal : ∀ c ∈ text, legal c) :
    (e.replace text).cursor = text.length := by
  rw [replace, dif_pos ⟨hlength, hlegal⟩]

/-- Where the characters of a line come from. -/
theorem mem_apply {edit : Edit α} (hc : c ∈ (e.apply edit).text) :
    c ∈ e.text ∨ edit = .insert c ∨ ∃ text, edit = .replace text ∧ c ∈ text := by
  cases edit with
  | keep => exact .inl hc
  | insert d =>
      rw [apply, insert] at hc
      split at hc
      · rcases (List.mem_insertIdx e.cursor_le).mp hc with rfl | hold
        · exact .inr (.inl rfl)
        · exact .inl hold
      · exact .inl hc
  | backspace =>
      rw [apply, backspace] at hc
      split at hc
      · exact .inl hc
      · exact .inl (List.mem_of_mem_eraseIdx hc)
  | left => exact .inl hc
  | right => exact .inl hc
  | replace text =>
      rw [apply, replace] at hc
      split at hc
      · exact .inr (.inr ⟨text, rfl, hc⟩)
      · exact .inl hc
  | clear => exact absurd hc List.not_mem_nil

end Rules

end LineEditor

/-! ## Arrays that hold a line -/

/-- The first `width` entries of the array are the line, filled up with the terminator. -/
def Fills {α : Type*} (terminator : α) (width : Nat) (row : Nat → α) (text : List α) : Prop :=
  ∀ i, i < width → row i = text.getD i terminator

namespace Fills

variable {α : Type*} {terminator : α} {width : Nat} {row row' : Nat → α} {text : List α}

/-- Inside the line. -/
theorem mem (h : Fills terminator width row text) {i : Nat} (hi : i < text.length)
    (hwidth : i < width) : row i ∈ text := by
  rw [h i hwidth, List.getD_eq_getElem _ _ hi]
  exact List.getElem_mem hi

/-- Behind the line. -/
theorem eq_terminator (h : Fills terminator width row text) {i : Nat} (hi : text.length ≤ i)
    (hwidth : i < width) : row i = terminator := by
  rw [h i hwidth, List.getD_eq_default _ _ hi]

/-- The entries from the cursor on move to the right, and a new one takes the place at the
cursor. -/
theorem insertIdx (h : Fills terminator width row text) {k : Nat} (hk : k ≤ text.length) {c : α}
    (hrow' : ∀ i, i < width → row' i = if i < k then row i else if i = k then c else row (i - 1)) :
    Fills terminator width row' (text.insertIdx k c) := by
  intro i hi
  rw [hrow' i hi, List.getD_eq_getElem?_getD, List.getElem?_insertIdx]
  split
  next hlt => rw [h i hi, List.getD_eq_getElem?_getD]
  next hge =>
    split
    next heq => simp [heq, hk]
    next hne => rw [h (i - 1) (by omega), List.getD_eq_getElem?_getD]

/-- The entries behind position `k` move to the left. -/
theorem eraseIdx (h : Fills terminator width row text) (hlen : text.length < width) {k : Nat}
    (hrow' : ∀ i, i < width → row' i = if i < k then row i
      else if i < text.length then row (i + 1) else terminator) :
    Fills terminator width row' (text.eraseIdx k) := by
  intro i hi
  rw [hrow' i hi, List.getD_eq_getElem?_getD, List.getElem?_eraseIdx]
  split
  next hlt => rw [h i hi, List.getD_eq_getElem?_getD]
  next hge =>
    split
    next hin => rw [h (i + 1) (by omega), List.getD_eq_getElem?_getD]
    next hout => rw [List.getElem?_eq_none (by omega), Option.getD_none]

/-- The array of terminators holds the empty line. -/
theorem nil (hrow : ∀ i, i < width → row i = terminator) : Fills terminator width row [] := by
  intro i hi
  rw [hrow i hi, List.getD_nil]

end Fills
