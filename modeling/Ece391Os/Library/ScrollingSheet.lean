import Mathlib.Logic.Function.Iterate

/-!
# A window that scrolls over a sheet

A sheet without end has lines of `width` cells; position `width * r + c` is column `c` of line `r`.
A window shows `height` lines of it. What is written goes to the window, which scrolls by a line
when the position leaves it. `Follows.writeAll` says that this is the same as to write the whole
text to the sheet and to show the lines up to that of the position afterwards. `Holds` is about one
line of text on a sheet, of which a part is written again.
-/

set_option autoImplicit false

namespace ScrollingSheet

variable {α : Type*}

/-- Cells in one row after the other, and a position. -/
structure Sheet (α : Type*) where
  cells : Nat → α
  pos : Nat

namespace Sheet

/-- A cell is stored. -/
def store (p : Sheet α) (i : Nat) (a : α) : Sheet α :=
  { p with cells := Function.update p.cells i a }

/-- A cell is written, and the position is that behind it. -/
def put (p : Sheet α) (a : α) : Sheet α := { p.store p.pos a with pos := p.pos + 1 }

/-- The position is the start of the next line. -/
def newline (width : Nat) (p : Sheet α) : Sheet α := { p with pos := width * (p.pos / width + 1) }

/-- A cell or, for `none`, the end of a line. -/
def write (width : Nat) (p : Sheet α) : Option α → Sheet α
  | none => p.newline width
  | some a => p.put a

/-- All lines move up by one, and the last one of the window is blank. -/
def scroll (width height : Nat) (blank : α) (p : Sheet α) : Sheet α where
  cells := fun i =>
    if i + width < width * height then p.cells (i + width)
    else if i < width * height then blank
    else p.cells i
  pos := p.pos - width

/-- A position below the window makes it scroll. -/
def settle (width height : Nat) (blank : α) (p : Sheet α) : Sheet α :=
  if p.pos < width * height then p else p.scroll width height blank

/-- What is written to a window. -/
def writeWindow (width height : Nat) (blank : α) (w : Sheet α) (token : Option α) : Sheet α :=
  (w.write width token).settle width height blank

/-- Cells one after another. -/
def putAll (p : Sheet α) (text : List α) : Sheet α := text.foldl put p

/-- The position goes back by one cell, which becomes blank. -/
def erase (blank : α) (p : Sheet α) : Sheet α := { p.store (p.pos - 1) blank with pos := p.pos - 1 }

theorem pos_putAll (p : Sheet α) (text : List α) : (p.putAll text).pos = p.pos + text.length := by
  induction text generalizing p with
  | nil => rfl
  | cons a text ih =>
      have hput : (p.put a).pos = p.pos + 1 := rfl
      rw [putAll, List.foldl_cons, ← putAll, ih, hput, List.length_cons]
      omega

/-- The cells in front of the position and those behind the text stay. -/
theorem cells_putAll_of_out {p : Sheet α} {text : List α} {i : Nat}
    (hi : i < p.pos ∨ p.pos + text.length ≤ i) : (p.putAll text).cells i = p.cells i := by
  induction text generalizing p with
  | nil => rfl
  | cons a text ih =>
      have hput : (p.put a).pos = p.pos + 1 := rfl
      rw [List.length_cons] at hi
      rw [putAll, List.foldl_cons, ← putAll, ih (by omega)]
      exact Function.update_of_ne (by omega) _ _

/-- The text lies where the position was. -/
theorem cells_putAll {p : Sheet α} {text : List α} {j : Nat} (hj : j < text.length) :
    (p.putAll text).cells (p.pos + j) = text[j] := by
  induction text generalizing p j with
  | nil => exact absurd hj (Nat.not_lt_zero j)
  | cons a text ih =>
      have hput : (p.put a).pos = p.pos + 1 := rfl
      rw [putAll, List.foldl_cons, ← putAll]
      cases j with
      | zero =>
          rw [cells_putAll_of_out (by omega)]
          exact Function.update_self _ _ _
      | succ j =>
          have hplace : p.pos + (j + 1) = (p.put a).pos + j := by omega
          rw [hplace, ih (Nat.lt_of_succ_lt_succ hj)]
          rfl

theorem pos_erase_iterate (blank : α) (n : Nat) (p : Sheet α) :
    (Nat.iterate (erase blank) n p).pos = p.pos - n := by
  induction n generalizing p with
  | zero => rfl
  | succ n ih =>
      have herase : (p.erase blank).pos = p.pos - 1 := rfl
      rw [Function.iterate_succ_apply, ih, herase]
      omega

/-- The cells that the position has gone back over are blank, and the others stay. -/
theorem cells_erase_iterate {blank : α} {n : Nat} {p : Sheet α} (hn : n ≤ p.pos) (i : Nat) :
    (Nat.iterate (erase blank) n p).cells i =
      if p.pos - n ≤ i ∧ i < p.pos then blank else p.cells i := by
  induction n generalizing p with
  | zero => rw [if_neg (by omega), Function.iterate_zero_apply]
  | succ n ih =>
      have herase : (p.erase blank).pos = p.pos - 1 := rfl
      have hcells : (p.erase blank).cells i = if i = p.pos - 1 then blank else p.cells i :=
        Function.update_apply _ _ _ _
      rw [Function.iterate_succ_apply, ih (by omega), hcells, herase]
      rcases Nat.lt_trichotomy i (p.pos - 1) with hlt | rfl | hgt
      · rw [if_neg (by omega : ¬ i = p.pos - 1)]
        simp only [show (p.pos - 1 - n ≤ i ∧ i < p.pos - 1) ↔ (p.pos - (n + 1) ≤ i ∧ i < p.pos) by
          omega]
      · rw [if_pos rfl, ite_self, if_pos (by omega)]
      · rw [if_neg (by omega), if_neg (by omega), if_neg (by omega)]

end Sheet

/-! ## A line on a sheet -/

/-- The line `text` lies on the sheet from cell `start` on, the cells behind it up to the end of
the longest line are empty, and in front of it are the cells `front`. -/
structure Holds (isEmpty : α → Prop) (front : Nat → α) (start longest : Nat) (p : Sheet α)
    (text : List α) : Prop where
  front : ∀ i, i < start → p.cells i = front i
  line : ∀ j, j < text.length → text[j]? = some (p.cells (start + j))
  behind : ∀ j, text.length ≤ j → j < longest → isEmpty (p.cells (start + j))

namespace Holds

variable {isEmpty : α → Prop} {front : Nat → α} {start longest : Nat} {p : Sheet α}
  {text text' written : List α}

/-- The position does not matter. -/
theorem move (h : Holds isEmpty front start longest p text) (i : Nat) :
    Holds isEmpty front start longest { p with pos := i } text :=
  ⟨h.front, h.line, h.behind⟩

/-- The line may be the longest one. -/
theorem grow (h : Holds isEmpty front start longest p text) :
    Holds isEmpty front start (max longest text.length) p text where
  front := h.front
  line := h.line
  behind := fun j hj hlong => h.behind j hj (by omega)

/-- The line is written again from its character `k` on. The cells behind what is written are
empty. -/
theorem redraw {k : Nat} (hpos : p.pos = start + k) (hfront : ∀ i, i < start → p.cells i = front i)
    (hline : ∀ j, j < k → text'[j]? = some (p.cells (start + j)))
    (hwritten : ∀ j (hj : j < written.length),
      text'[k + j]? = some written[j] ∨ text'.length ≤ k + j ∧ isEmpty written[j])
    (hlong : text'.length ≤ k + written.length)
    (hbehind : ∀ j, k + written.length ≤ j → j < longest → isEmpty (p.cells (start + j))) :
    Holds isEmpty front start longest (p.putAll written) text' := by
  -- a cell of the line lies in front of what is written or in it
  have hcell : ∀ j, j < k + written.length → k ≤ j →
      ∃ hj : j - k < written.length, (p.putAll written).cells (start + j) = written[j - k] := by
    intro j hj hk
    have hplace : start + j = p.pos + (j - k) := by omega
    exact ⟨by omega, by rw [hplace]; exact Sheet.cells_putAll (by omega)⟩
  refine ⟨fun i hi => ?_, fun j hj => ?_, fun j hj hlt => ?_⟩
  · rw [Sheet.cells_putAll_of_out (by omega)]
    exact hfront i hi
  · rcases Nat.lt_or_ge j k with hbefore | hfrom
    · rw [Sheet.cells_putAll_of_out (by omega)]
      exact hline j hbefore
    · obtain ⟨hin, hcells⟩ := hcell j (by omega) hfrom
      have hback : k + (j - k) = j := by omega
      have htext := hwritten (j - k) hin
      rw [hback] at htext
      rw [hcells]
      exact htext.resolve_right (by omega)
  · rcases Nat.lt_or_ge j (k + written.length) with hin | hout
    · rcases Nat.lt_or_ge j k with hbefore | hfrom
      · have hsome := hline j hbefore
        rw [List.getElem?_eq_none hj] at hsome
        cases hsome
      · obtain ⟨hin', hcells⟩ := hcell j hin hfrom
        have hback : k + (j - k) = j := by omega
        have htext := hwritten (j - k) hin'
        rw [hback, List.getElem?_eq_none hj] at htext
        rw [hcells]
        exact (htext.resolve_left (by simp)).2
    · rw [Sheet.cells_putAll_of_out (by omega)]
      exact hbehind j hout hlt

end Holds

/-! ## The window -/

/-- The window `w` shows the sheet `p` from line `top` on, and below the window the sheet is
blank. -/
structure Shows (width height : Nat) (blank : α) (top : Nat) (w p : Sheet α) : Prop where
  pos : p.pos = w.pos + width * top
  cells : ∀ i, i < width * height → w.cells i = p.cells (i + width * top)
  below : ∀ i, width * height ≤ i → p.cells (i + width * top) = blank

namespace Shows

variable {width height top : Nat} {blank : α} {w p : Sheet α}

/-- Both positions move. -/
theorem move (h : Shows width height blank top w p) {i j : Nat} (hpos : j = i + width * top) :
    Shows width height blank top { w with pos := i } { p with pos := j } :=
  ⟨hpos, h.cells, h.below⟩

/-- A cell of the window is stored. -/
theorem store (h : Shows width height blank top w p) {i : Nat} (hi : i < width * height) (a : α) :
    Shows width height blank top (w.store i a) (p.store (i + width * top) a) := by
  refine ⟨h.pos, fun j hj => ?_, fun j hj => ?_⟩
  · rcases eq_or_ne j i with rfl | hne
    · simp only [Sheet.store, Function.update_self]
    · have hne' : j + width * top ≠ i + width * top := fun heq => hne (Nat.add_right_cancel heq)
      simp only [Sheet.store, Function.update_of_ne hne, Function.update_of_ne hne']
      exact h.cells j hj
  · have hne : j + width * top ≠ i + width * top := by omega
    simp only [Sheet.store, Function.update_of_ne hne]
    exact h.below j hj

theorem put (h : Shows width height blank top w p) (hinside : w.pos < width * height) (a : α) :
    Shows width height blank top (w.put a) (p.put a) := by
  have hpos := h.pos
  have hstored := h.store hinside a
  rw [← hpos] at hstored
  apply hstored.move
  rw [hpos]
  exact Nat.add_right_comm _ _ _

theorem newline (hwidth : 0 < width) (h : Shows width height blank top w p) :
    Shows width height blank top (w.newline width) (p.newline width) := by
  apply h.move
  rw [h.pos, Nat.add_mul_div_left _ _ hwidth, ← Nat.mul_add]
  congr 1
  omega

/-- The window moves on by a line. -/
theorem scroll (h : Shows width height blank top w p) (hpos : width ≤ w.pos) :
    Shows width height blank (top + 1) (w.scroll width height blank) p := by
  have hold := h.pos
  have hnext : width * (top + 1) = width * top + width := Nat.mul_succ width top
  refine ⟨?_, fun i hi => ?_, fun i hi => ?_⟩
  · show p.pos = w.pos - width + width * (top + 1)
    omega
  · have hshift : i + width * (top + 1) = i + width + width * top := by omega
    simp only [Sheet.scroll]
    rw [hshift]
    by_cases hlt : i + width < width * height
    · rw [if_pos hlt]
      exact h.cells _ hlt
    · rw [if_neg hlt, if_pos hi]
      exact (h.below _ (Nat.le_of_not_lt hlt)).symm
  · have hshift : i + width * (top + 1) = i + width + width * top := by omega
    rw [hshift]
    exact h.below _ (Nat.le_trans hi (Nat.le_add_right i width))

end Shows

/-- A window at the top of a sheet that is blank below it. -/
theorem Shows.start (width height : Nat) (blank : α) (w : Sheet α) :
    Shows width height blank 0 w
      { w with cells := fun i => if i < width * height then w.cells i else blank } where
  pos := rfl
  cells := fun _ hi => (if_pos hi).symm
  below := fun _ hi => if_neg (Nat.not_lt.mpr hi)

/-- The window shows the sheet, its position is in it, and it has scrolled no further than the
position made it. -/
structure Follows (width height : Nat) (blank : α) (top : Nat) (w p : Sheet α) : Prop where
  shows : Shows width height blank top w p
  inside : w.pos < width * height
  reached : top = 0 ∨ width * height ≤ w.pos + width

namespace Follows

variable {width height top : Nat} {blank : α} {w p : Sheet α}

/-- A position that has moved down, at most to the line below the window, is settled. -/
theorem settle (hwidth : 0 < width) (hheight : 0 < height) {w' p' : Sheet α}
    (h : Follows width height blank top w p) (h' : Shows width height blank top w' p')
    (hmoved : w.pos ≤ w'.pos) (hlower : w'.pos ≤ width * height) :
    ∃ top', Follows width height blank top' (w'.settle width height blank) p' := by
  rw [Sheet.settle]
  split
  next hinside =>
    refine ⟨top, h', hinside, ?_⟩
    rcases h.reached with htop | hlast
    · exact .inl htop
    · exact .inr (Nat.le_trans hlast (Nat.add_le_add_right hmoved width))
  next hout =>
    have hline : width ≤ width * height := Nat.le_mul_of_pos_right width hheight
    refine ⟨top + 1, h'.scroll (by omega), ?_, .inr ?_⟩
    · show w'.pos - width < width * height
      omega
    · show width * height ≤ w'.pos - width + width
      omega

/-- The step lemma. -/
theorem write (hwidth : 0 < width) (hheight : 0 < height)
    (h : Follows width height blank top w p) (token : Option α) :
    ∃ top', Follows width height blank top' (w.writeWindow width height blank token)
      (p.write width token) := by
  have hinside := h.inside
  cases token with
  | none =>
      have hline : w.pos / width < height := Nat.div_lt_of_lt_mul hinside
      have hnext : w.pos < width * (w.pos / width + 1) := Nat.lt_mul_div_succ w.pos hwidth
      -- the next line starts in the window or just below it
      exact h.settle hwidth hheight (h.shows.newline hwidth) (Nat.le_of_lt hnext)
        (Nat.mul_le_mul_left width hline)
  | some a =>
      exact h.settle hwidth hheight (h.shows.put hinside a) (Nat.le_succ w.pos) hinside

/-- The run lemma. -/
theorem writeAll (hwidth : 0 < width) (hheight : 0 < height)
    (h : Follows width height blank top w p) (text : List (Option α)) :
    ∃ top', Follows width height blank top'
      (text.foldl (Sheet.writeWindow width height blank) w) (text.foldl (Sheet.write width) p) := by
  induction text generalizing top w p with
  | nil => exact ⟨top, h⟩
  | cons token text ih =>
      obtain ⟨top', h'⟩ := h.write hwidth hheight token
      exact ih h'

/-- The window ends at the line of the position, or has not scrolled. -/
theorem top_eq (hwidth : 0 < width) (h : Follows width height blank top w p) :
    top = p.pos / width + 1 - height := by
  have hline : w.pos / width < height := Nat.div_lt_of_lt_mul h.inside
  rw [h.shows.pos, Nat.add_mul_div_left _ _ hwidth]
  rcases h.reached with htop | hlast
  · omega
  · have hlast' : height ≤ w.pos / width + 1 := by
      rw [← Nat.add_div_right _ hwidth]
      exact (Nat.le_div_iff_mul_le hwidth).mpr (by rwa [Nat.mul_comm])
    omega

end Follows

end ScrollingSheet
