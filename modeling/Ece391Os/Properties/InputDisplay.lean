import Ece391Os.Properties.LineBuffers
import Ece391Os.Properties.PageRefinement

/-!
# The input line on the screen

The driver writes the line that is edited with `terminal_write` and goes back over it with
`cursor_update_left`, which takes `screen_x` below zero instead of going up a row. On the page
without end the first cell of the line never moves, and each key writes the line again from the
cursor on. The screen follows this page as long as `putc` finds `screen_x` at -80 or above.
-/

set_option autoImplicit false

namespace Ece391Os

open ScrollingSheet

namespace Video

/-- The screen shows the sheet `p` from line `top` on. The cursor is in one of the 25 rows, or left
of it. -/
structure View.Tracks (w : View) (top : Nat) (p : Sheet Cell) : Prop where
  shows : ScrollingSheet.Shows 80 25 blankCell top w.window p
  pos : (p.pos : Int) = 80 * (w.y + top) + w.x
  y_nonneg : 0 ≤ w.y
  y_lt : w.y < 25
  x_lt : w.x < 80

/-! ## Text -/

section Text

variable {v : Video} {w : View} {top : Nat} {p : Sheet Cell} {c : UInt8}

theorem View.Tracks.place_nonneg (h : w.Tracks top p) : 0 ≤ 80 * w.y + w.x := by
  have hshows : p.pos = (80 * w.y + w.x).toNat + 80 * top := h.shows.pos
  have hpos := h.pos
  omega

/-- A cell of the screen is a cell of the sheet. -/
theorem View.Tracks.page_eq (h : w.Tracks top p) {i : Nat} (hlow : 80 * top ≤ i)
    (hhigh : i < 80 * (25 + top)) : w.page ((i : Int) - 80 * top) = p.cells i := by
  have hshows := h.shows.cells (i - 80 * top) (by omega)
  have hsheet : i - 80 * top + 80 * top = i := by omega
  have hscreen : ((i - 80 * top : Nat) : Int) = (i : Int) - 80 * top := by omega
  rw [hsheet] at hshows
  rw [← hshows, ← hscreen]
  rfl

/-- The cursor moves in its row, or left of it. -/
theorem View.Tracks.move (h : w.Tracks top p) {x : Int} {q : Nat}
    (hq : (q : Int) = 80 * (w.y + top) + x) (hx : x < 80) (htop : 80 * top ≤ q) :
    View.Tracks { w with x := x } top { p with pos := q } where
  shows := h.shows.move (i := (80 * w.y + x).toNat) (by omega)
  pos := hq
  y_nonneg := h.y_nonneg
  y_lt := h.y_lt
  x_lt := hx

/-- Where a character leaves the cursor. -/
theorem view_writeChar_cursor (hc : c ≠ 10 ∧ c ≠ 13) (hx : -80 ≤ v.view.x) (hx' : v.view.x < 80)
    (hy : 0 ≤ v.view.y) (hy' : v.view.y < 25) :
    (v.writeChar c).view.x = (if v.view.x = 79 then 0 else v.view.x + 1) ∧
      (v.writeChar c).view.y =
        if v.view.x = 79 ∧ v.view.y < 24 then v.view.y + 1 else v.view.y := by
  have hput := view_putc_char hc hx hx' hy hy'
  have hlimit : numRows - 1 = 24 := rfl
  simp only [writeChar, if_neg hc.1]
  by_cases hlast : v.screenX = numCols - 1
  · have hcol : v.view.x = 79 := hlast
    rw [if_pos hlast, view_nextLine, hlimit]
    by_cases hrow : v.view.y < 24
    · have hmore : ¬ (v.putc c).view.y ≥ 24 := by rw [hput]; exact Int.not_le.mpr hrow
      rw [if_neg hmore, if_pos hcol, if_pos ⟨hcol, hrow⟩, hput]
      exact ⟨rfl, rfl⟩
    · have hend : (v.putc c).view.y ≥ 24 := by rw [hput]; exact Int.not_lt.mp hrow
      rw [if_pos hend, if_pos hcol, if_neg (fun hand => hrow hand.2), view_scroll, hput]
      exact ⟨rfl, rfl⟩
  · have hcol : ¬ v.view.x = 79 := hlast
    rw [if_neg hlast, if_neg hcol, if_neg (fun hand => hcol hand.1), hput, if_neg hcol]
    exact ⟨rfl, rfl⟩

/-- A character is written to the sheet. If the screen scrolls, the cursor is in its last row. -/
theorem View.Tracks.writeChar (h : v.view.Tracks top p) (hc : c ≠ 10 ∧ c ≠ 13)
    (hx : -80 ≤ v.view.x) :
    ∃ top', (v.writeChar c).view.Tracks top' (p.put (c, attrib)) ∧
      -80 ≤ (v.writeChar c).view.x ∧ top ≤ top' ∧
        (top' = top ∨ 80 * (24 + top') ≤ p.pos + 1) := by
  obtain ⟨hshows, hpos, hy, hy', hx'⟩ := h
  have hplace := View.Tracks.place_nonneg ⟨hshows, hpos, hy, hy', hx'⟩
  have hwindow := window_char hc hx hx' hy hy' hplace
  obtain ⟨hcol, hrow⟩ := view_writeChar_cursor hc hx hx' hy hy'
  have hbranch : v.writeChar c =
      if v.screenX = numCols - 1 then (v.putc c).nextLine else v.putc c := by
    rw [Video.writeChar, if_neg hc.1]
  rw [← hbranch, Sheet.settle] at hwindow
  have hold := window_pos hplace
  have hnew : (v.view.window.put (c, attrib)).pos = v.view.window.pos + 1 := rfl
  have hput : (p.put (c, attrib)).pos = p.pos + 1 := rfl
  have hput' := hshows.put (by omega) (c, attrib)
  by_cases hlow : v.view.window.pos + 1 < 80 * 25
  · rw [if_pos (hnew ▸ hlow)] at hwindow
    refine ⟨top, ⟨hwindow ▸ hput', ?_, ?_, ?_, ?_⟩, ?_, Nat.le_refl top, .inl rfl⟩
    · rw [hput, hcol, hrow]
      split <;> split <;> omega
    · rw [hrow]
      split <;> omega
    · rw [hrow]
      split <;> omega
    · rw [hcol]
      split <;> omega
    · rw [hcol]
      split <;> omega
  · -- the last cell of the screen has been written
    have hlast : v.view.x = 79 := by omega
    have hend : ¬ (v.view.x = 79 ∧ v.view.y < 24) := by omega
    rw [if_neg (hnew ▸ hlow)] at hwindow
    rw [if_pos hlast] at hcol
    rw [if_neg hend] at hrow
    refine ⟨top + 1, ⟨hwindow ▸ hput'.scroll (by omega), ?_, ?_, ?_, ?_⟩, ?_, Nat.le_succ top,
      .inr ?_⟩
    · rw [hput, hcol, hrow]
      omega
    · rw [hrow]
      exact hy
    · rw [hrow]
      exact hy'
    · rw [hcol]
      decide
    · rw [hcol]
      decide
    · omega

/-- A text is written to the sheet. -/
theorem View.Tracks.write {text : List UInt8} (h : v.view.Tracks top p)
    (hc : ∀ c ∈ text, c ≠ 10 ∧ c ≠ 13) (hx : text ≠ [] → -80 ≤ v.view.x) :
    ∃ top', (text.foldl Video.writeChar v).view.Tracks top'
        (p.putAll (text.map fun c => (c, attrib))) ∧
      top ≤ top' ∧ (top' = top ∨ 80 * (24 + top') ≤ p.pos + text.length) := by
  induction text generalizing v top p with
  | nil => exact ⟨top, h, Nat.le_refl top, .inl rfl⟩
  | cons c text ih =>
      obtain ⟨top₁, h₁, hx₁, hmore₁, hscroll₁⟩ :=
        h.writeChar (hc c List.mem_cons_self) (hx (List.cons_ne_nil c text))
      obtain ⟨top', h', hmore, hscroll⟩ := ih h₁ (fun d hd => hc d (List.mem_cons_of_mem c hd))
        fun _ => hx₁
      have hput : (p.put (c, attrib)).pos = p.pos + 1 := rfl
      refine ⟨top', h', Nat.le_trans hmore₁ hmore, ?_⟩
      rw [List.length_cons]
      omega

/-- `backspace` behind the first cell of the screen. -/
theorem view_backspace (h : ¬ (v.view.x = 0 ∧ v.view.y = 0)) : v.backspace.view =
    ⟨Function.update v.view.page (80 * v.view.y + v.view.x - 1) blankCell,
      if v.view.x = 0 then 79 else v.view.x - 1,
      if v.view.x = 0 then v.view.y - 1 else v.view.y⟩ := by
  have hstart : ¬ (v.screenX = 0 ∧ v.screenY = 0) := h
  have hcell : v.screenY * numCols + v.screenX - 1 = 80 * v.view.y + v.view.x - 1 := by
    rw [Int.mul_comm]
    rfl
  have hrow : (v.putCell (80 * v.view.y + v.view.x - 1) blankCell).screenY = v.view.y :=
    screenY_setPage
  simp only [Video.backspace, if_neg hstart, hcell]
  by_cases hzero : v.screenX = 0
  · have hcol : v.view.x = 0 := hzero
    rw [if_neg (not_not.mpr hzero), view_cursor, view_putCell, if_pos hcol, if_pos hcol]
    rfl
  · have hcol : ¬ v.view.x = 0 := hzero
    have hmoved := view_cursor (v.putCell (80 * v.view.y + v.view.x - 1) blankCell)
      (v.screenX - 1) (v.putCell (80 * v.view.y + v.view.x - 1) blankCell).screenY
    rw [if_pos hzero, if_neg hcol, if_neg hcol]
    refine hmoved.trans ?_
    rw [view_putCell, hrow]
    rfl

/-- The cell in front of the cursor is erased on the sheet. -/
theorem View.Tracks.backspace (h : v.view.Tracks top p) (hpos : 80 * top < p.pos) :
    v.backspace.view.Tracks top (p.erase blankCell) ∧
      v.backspace.view.x = if v.view.x = 0 then 79 else v.view.x - 1 := by
  obtain ⟨hshows, hplace, hy, hy', hx'⟩ := h
  have hold := window_pos (View.Tracks.place_nonneg ⟨hshows, hplace, hy, hy', hx'⟩)
  have hcols : ∀ y : Int, numCols * y = 80 * y := fun _ => rfl
  have hcell : (80 * v.view.y + v.view.x - 1).toNat + 80 * top = p.pos - 1 := by omega
  have hstored := hshows.store (i := (80 * v.view.y + v.view.x - 1).toNat) (by omega) blankCell
  rw [hcell] at hstored
  rw [view_backspace (by omega)]
  refine ⟨?_, rfl⟩
  by_cases hzero : v.view.x = 0
  · rw [if_pos hzero, if_pos hzero]
    refine ⟨?_, ?_, ?_, ?_, (by decide : (79 : Int) < 80)⟩
    · rw [window_store (by omega)]
      exact hstored.move (by rw [hcols]; omega)
    · show ((p.pos - 1 : Nat) : Int) = 80 * (v.view.y - 1 + top) + 79
      omega
    · show 0 ≤ v.view.y - 1
      omega
    · show v.view.y - 1 < 25
      omega
  · rw [if_neg hzero, if_neg hzero]
    refine ⟨?_, ?_, hy, hy', ?_⟩
    · rw [window_store (by omega)]
      exact hstored.move (by rw [hcols]; omega)
    · show ((p.pos - 1 : Nat) : Int) = 80 * (v.view.y + top) + (v.view.x - 1)
      omega
    · show v.view.x - 1 < 80
      omega

/-- Several of them. A cursor in its row stays on the screen, and one left of it goes on to the
left. -/
theorem View.Tracks.backspaces {n : Nat} (h : v.view.Tracks top p) (hn : 80 * top + n ≤ p.pos) :
    (Nat.iterate Video.backspace n v).view.Tracks top (Nat.iterate (Sheet.erase blankCell) n p) ∧
      (0 ≤ v.view.x → 0 ≤ (Nat.iterate Video.backspace n v).view.x) ∧
      (v.view.x < 0 → (Nat.iterate Video.backspace n v).view.x = v.view.x - n) := by
  induction n generalizing v p with
  | zero => exact ⟨h, id, fun _ => (Int.sub_zero _).symm⟩
  | succ n ih =>
      obtain ⟨h₁, hx₁⟩ := h.backspace (by omega)
      have herase : (p.erase blankCell).pos = p.pos - 1 := rfl
      obtain ⟨h', hinside, hleft⟩ := ih h₁ (by omega)
      rw [Function.iterate_succ_apply, Function.iterate_succ_apply]
      refine ⟨h', fun hx => hinside ?_, fun hx => ?_⟩
      · rw [hx₁]
        split <;> omega
      · rw [hleft (by rw [hx₁, if_neg (by omega)]; omega), hx₁, if_neg (by omega)]
        omega

end Text

/-! ## The line -/

/-- A cell that shows no character. -/
def IsBlank (c : Cell) : Prop := c.1 = 32 ∨ c.1 = 0

/-- The line on the screen. -/
def lineCells (e : Line) : List Cell := e.text.map fun c => (c, attrib)

/-- The `n` bytes from index `i` on of the row that holds a line. -/
def rowBytes (text : List UInt8) (i n : Nat) : List UInt8 :=
  (List.range n).map fun j => text.getD (i + j) 0

/-- The screen shows the line `e` from the cell `start` of the sheet on: the end of the line is in
the row of the cursor, or left of it, and the whole line is below the first line of the screen. -/
structure View.Displays (w : View) (front : Nat → Cell) (start longest top : Nat) (p : Sheet Cell)
    (e : Line) : Prop where
  tracks : w.Tracks top p
  cursor : p.pos = start + e.cursor
  holds : Holds IsBlank front start longest p (lineCells e)
  column : w.x + e.text.length - e.cursor ≤ 79
  reach : 80 * top ≤ start
  room : start + longest ≤ 80 * (25 + top)

section Line

variable {v : Video} {w : View} {front : Nat → Cell} {start longest top : Nat} {p : Sheet Cell}
  {e e' : Line}

theorem length_lineCells (e : Line) : (lineCells e).length = e.text.length := List.length_map _

theorem lineCells_getElem? (e : Line) (j : Nat) :
    (lineCells e)[j]? = e.text[j]?.map fun c => (c, attrib) := List.getElem?_map

theorem length_rowBytes (text : List UInt8) (i n : Nat) : (rowBytes text i n).length = n := by
  rw [rowBytes, List.length_map, List.length_range]

theorem getElem_rowBytes {text : List UInt8} {i n j : Nat} (hj : j < (rowBytes text i n).length) :
    (rowBytes text i n)[j] = text.getD (i + j) 0 := by
  simp only [rowBytes, List.getElem_map, List.getElem_range]

theorem rowBytes_all (text : List UInt8) : rowBytes text 0 text.length = text := by
  apply List.ext_getElem
  · exact length_rowBytes text 0 text.length
  · intro j hj hj'
    rw [getElem_rowBytes, Nat.zero_add, List.getD_eq_getElem _ _ hj']

/-- The bytes of a line are printed: none of them ends the line on the screen. -/
theorem printed_of_mem_rowBytes (hreturn : 13 ∉ e.text) {i n : Nat} {c : UInt8}
    (hc : c ∈ rowBytes e.text i n) : c ≠ 10 ∧ c ≠ 13 := by
  obtain ⟨j, hj, rfl⟩ := List.getElem_of_mem hc
  rw [getElem_rowBytes]
  by_cases hin : i + j < e.text.length
  · have hmem := List.getElem_mem hin
    rw [List.getD_eq_getElem _ _ hin]
    exact ⟨(e.legal_text _ hmem).2, fun heq => hreturn (heq ▸ hmem)⟩
  · rw [List.getD_eq_default _ _ (by omega)]
    decide

/-- The cells of these bytes: those of the line, and blank ones behind it. -/
theorem rowBytes_cells (e : Line) {i n j : Nat}
    (hj : j < ((rowBytes e.text i n).map fun c => (c, attrib)).length) :
    (lineCells e)[i + j]? = some ((rowBytes e.text i n).map fun c => (c, attrib))[j] ∨
      (lineCells e).length ≤ i + j ∧
        IsBlank ((rowBytes e.text i n).map fun c => (c, attrib))[j] := by
  rw [List.getElem_map, getElem_rowBytes, lineCells_getElem?, length_lineCells]
  by_cases hin : i + j < e.text.length
  · left
    rw [List.getElem?_eq_getElem hin, List.getD_eq_getElem _ _ hin]
    rfl
  · right
    rw [List.getD_eq_default _ _ (by omega)]
    exact ⟨by omega, .inr rfl⟩

/-- The line is at least as long as the longest one, or shorter. -/
theorem View.Displays.grow (h : w.Displays front start longest top p e) :
    w.Displays front start (max longest e.text.length) top p e := by
  obtain ⟨htracks, hcursor, hholds, hcolumn, hreach, hroom⟩ := h
  have hgrown := hholds.grow
  rw [length_lineCells] at hgrown
  have hpos := htracks.pos
  have hrow := htracks.y_lt
  exact ⟨htracks, hcursor, hgrown, hcolumn, hreach, by omega⟩

theorem View.Displays.left (h : w.Displays front start longest top p e) (hcursor : e.cursor ≠ 0) :
    View.Displays { w with x := w.x - 1 } front start longest top { p with pos := p.pos - 1 }
      e.left := by
  have hpos := h.tracks.pos
  have hplace := h.cursor
  have hreach := h.reach
  have hcolumn := h.column
  have hx := h.tracks.x_lt
  have hleft : e.left.cursor = e.cursor - 1 := rfl
  have htext : e.left.text = e.text := rfl
  refine ⟨h.tracks.move (by omega) (by omega) (by omega), ?_, h.holds.move _, ?_, hreach, h.room⟩
  · rw [hleft]
    show p.pos - 1 = _
    omega
  · rw [hleft, htext]
    show w.x - 1 + _ - _ ≤ (79 : Int)
    omega

theorem View.Displays.right (h : w.Displays front start longest top p e)
    (hcursor : e.cursor ≠ e.text.length) :
    View.Displays { w with x := w.x + 1 } front start longest top { p with pos := p.pos + 1 }
      e.right := by
  have hpos := h.tracks.pos
  have hplace := h.cursor
  have hreach := h.reach
  have hcolumn := h.column
  have hle := e.cursor_le
  have hright : e.right.cursor = e.cursor + 1 := Nat.min_eq_left (by omega)
  have htext : e.right.text = e.text := rfl
  refine ⟨h.tracks.move (by omega) (by omega) (by omega), ?_, h.holds.move _, ?_, hreach, h.room⟩
  · rw [hright]
    show p.pos + 1 = _
    omega
  · rw [hright, htext]
    show w.x + 1 + _ - _ ≤ (79 : Int)
    omega

/-- The line is written from its character `k` on, `n` characters with a `NUL` for each that is
behind its end, and the cursor goes back by `m`. -/
theorem View.Tracks.redraw (h : v.view.Tracks top p) {k n m : Nat} (hpos : p.pos = start + k)
    (hreach : 80 * top ≤ start) (hroom : start + longest ≤ 80 * (25 + top))
    (hfront : ∀ i, i < start → p.cells i = front i)
    (hline : ∀ j, j < k → (lineCells e')[j]? = some (p.cells (start + j)))
    (hbehind : ∀ j, k + n ≤ j → j < longest → IsBlank (p.cells (start + j)))
    (hlong : e'.text.length ≤ k + n) (hshort : k + n ≤ 128) (hback : m + e'.cursor = k + n)
    (hreturn : 13 ∉ e'.text) (hx : n ≠ 0 → -80 ≤ v.view.x) :
    ∃ top' p', View.Displays
      { ((rowBytes e'.text k n).foldl Video.writeChar v).view with
        x := ((rowBytes e'.text k n).foldl Video.writeChar v).view.x - m }
      front start (max longest e'.text.length) top' p' e' := by
  have hlength := length_rowBytes e'.text k n
  have hcells : ((rowBytes e'.text k n).map fun c => (c, attrib)).length = n := by
    rw [List.length_map, hlength]
  have hnonempty : rowBytes e'.text k n ≠ [] → n ≠ 0 := by
    rintro hne rfl
    exact hne rfl
  obtain ⟨top', htracks, hmore, hscroll⟩ := h.write (fun c => printed_of_mem_rowBytes hreturn)
    fun hne => hx (hnonempty hne)
  have hholds : Holds IsBlank front start longest
      (p.putAll ((rowBytes e'.text k n).map fun c => (c, attrib))) (lineCells e') := by
    refine Holds.redraw hpos hfront hline (fun j hj => rowBytes_cells e' hj) ?_ ?_
    · rw [length_lineCells, hcells]
      exact hlong
    · rw [hcells]
      exact hbehind
  have hend : (p.putAll ((rowBytes e'.text k n).map fun c => (c, attrib))).pos = start + k + n := by
    rw [Sheet.pos_putAll, hcells, hpos]
  generalize p.putAll ((rowBytes e'.text k n).map fun c => (c, attrib)) = p' at htracks hholds hend
  have hgrown := hholds.grow
  rw [length_lineCells] at hgrown
  have hpos' := htracks.pos
  have hrow := htracks.y_lt
  have hcol := htracks.x_lt
  rw [hlength] at hscroll
  refine ⟨top', { p' with pos := start + e'.cursor },
    htracks.move (by omega) (by omega) (by omega), rfl, hgrown.move _, ?_, by omega, ?_⟩
  · show ((rowBytes e'.text k n).foldl Video.writeChar v).view.x - m + _ - _ ≤ (79 : Int)
    omega
  · omega

/-- The effect of `keyboard_insert`. -/
theorem View.Displays.insert (h : v.view.Displays front start longest top p e) {c : UInt8}
    (htext : e'.text = e.text.insertIdx e.cursor c) (hcursor : e'.cursor = e.cursor + 1)
    (hreturn : 13 ∉ e'.text) (hx : -80 ≤ v.view.x) :
    ∃ top' p', View.Displays
      { ((rowBytes e'.text e.cursor (e.text.length + 1 - e.cursor)).foldl
          Video.writeChar v).view with
        x := ((rowBytes e'.text e.cursor (e.text.length + 1 - e.cursor)).foldl
          Video.writeChar v).view.x - (e.text.length - e.cursor : Nat) }
      front start (max longest e'.text.length) top' p' e' := by
  have hle := e.cursor_le
  have hlength : e'.text.length = e.text.length + 1 := by
    rw [htext, List.length_insertIdx_of_le_length hle]
  have hlimit := e'.length_le
  refine h.tracks.redraw h.cursor h.reach h.room h.holds.front (fun j hj => ?_)
    (fun j hj hlong => ?_) (by omega) (by omega) (by omega) hreturn fun _ => hx
  · rw [← h.holds.line j (by rw [length_lineCells]; omega), lineCells_getElem?,
      lineCells_getElem?, htext, List.getElem?_insertIdx_of_lt hj]
  · exact h.holds.behind j (by rw [length_lineCells]; omega) hlong

/-- The effect of `keyboard_backspace`. -/
theorem View.Displays.backspace (h : v.view.Displays front start longest top p e)
    (hstart : e.cursor ≠ 0) (htext : e'.text = e.text.eraseIdx (e.cursor - 1))
    (hcursor : e'.cursor = e.cursor - 1) (hreturn : 13 ∉ e'.text) (hx : -79 ≤ v.view.x) :
    ∃ top' p', View.Displays
      { ((rowBytes e'.text (e.cursor - 1) (e.text.length + 1 - e.cursor)).foldl
          Video.writeChar v.backspace).view with
        x := ((rowBytes e'.text (e.cursor - 1) (e.text.length + 1 - e.cursor)).foldl
          Video.writeChar v.backspace).view.x - (e.text.length + 1 - e.cursor : Nat) }
      front start (max longest e'.text.length) top' p' e' := by
  have hle := e.cursor_le
  have hlength : e'.text.length = e.text.length - 1 := by
    rw [htext, List.length_eraseIdx_of_lt (by omega)]
  have hlimit := e.length_le
  have hplace := h.cursor
  have hreach := h.reach
  obtain ⟨htracks, hcolumn⟩ := h.tracks.backspace (by omega)
  have hpos : (p.erase blankCell).pos = start + (e.cursor - 1) := by
    show p.pos - 1 = _
    omega
  have hcells : ∀ i, i ≠ start + (e.cursor - 1) → (p.erase blankCell).cells i = p.cells i :=
    fun i hi => Function.update_of_ne (by omega) _ _
  refine htracks.redraw hpos h.reach h.room (fun i hi => ?_) (fun j hj => ?_)
    (fun j hj hlong => ?_) (by omega) (by omega) (by omega) hreturn fun _ => ?_
  · rw [hcells i (by omega)]
    exact h.holds.front i hi
  · rw [hcells _ (by omega), ← h.holds.line j (by rw [length_lineCells]; omega),
      lineCells_getElem?, lineCells_getElem?, htext, List.getElem?_eraseIdx_of_lt hj]
  · rw [hcells _ (by omega)]
    exact h.holds.behind j (by rw [length_lineCells]; omega) hlong
  · rw [hcolumn]
    split <;> omega

/-- `reset_terminal_keyboard_input`: the cursor goes to the end of the line, and back over it. -/
theorem View.Displays.erased (h : v.view.Displays front start longest top p e) :
    ∃ q, (v.resetInput e.cursor e.text.length).view.Tracks top q ∧ q.pos = start ∧
      (∀ i, q.cells i =
        if start ≤ i ∧ i < start + e.text.length then blankCell else p.cells i) ∧
      (0 ≤ v.view.x + e.text.length - e.cursor →
        0 ≤ (v.resetInput e.cursor e.text.length).view.x) ∧
      (v.view.x + e.text.length - e.cursor < 0 →
        (v.resetInput e.cursor e.text.length).view.x = v.view.x - e.cursor) := by
  have hle := e.cursor_le
  have hplace := h.cursor
  have hreach := h.reach
  have hcolumn := h.column
  have hpos := h.tracks.pos
  have hright : (v.cursorRight ((e.text.length : Int) - e.cursor)).view =
      { v.view with x := v.view.x + ((e.text.length : Int) - e.cursor) } := view_cursor v _ _
  have hend : (v.cursorRight ((e.text.length : Int) - e.cursor)).view.Tracks top
      { p with pos := start + e.text.length } := by
    rw [hright]
    exact h.tracks.move (by omega) (by omega) (by omega)
  have hback : 80 * top + e.text.length ≤
      ({ p with pos := start + e.text.length } : Sheet Cell).pos := by
    show _ ≤ start + e.text.length
    omega
  -- from the end of the line, one backspace for each of its characters
  obtain ⟨htracks, hinside, hleft⟩ := hend.backspaces hback
  have hcolumn' : (v.cursorRight ((e.text.length : Int) - e.cursor)).view.x =
      v.view.x + e.text.length - e.cursor := by
    rw [hright]
    show v.view.x + ((e.text.length : Int) - e.cursor) = _
    omega
  rw [hcolumn'] at hinside hleft
  refine ⟨_, htracks, ?_, fun i => ?_, hinside, fun hneg => ?_⟩
  · rw [Sheet.pos_erase_iterate]
    exact Nat.add_sub_cancel start e.text.length
  · rw [Sheet.cells_erase_iterate (Nat.le_add_left _ _)]
    simp only [Nat.add_sub_cancel]
  · have hmoved : (v.resetInput e.cursor e.text.length).view.x =
        v.view.x + e.text.length - e.cursor - e.text.length := hleft hneg
    omega

/-- The effect of a recalled line: the old one is erased and the new one is written. -/
theorem View.Displays.recall (h : v.view.Displays front start longest top p e)
    (hcursor : e'.cursor = e'.text.length) (hreturn : 13 ∉ e'.text)
    (hx : e'.text = [] ∨ 0 ≤ v.view.x + e.text.length - e.cursor ∨ -80 ≤ v.view.x - e.cursor) :
    ∃ top' p', ((e'.text.foldl Video.writeChar
      (v.resetInput e.cursor e.text.length)).view).Displays
        front start (max longest e'.text.length) top' p' e' := by
  have hlimit := e'.length_le
  obtain ⟨q, htracks, hfirst, hcells, hinside, hleft⟩ := h.erased
  have hfront : ∀ i, i < start → q.cells i = front i := by
    intro i hi
    rw [hcells, if_neg (by omega)]
    exact h.holds.front i hi
  have hline : ∀ j, j < 0 → (lineCells e')[j]? = some (q.cells (start + j)) :=
    fun j hj => absurd hj (Nat.not_lt_zero j)
  have hbehind : ∀ j, 0 + e'.text.length ≤ j → j < longest → IsBlank (q.cells (start + j)) := by
    intro j hj hlong
    rw [hcells]
    by_cases hold : j < e.text.length
    · -- a character of the old line, which has been erased
      rw [if_pos (by omega)]
      exact .inl rfl
    · rw [if_neg (by omega)]
      exact h.holds.behind j (by rw [length_lineCells]; omega) hlong
  have hwidth : e'.text.length ≠ 0 →
      -80 ≤ (v.resetInput e.cursor e.text.length).view.x := by
    intro hne
    have hwide := hx.resolve_left fun hnil => hne (congrArg List.length hnil)
    rcases Int.lt_or_le (v.view.x + e.text.length - e.cursor) 0 with hneg | hnonneg
    · rw [hleft hneg]
      omega
    · exact Int.le_trans (by decide) (hinside hnonneg)
  have hzero : q.pos = start + 0 := hfirst
  obtain ⟨top', p', hdisplays⟩ := htracks.redraw (m := 0) hzero h.reach h.room hfront hline
    hbehind (by omega) (by omega) (by omega) hreturn hwidth
  rw [rowBytes_all] at hdisplays
  simp only [Int.natCast_zero, Int.sub_zero] at hdisplays
  exact ⟨top', p', hdisplays⟩

end Line

end Video

end Ece391Os
