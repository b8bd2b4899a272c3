import Ece391Os.Library.ScrollingSheet
import Ece391Os.Model.Processes
import Ece391Os.Properties.TextOutput

/-!
# Text on a page without end

`terminal_write` advances the row in `next_line` only, which scrolls in the last row; `putc` wraps
the column in its row. Together they write on a page of 80 columns that has no last line, of which
the screen shows the 25 lines that end at the later of its own last line and the line of the cursor
(`terminalWrite_page`). The text has no carriage return: that one moves the cursor inside `putc`.
-/

set_option autoImplicit false

namespace Ece391Os

open ScrollingSheet

namespace Video

/-- The cells from the first one of the screen on, and the place of the cursor among them. -/
def View.window (w : View) : Sheet Cell := ⟨fun i => w.page i, (numCols * w.y + w.x).toNat⟩

/-- The page without end: the screen, with blank lines below. -/
def View.unbounded (w : View) : Sheet Cell :=
  { w.window with cells := fun i => if i < 80 * 25 then w.window.cells i else blankCell }

/-- What a byte is on the page: a newline ends the line. -/
def token (c : UInt8) : Option Cell := if c = 10 then none else some (c, attrib)

/-- The page without end after a text. -/
def View.written (w : View) (text : List UInt8) : Sheet Cell :=
  (text.map token).foldl (Sheet.write 80) w.unbounded

/-- The first of the 25 lines that end at line 24 or, if that is later, at the line of the
position. -/
def topLine (p : Sheet Cell) : Nat := max 24 (p.pos / 80) - 24

/-- The screen shows the page from line `topLine` on: its cells with their attributes, and the
cursor. -/
structure View.ShowsPage (w : View) (p : Sheet Cell) : Prop where
  cells : ∀ row col : Nat, row < 25 → col < 80 →
    w.page (80 * row + col) = p.cells (80 * (topLine p + row) + col)
  x : w.x = p.pos % 80
  y : w.y + topLine p = p.pos / 80

/-! ## One character -/

section Characters

variable {v : Video} {w : View}

/-- The place of a cursor that is not in front of the first cell. -/
theorem window_pos (h : 0 ≤ 80 * w.y + w.x) : (w.window.pos : Int) = 80 * w.y + w.x :=
  Int.toNat_of_nonneg h

theorem place_nonneg (h : OnScreen (w.x, w.y)) : 0 ≤ 80 * w.y + w.x := by
  have hx : 0 ≤ w.x := h.x_nonneg
  have hy : 0 ≤ w.y := h.y_nonneg
  omega

/-- A character is stored. -/
theorem window_store {i : Int} (hi : 0 ≤ i) (c : Cell) (x y : Int) :
    (View.mk (Function.update w.page i c) x y).window =
      { w.window.store i.toNat c with pos := (numCols * y + x).toNat } := by
  simp only [View.window, Sheet.store]
  congr 1
  funext j
  have hsame : ((j : Int) = i) ↔ j = i.toNat := by omega
  rcases eq_or_ne j i.toNat with rfl | hne
  · rw [Function.update_self, hsame.mpr rfl, Function.update_self]
  · rw [Function.update_of_ne hne, Function.update_of_ne (fun heq => hne (hsame.mp heq))]

/-- The cells after `scroll`. -/
theorem window_scroll (v : Video) (pos : Nat) : v.scroll.view.window.cells =
    (({ v.view.window with pos := pos } : Sheet Cell).scroll 80 25 blankCell).cells := by
  have hrows : numRows * numCols = 2000 := rfl
  have hcols : numCols = 80 := rfl
  rw [view_scroll]
  funext i
  simp only [View.window, Sheet.scroll, hrows]
  rw [hcols]
  by_cases hmoved : i + 80 < 80 * 25
  · rw [if_pos hmoved, if_pos (by omega)]
    rfl
  · rw [if_neg hmoved, if_neg (by omega)]
    by_cases hlast : i < 80 * 25
    · rw [if_pos hlast, if_pos (by omega)]
    · rw [if_neg hlast, if_neg (by omega)]

/-- `next_line` goes to column 0 of the next line, where the window settles. -/
theorem window_nextLine (hy : 0 ≤ v.view.y) (hy' : v.view.y < 25) :
    v.nextLine.view.window =
      ({ v.view.window with pos := (80 * (v.view.y + 1)).toNat } : Sheet Cell).settle 80 25
        blankCell := by
  have hlimit : numRows - 1 = 24 := rfl
  rw [view_nextLine, Sheet.settle, hlimit]
  by_cases hlast : v.view.y ≥ 24
  · rw [if_pos hlast, if_neg (by simp only; omega)]
    have hcells := window_scroll v (80 * (v.view.y + 1)).toNat
    have hpos : v.scroll.view.window.pos = (80 * (v.view.y + 1)).toNat - 80 := by
      rw [view_scroll]
      show (80 * v.view.y + 0).toNat = (80 * (v.view.y + 1)).toNat - 80
      omega
    exact congrArg₂ Sheet.mk hcells hpos
  · rw [if_neg hlast, if_pos (by simp only; omega)]
    show Sheet.mk _ (80 * (v.view.y + 1) + 0).toNat = _
    rw [Int.add_zero]
    rfl

/-- The two branches for a character: in column 79 it is `next_line` that goes on to the next
line. The cursor may be left of its row. -/
theorem window_char {c : UInt8} (hc : c ≠ 10 ∧ c ≠ 13) (hx : -80 ≤ v.view.x)
    (hx' : v.view.x < 80) (hy : 0 ≤ v.view.y) (hy' : v.view.y < 25)
    (hplace : 0 ≤ 80 * v.view.y + v.view.x) :
    (if v.screenX = numCols - 1 then (v.putc c).nextLine else v.putc c).view.window =
      (v.view.window.put (c, attrib)).settle 80 25 blankCell := by
  have hpos := window_pos hplace
  have hput := view_putc_char hc hx hx' hy hy'
  have hstore := window_store (w := v.view) hplace (c, attrib)
  have hplace : (80 * v.view.y + v.view.x).toNat = v.view.window.pos := rfl
  by_cases hlast : v.screenX = numCols - 1
  · have hcol : v.view.x = 79 := hlast
    rw [if_pos hcol] at hput
    have hrow : (v.putc c).view.y = v.view.y := by rw [hput]
    have hnext : (80 * (v.view.y + 1)).toNat = v.view.window.pos + 1 := by omega
    rw [if_pos hlast, window_nextLine (by rw [hrow]; exact hy) (by rw [hrow]; exact hy'), hrow,
      hnext, hput, hstore, hplace]
    rfl
  · have hcol : v.view.x ≠ 79 := hlast
    have hnext : (numCols * v.view.y + (v.view.x + 1)).toNat = v.view.window.pos + 1 := by
      show (80 * v.view.y + (v.view.x + 1)).toNat = _
      omega
    rw [if_neg hcol] at hput
    rw [if_neg hlast, hput, hstore, hplace, hnext, Sheet.settle, if_pos]
    · rfl
    · show v.view.window.pos + 1 < 80 * 25
      omega

/-- A character of a text is written to the window. -/
theorem window_writeChar (h : OnScreen v.cursor) {c : UInt8} (hc : c ≠ 13) :
    (v.writeChar c).view.window = v.view.window.writeWindow 80 25 blankCell (token c) := by
  have hx : 0 ≤ v.view.x := h.x_nonneg
  have hx' : v.view.x < 80 := h.x_lt
  have hy : 0 ≤ v.view.y := h.y_nonneg
  simp only [writeChar, token, Sheet.writeWindow]
  by_cases hnewline : c = 10
  · have hpos := window_pos (w := v.view) (place_nonneg h)
    have hnext : (80 * (v.view.y + 1)).toNat = 80 * (v.view.window.pos / 80 + 1) := by omega
    rw [if_pos hnewline, if_pos hnewline, window_nextLine hy h.y_lt, hnext]
    rfl
  · rw [if_neg hnewline, if_neg hnewline, window_char ⟨hnewline, hc⟩ (by omega) hx' hy h.y_lt
      (place_nonneg h)]
    rfl

end Characters

/-! ## A text -/

/-- The cursor of a text without carriage returns stays on the screen. -/
theorem onScreen_write {v : Video} (h : OnScreen v.cursor) {text : List UInt8}
    (hreturn : 13 ∉ text) :
    OnScreen (text.foldl writeChar v).cursor ∧ (text.foldl writeChar v).view.window =
      (text.map token).foldl (Sheet.writeWindow 80 25 blankCell) v.view.window := by
  induction text generalizing v with
  | nil => exact ⟨h, rfl⟩
  | cons c text ih =>
      have hc : c ≠ 13 := fun heq => hreturn (heq ▸ List.mem_cons_self)
      have hmoved : OnScreen (v.writeChar c).cursor := by
        rw [cursor_writeChar]
        exact h.moveCursor fun heq => absurd heq hc
      rw [List.map_cons, List.foldl_cons, List.foldl_cons, ← window_writeChar h hc]
      exact ih hmoved fun hmem => hreturn (List.mem_cons_of_mem c hmem)

/-- The screen shows the page that its window follows. -/
theorem View.ShowsPage.of_follows {w : View} {p : Sheet Cell} {top : Nat}
    (h : OnScreen (w.x, w.y)) (hfollows : Follows 80 25 blankCell top w.window p) :
    w.ShowsPage p := by
  have hpos := window_pos (place_nonneg h)
  have hx : 0 ≤ w.x := h.x_nonneg
  have hx' : w.x < 80 := h.x_lt
  have hsheet := hfollows.shows.pos
  have htop := hfollows.top_eq (by decide)
  have hline : topLine p = top := by
    rw [topLine]
    omega
  refine ⟨fun row col hrow hcol => ?_, ?_, ?_⟩
  · have hplace : 80 * row + col + 80 * top = 80 * (top + row) + col := by omega
    rw [hline, ← hplace, ← hfollows.shows.cells _ (by omega)]
    rfl
  · omega
  · rw [hline]
    omega

end Video

/-- `terminal_write` of a text without carriage returns refines writing it on the page without
end, wherever the cursor is on the screen. -/
theorem terminalWrite_page (k : Kernel) {text : List UInt8} (hcursor : OnScreen k.video.cursor)
    (hlength : 1 ≤ text.length) (hreturn : 13 ∉ text) :
    (terminalWrite k text).1 = text.length ∧
      (terminalWrite k text).2.video.view.ShowsPage (k.video.view.written text) := by
  obtain ⟨honscreen, hwindow⟩ := Video.onScreen_write hcursor hreturn
  have hstart : Follows 80 25 blankCell 0 k.video.view.window k.video.view.unbounded :=
    ⟨.start 80 25 blankCell _, by
      have hpos := Video.window_pos (Video.place_nonneg (w := k.video.view) hcursor)
      have hx' : k.video.view.x < 80 := hcursor.x_lt
      have hy' : k.video.view.y < 25 := hcursor.y_lt
      omega, .inl rfl⟩
  obtain ⟨top, hfollows⟩ :=
    hstart.writeAll (by decide) (by decide) (text.map Video.token)
  rw [← hwindow] at hfollows
  rw [terminalWrite, if_neg (by omega)]
  exact ⟨rfl, .of_follows honscreen hfollows⟩

/-- The cursor in the last column of the last row. -/
def lowerRight : Kernel :=
  { bootKernel 0 with video := { (bootKernel 0).video with screenX := 79, screenY := 24 } }

theorem terminalWrite_page_lowerRight :
    (terminalWrite lowerRight [97, 10, 98]).1 = 3 ∧
      (terminalWrite lowerRight [97, 10, 98]).2.video.view.ShowsPage
        (lowerRight.video.view.written [97, 10, 98]) :=
  terminalWrite_page lowerRight (by decide) (by decide) (by decide)

end Ece391Os
