import Ece391Os.Model.Screen

/-!
# What text output does

The text routines write to the page that `video_mem` leads to and to the cursor. `Output` says
what they leave alone, and `Video.view` what they depend on: the content of that page and the
cursor, whichever page it is. `moveCursor` is the way of the cursor alone.
-/

set_option autoImplicit false

namespace Ece391Os

namespace Video

/-- Text output leads from `v` to `w`: the pointers stay, and so do the other pages. -/
structure Output (v w : Video) : Prop where
  videoMem : w.videoMem = v.videoMem
  vidEntry : w.vidEntry = v.vidEntry
  programPage : w.programPage = v.programPage
  others : ∀ f, f ≠ v.target → w.page f = v.page f

/-- The content of the page that `video_mem` leads to, and the cursor. -/
structure View where
  page : Page
  x : Int
  y : Int

/-- The view through `video_mem`. -/
def view (v : Video) : View := ⟨v.page v.target, v.screenX, v.screenY⟩

/-! ## Pages -/

section Pages

variable {v w u : Video} {f : FrameRef} {p : Page}

theorem page_setPage_self (v : Video) (f : FrameRef) (p : Page) : (v.setPage f p).page f = p := by
  cases f with
  | screen => rfl
  | backing t => exact Function.update_self _ _ _

theorem page_setPage_of_ne {g : FrameRef} (h : g ≠ f) : (v.setPage f p).page g = v.page g := by
  cases f with
  | screen =>
      cases g with
      | screen => exact absurd rfl h
      | backing u => rfl
  | backing t =>
      cases g with
      | screen => rfl
      | backing u => exact Function.update_of_ne (fun heq => h (congrArg _ heq)) _ _

@[simp] theorem target_setPage : (v.setPage f p).target = v.target := by
  cases f <;> rfl

@[simp] theorem screenX_setPage : (v.setPage f p).screenX = v.screenX := by
  cases f <;> rfl

@[simp] theorem screenY_setPage : (v.setPage f p).screenY = v.screenY := by
  cases f <;> rfl

/-- A new content of the page that `video_mem` leads to. -/
theorem view_setPage : (v.setPage v.target p).view = ⟨p, v.screenX, v.screenY⟩ := by
  rw [view, target_setPage, page_setPage_self, screenX_setPage, screenY_setPage]

end Pages

/-! ## What output leaves alone -/

namespace Output

variable {v w u : Video}

theorem refl (v : Video) : Output v v := ⟨rfl, rfl, rfl, fun _ _ => rfl⟩

theorem target_eq (h : Output v w) : w.target = v.target := by
  rw [target, h.videoMem, h.vidEntry, target]

theorem trans (h : Output v w) (h' : Output w u) : Output v u where
  videoMem := h'.videoMem.trans h.videoMem
  vidEntry := h'.vidEntry.trans h.vidEntry
  programPage := h'.programPage.trans h.programPage
  others := fun f hf => (h'.others f (h.target_eq ▸ hf)).trans (h.others f hf)

theorem setPage (v : Video) (p : Page) : Output v (v.setPage v.target p) where
  videoMem := by cases v.target <;> rfl
  vidEntry := by cases v.target <;> rfl
  programPage := by cases v.target <;> rfl
  others := fun _ hf => page_setPage_of_ne hf

/-- The cursor moves. -/
theorem cursor (h : Output v w) (x y : Int) : Output v { w with screenX := x, screenY := y } :=
  ⟨h.videoMem, h.vidEntry, h.programPage, fun f hf => by
    rw [← h.others f hf]
    cases f <;> rfl⟩

theorem putCell (v : Video) (i : Int) (c : Cell) : Output v (v.putCell i c) := setPage v _

theorem clear (v : Video) : Output v v.clear := setPage v _

theorem scroll (v : Video) : Output v v.scroll := (setPage v _).cursor 0 _

theorem backspace (v : Video) : Output v v.backspace := by
  simp only [Video.backspace]
  split
  · exact refl v
  · split
    · exact (putCell v _ _).cursor _ _
    · exact (putCell v _ _).cursor _ _

theorem nextLine (v : Video) : Output v v.nextLine := by
  simp only [Video.nextLine]
  split
  · exact scroll v
  · exact (refl v).cursor _ _

theorem putc (v : Video) (c : UInt8) : Output v (v.putc c) := by
  simp only [Video.putc]
  split
  · exact (refl v).cursor _ _
  · exact (putCell v _ _).cursor _ _

theorem writeChar (v : Video) (c : UInt8) : Output v (v.writeChar c) := by
  simp only [Video.writeChar]
  split
  · exact nextLine v
  · split
    · exact (putc v c).trans (nextLine _)
    · exact putc v c

/-- A text, one character after another. -/
theorem write (v : Video) (text : List UInt8) : Output v (text.foldl Video.writeChar v) := by
  induction text generalizing v with
  | nil => exact refl v
  | cons c text ih => exact (writeChar v c).trans (ih _)

theorem terminalClear (v : Video) : Output v v.terminalClear := (clear v).cursor 0 0

theorem cursorLeft (v : Video) (amount : Int) : Output v (v.cursorLeft amount) :=
  (refl v).cursor _ _

theorem cursorRight (v : Video) (amount : Int) : Output v (v.cursorRight amount) :=
  (refl v).cursor _ _

theorem resetInput (v : Video) (index size : Nat) : Output v (v.resetInput index size) := by
  have hmany : ∀ (n : Nat) (w : Video), Output w (Nat.iterate Video.backspace n w) := by
    intro n
    induction n with
    | zero => exact refl
    | succ n ih => exact fun w => (backspace w).trans (ih _)
  exact (cursorRight v _).trans (hmany size _)

end Output

/-! ## What output depends on -/

section Views

variable {v w : Video}

theorem view_putCell (v : Video) (i : Int) (c : Cell) :
    (v.putCell i c).view = ⟨Function.update v.view.page i c, v.view.x, v.view.y⟩ :=
  view_setPage

/-- The cursor does not decide where `video_mem` leads. -/
theorem view_cursor (v : Video) (x y : Int) :
    { v with screenX := x, screenY := y }.view = ⟨v.view.page, x, y⟩ := by
  have hpage : { v with screenX := x, screenY := y }.page v.target = v.page v.target := by
    cases v.target <;> rfl
  exact congrArg (View.mk · x y) hpage

theorem view_scroll (v : Video) : v.scroll.view =
    ⟨fun i =>
      if 0 ≤ i ∧ i < numRows * numCols - numCols then v.view.page (i + numCols)
      else if numRows * numCols - numCols ≤ i ∧ i < numRows * numCols then blankCell
      else v.view.page i, 0, v.view.y⟩ := by
  have hcursor := view_cursor (v.setPage v.target fun i =>
    if 0 ≤ i ∧ i < numRows * numCols - numCols then v.page v.target (i + numCols)
    else if numRows * numCols - numCols ≤ i ∧ i < numRows * numCols then blankCell
    else v.page v.target i) 0 v.screenY
  rw [view_setPage] at hcursor
  refine Eq.trans ?_ hcursor
  rw [scroll]
  congr 1
  cases v.target <;> rfl

theorem view_scroll_congr (h : v.view = w.view) : v.scroll.view = w.scroll.view := by
  rw [view_scroll, view_scroll, h]

theorem view_nextLine (v : Video) : v.nextLine.view =
    if v.view.y ≥ numRows - 1 then v.scroll.view else ⟨v.view.page, 0, v.view.y + 1⟩ := by
  simp only [nextLine]
  split
  next hlast => exact (if_pos hlast).symm
  next hlast => exact (view_cursor v _ _).trans (if_neg hlast).symm

theorem view_nextLine_congr (h : v.view = w.view) : v.nextLine.view = w.nextLine.view := by
  rw [view_nextLine, view_nextLine, view_scroll_congr h, h]

theorem view_putc (v : Video) (c : UInt8) : (v.putc c).view =
    if c = 10 ∨ c = 13 then ⟨v.view.page, 0, v.view.y + 1⟩
    else
      let x := (v.view.x + 1).tmod numCols
      ⟨Function.update v.view.page (numCols * v.view.y + v.view.x) (c, attrib), x,
        (v.view.y + x.tdiv numCols).tmod numRows⟩ := by
  simp only [putc]
  split
  · exact view_cursor v _ _
  · rw [view_cursor, view_putCell]
    rfl

/-- A character in the columns where the remainder of C is that of the column itself. -/
theorem view_putc_char {c : UInt8} (hc : c ≠ 10 ∧ c ≠ 13)
    (hx : -80 ≤ v.view.x) (hx' : v.view.x < 80) (hy : 0 ≤ v.view.y) (hy' : v.view.y < 25) :
    (v.putc c).view =
      ⟨Function.update v.view.page (80 * v.view.y + v.view.x) (c, attrib),
        if v.view.x = 79 then 0 else v.view.x + 1, v.view.y⟩ := by
  have hcols : numCols = 80 := rfl
  have hrows : numRows = 25 := rfl
  have hcol : (v.view.x + 1).tmod 80 = if v.view.x = 79 then 0 else v.view.x + 1 := by
    split
    next hlast => rw [hlast]; rfl
    next hlast =>
      rcases Int.le_total 0 (v.view.x + 1) with hpos | hneg
      · exact Int.tmod_eq_of_lt hpos (by omega)
      · have hneg' : (-(v.view.x + 1)).tmod 80 = -(v.view.x + 1) :=
          Int.tmod_eq_of_lt (by omega) (by omega)
        rw [Int.neg_tmod] at hneg'
        omega
  have hdiv : ((v.view.x + 1).tmod 80).tdiv 80 = 0 := by
    rw [hcol]
    split
    · rfl
    next hlast =>
      rcases Int.le_total 0 (v.view.x + 1) with hpos | hneg
      · exact Int.tdiv_eq_zero_of_lt hpos (by omega)
      · have hneg' : (-(v.view.x + 1)).tdiv 80 = 0 :=
          Int.tdiv_eq_zero_of_lt (by omega) (by omega)
        rw [Int.neg_tdiv] at hneg'
        omega
  rw [view_putc, if_neg (not_or.mpr hc), hcols, hrows]
  simp only [hdiv, Int.add_zero]
  rw [hcol, Int.tmod_eq_of_lt hy hy']

theorem view_putc_congr (c : UInt8) (h : v.view = w.view) : (v.putc c).view = (w.putc c).view := by
  rw [view_putc, view_putc, h]

theorem view_writeChar_congr (c : UInt8) (h : v.view = w.view) :
    (v.writeChar c).view = (w.writeChar c).view := by
  have hx : v.screenX = w.screenX := congrArg View.x h
  simp only [writeChar, hx]
  split
  · exact view_nextLine_congr h
  · split
    · exact view_nextLine_congr (view_putc_congr c h)
    · exact view_putc_congr c h

/-- The view after a text depends on the view before it. -/
theorem view_write_congr (text : List UInt8) (h : v.view = w.view) :
    (text.foldl writeChar v).view = (text.foldl writeChar w).view := by
  induction text generalizing v w with
  | nil => exact h
  | cons c text ih => exact ih (view_writeChar_congr c h)

end Views

end Video

/-! ## The cursor -/

/-- The cursor behind one round of the loop of `terminal_write`. -/
def moveCursor (p : Int × Int) (c : UInt8) : Int × Int :=
  let next (p : Int × Int) : Int × Int :=
    if p.2 ≥ numRows - 1 then (0, p.2) else (0, p.2 + 1)
  let put : Int × Int :=
    if c = 10 ∨ c = 13 then (0, p.2 + 1)
    else
      let x := (p.1 + 1).tmod numCols
      (x, (p.2 + x.tdiv numCols).tmod numRows)
  if c = 10 then next p
  else if p.1 = numCols - 1 then next put
  else put

/-- The cursor behind `putc`. -/
def putCursor (p : Int × Int) (c : UInt8) : Int × Int :=
  if c = 10 ∨ c = 13 then (0, p.2 + 1)
  else
    let x := (p.1 + 1).tmod numCols
    (x, (p.2 + x.tdiv numCols).tmod numRows)

/-- A position in the 25 rows of 80 characters. -/
structure OnScreen (p : Int × Int) : Prop where
  x_nonneg : 0 ≤ p.1
  x_lt : p.1 < numCols
  y_nonneg : 0 ≤ p.2
  y_lt : p.2 < numRows

instance (p : Int × Int) : Decidable (OnScreen p) :=
  decidable_of_iff ((0 ≤ p.1 ∧ p.1 < numCols) ∧ (0 ≤ p.2 ∧ p.2 < numRows))
    ⟨fun h => ⟨h.1.1, h.1.2, h.2.1, h.2.2⟩, fun h => ⟨⟨h.1, h.2⟩, ⟨h.3, h.4⟩⟩⟩

namespace Video

/-- The two cursor globals. -/
def cursor (v : Video) : Int × Int := (v.screenX, v.screenY)

variable {v : Video}

theorem cursor_nextLine (v : Video) :
    v.nextLine.cursor = if v.screenY ≥ numRows - 1 then (0, v.screenY) else (0, v.screenY + 1) := by
  simp only [nextLine]
  split
  · rw [cursor, scroll, screenY_setPage]
  · rfl

theorem cursor_putc (v : Video) (c : UInt8) : (v.putc c).cursor = putCursor v.cursor c := by
  simp only [putc, putCursor]
  split <;> rfl

/-- The characters on the page do not move the cursor. -/
theorem cursor_writeChar (v : Video) (c : UInt8) :
    (v.writeChar c).cursor = moveCursor v.cursor c := by
  have hx : v.cursor.1 = v.screenX := rfl
  have hy : v.cursor.2 = v.screenY := rfl
  simp only [writeChar, moveCursor, hx, hy]
  by_cases hnewline : c = 10
  · rw [if_pos hnewline, if_pos hnewline, cursor_nextLine]
  · rw [if_neg hnewline, if_neg hnewline]
    by_cases hlast : v.screenX = numCols - 1
    · have hput : (v.putc c).screenY = (v.putc c).cursor.2 := rfl
      rw [if_pos hlast, if_pos hlast, cursor_nextLine, hput, cursor_putc]
      rfl
    · rw [if_neg hlast, if_neg hlast, cursor_putc]
      rfl

end Video

/-- The first position of a row. -/
theorem onScreen_row {y : Int} (hy : 0 ≤ y) (hy' : y < numRows) : OnScreen (0, y) where
  x_nonneg := Int.le_refl 0
  x_lt := (by decide : (0 : Int) < numCols)
  y_nonneg := hy
  y_lt := hy'

/-- A character moves on by one column and wraps in its row, so that it adds no row. -/
theorem OnScreen.putCursor {p : Int × Int} (h : OnScreen p) {c : UInt8} (hnewline : c ≠ 10)
    (hc : c = 13 → p.2 < numRows - 1) : OnScreen (putCursor p c) := by
  have hrows : numRows = 25 := rfl
  have hcols : numCols = 80 := rfl
  obtain ⟨hx, hx', hy, hy'⟩ := h
  simp only [Ece391Os.putCursor]
  split
  next hreturn =>
    have hrow := hc (hreturn.resolve_left hnewline)
    exact onScreen_row (by omega) (by omega)
  next hchar =>
    have hcol : 0 ≤ (p.1 + 1).tmod numCols := Int.tmod_nonneg _ (by omega)
    have hcol' : (p.1 + 1).tmod numCols < numCols := Int.tmod_lt_of_pos _ (by omega)
    have hdiv : ((p.1 + 1).tmod numCols).tdiv numCols = 0 :=
      Int.tdiv_eq_zero_of_lt hcol hcol'
    rw [hdiv, Int.add_zero]
    exact ⟨hcol, hcol', Int.tmod_nonneg _ hy, Int.tmod_lt_of_pos _ (by omega)⟩

/-- A character leaves the cursor on the screen. -/
theorem OnScreen.moveCursor {p : Int × Int} (h : OnScreen p) {c : UInt8}
    (hc : c = 13 → p.2 < numRows - 1) : OnScreen (moveCursor p c) := by
  have hnext : ∀ q : Int × Int, OnScreen q →
      OnScreen (if q.2 ≥ numRows - 1 then (0, q.2) else (0, q.2 + 1)) := by
    intro q hq
    have hy := hq.y_nonneg
    split
    · exact onScreen_row hy hq.y_lt
    next hlast => exact onScreen_row (by omega) (by omega)
  simp only [Ece391Os.moveCursor]
  by_cases hnewline : c = 10
  · rw [if_pos hnewline]
    exact hnext p h
  · rw [if_neg hnewline]
    have hput := h.putCursor hnewline hc
    split
    · exact hnext _ hput
    · exact hput

end Ece391Os
