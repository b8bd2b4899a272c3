import Ece391Os.Model.InterruptedOutput
import Ece391Os.Properties.TextOutput

/-!
# Interrupted output and `terminal_write`

What a call of `terminal_write` has left to do, as one function of the output it finds. The
statements of a call compute it one after another (`OutputStatement.finish_exec`), and from its
first statement on it is `terminal_write` (`terminalWrite_eq_finish`). As the whole call does, it
depends on the page that `video_mem` leads to and on the cursor alone.
`OutputStatement.cursorAfter` is the way of the cursor.
-/

set_option autoImplicit false

namespace Ece391Os

/-! ## Without an interrupt -/

/-- The page behind the loops of `scroll` from cell `i` on. -/
def scrolledPage (p : Page) (i : Nat) : Page := fun j =>
  if i ≤ j ∧ j < numRows * numCols - numCols then p (j + numCols)
  else if i ≤ j ∧ numRows * numCols - numCols ≤ j ∧ j < numRows * numCols then blankCell
  else p j

/-- `scroll` from cell `i` on. -/
def Video.scrollFrom (v : Video) (i : Nat) : Video :=
  { v.setPage v.target (scrolledPage (v.page v.target) i) with screenX := 0 }

/-- What a statement and those that it leads to do without an interrupt. -/
def OutputStatement.complete (v : Video) : OutputStatement → Video
  | .chars text => text.foldl Video.writeChar v
  | .nextLine => v.nextLine
  | .scroll i => v.scrollFrom i
  | .storeChar i c => (v.putCell i (c, (v.scrolledCell i).2)).scrollFrom (i + 1)
  | .loadAttrib i => (v.putCell i ((v.cell i).1, (v.scrolledCell i).2)).scrollFrom (i + 1)
  | .storeAttrib i a => (v.putCell i ((v.cell i).1, a)).scrollFrom (i + 1)
  | .column => { v with screenX := 0 }
  | .row => { v with screenY := v.screenY + 1 }
  | .storeRow y => { v with screenY := y }

/-- The output of a list of statements without an interrupt. -/
def Video.finish (v : Video) (output : List OutputStatement) : Video :=
  output.foldl OutputStatement.complete v

/-! ## Cells -/

namespace Video

variable (v : Video) (i : Nat)

/-- The second of two contents of a page stays. -/
theorem setPage_setPage (f : FrameRef) (p q : Page) :
    (v.setPage f p).setPage f q = v.setPage f q := by
  cases f with
  | screen => rfl
  | backing t => exact congrArg (fun b => { v with backing := b }) (Function.update_idem _ _ _)

theorem setPage_self (f : FrameRef) : v.setPage f (v.page f) = v := by
  cases f with
  | screen => rfl
  | backing t => exact congrArg (fun b => { v with backing := b }) (Function.update_eq_self _ _)

theorem target_putCell (j : Int) (c : Cell) : (v.putCell j c).target = v.target := target_setPage

theorem page_putCell (j : Int) (c : Cell) :
    (v.putCell j c).page v.target = Function.update (v.page v.target) j c :=
  page_setPage_self v v.target _

theorem cell_putCell (j l : Int) (c : Cell) :
    (v.putCell j c).cell l = if l = j then c else v.cell l := by
  rw [cell, target_putCell, page_putCell, Function.update_apply]
  rfl

theorem putCell_putCell (j : Int) (c d : Cell) :
    (v.putCell j c).putCell j d = v.putCell j d := by
  have hpage := page_putCell v j c
  rw [putCell, target_putCell, hpage, Function.update_idem]
  exact setPage_setPage v _ _ _

/-- The row below is loaded before it is stored. -/
theorem scrolledCell_putCell (c : Cell) :
    (v.putCell i c).scrolledCell i = v.scrolledCell i := by
  have hcols : numCols = 80 := rfl
  have hbelow : (v.putCell i c).cell (i + numCols) = v.cell (i + numCols) := by
    rw [cell_putCell, if_neg (by omega)]
  rw [scrolledCell, hbelow, scrolledCell]

theorem scrollFrom_zero : v.scrollFrom 0 = v.scroll := by
  have hpage : scrolledPage (v.page v.target) 0 = fun j =>
      if 0 ≤ j ∧ j < numRows * numCols - numCols then v.page v.target (j + numCols)
      else if numRows * numCols - numCols ≤ j ∧ j < numRows * numCols then blankCell
      else v.page v.target j := by
    have hrows : numRows = 25 := rfl
    have hcols : numCols = 80 := rfl
    funext j
    simp only [scrolledPage, hrows, hcols]
    grind
  rw [scrollFrom, hpage]
  rfl

/-- One cell of `scroll`, and the rest. -/
theorem scrollFrom_of_lt (hi : (i : Int) < numRows * numCols) :
    v.scrollFrom i = (v.putCell i (v.scrolledCell i)).scrollFrom (i + 1) := by
  have hpage : scrolledPage (v.page v.target) i =
      scrolledPage (Function.update (v.page v.target) i (v.scrolledCell i)) (i + 1) := by
    have hrows : numRows = 25 := rfl
    have hcols : numCols = 80 := rfl
    funext j
    simp only [scrolledPage, scrolledCell, cell, hrows, hcols, Function.update_apply] at hi ⊢
    grind
  rw [scrollFrom, scrollFrom, target_putCell, page_putCell, hpage, putCell, setPage_setPage]

theorem scrollFrom_of_le (hi : ¬ (i : Int) < numRows * numCols) :
    v.scrollFrom i = { v with screenX := 0 } := by
  have hpage : scrolledPage (v.page v.target) i = v.page v.target := by
    have hcols : numCols = 80 := rfl
    funext j
    rw [scrolledPage, if_neg (by omega), if_neg (by omega)]
  rw [scrollFrom, hpage, setPage_self]

end Video

/-! ## Statements -/

section Statements

@[simp] theorem Video.finish_nil (v : Video) : v.finish [] = v := rfl

@[simp] theorem Video.finish_cons (v : Video) (st : OutputStatement)
    (rest : List OutputStatement) : v.finish (st :: rest) = (st.complete v).finish rest := rfl

theorem Video.finish_append (v : Video) (front back : List OutputStatement) :
    v.finish (front ++ back) = (v.finish front).finish back := List.foldl_append

/-- A round that calls `next_line` is followed by the rest of the text. -/
theorem Video.finish_outputRounds (v : Video) (text : List UInt8) :
    (v.outputRounds text).1.finish (v.outputRounds text).2 = text.foldl writeChar v := by
  induction text generalizing v with
  | nil => rfl
  | cons c text ih =>
      rw [outputRounds, List.foldl_cons, writeChar]
      by_cases hnewline : c = 10
      · subst hnewline
        simp only [or_true, if_true]
        rfl
      · simp only [hnewline, or_false]
        split
        · -- the last column: the rest of the text comes behind `next_line`
          rfl
        · exact ih (v.putc c)

/-- A statement and those that it leads to. -/
theorem OutputStatement.finish_execVideo (v : Video) (st : OutputStatement) :
    (st.execVideo v).1.finish (st.execVideo v).2 = st.complete v := by
  cases st with
  | chars text => exact v.finish_outputRounds text
  | nextLine =>
      simp only [execVideo, complete, Video.nextLine]
      split
      · exact v.scrollFrom_zero
      · rfl
  | scroll i =>
      simp only [execVideo, complete]
      split
      next hi =>
        rw [v.scrollFrom_of_lt i hi]
        simp only [Video.finish_cons, Video.finish_nil, complete]
      next hi =>
        rw [v.scrollFrom_of_le i hi]
        rfl
  | storeChar i c =>
      -- the attribute is loaded from the row below, which the store of the character leaves
      have hcell : ((v.putCell i (c, (v.cell i).2)).cell i).1 = c := by
        rw [Video.cell_putCell, if_pos rfl]
      simp only [execVideo, Video.finish_cons, Video.finish_nil, complete, hcell,
        Video.scrolledCell_putCell, Video.putCell_putCell]
  | loadAttrib i => rfl
  | storeAttrib i a => rfl
  | column => rfl
  | row => rfl
  | storeRow y => rfl

/-- What a call has left to do leads to the same output at each of its statements. -/
theorem OutputStatement.finish_exec (k : Kernel) (st : OutputStatement)
    (rest : List OutputStatement) :
    (st.exec k).1.video.finish ((st.exec k).2 ++ rest) = k.video.finish (st :: rest) := by
  rw [Video.finish_append, Video.finish_cons, ← st.finish_execVideo k.video]
  rfl

/-- Without an interrupt, the statements of a call write what `terminal_write` writes. -/
theorem terminalWrite_eq_finish {k : Kernel} {text : List UInt8} (h : text ≠ []) :
    (terminalWrite k text).2.video = k.video.finish [.chars text] := by
  have hlength : ¬ text.length < 1 := by
    have hpos := List.length_pos_iff.mpr h
    omega
  rw [terminalWrite, if_neg hlength]
  rfl

end Statements

/-! ## What the statements touch -/

namespace Video

theorem Output.outputRounds (v : Video) (text : List UInt8) :
    Output v (v.outputRounds text).1 := by
  induction text generalizing v with
  | nil => exact refl v
  | cons c text ih =>
      have hround : Output v (if c = 10 then v else v.putc c) := by
        split
        · exact refl v
        · exact putc v c
      rw [Video.outputRounds]
      split
      · exact hround
      · exact hround.trans (ih _)

/-- A statement writes to the page that `video_mem` leads to and to the cursor. -/
theorem Output.execVideo (v : Video) (st : OutputStatement) : Output v (st.execVideo v).1 := by
  cases st with
  | chars text => exact outputRounds v text
  | nextLine | scroll | loadAttrib | row => exact refl v
  | storeChar i c => exact putCell v _ _
  | storeAttrib i a => exact putCell v _ _
  | column => exact (refl v).cursor 0 _
  | storeRow y => exact (refl v).cursor _ y

variable {v w : Video}

theorem view_scrollFrom (v : Video) (i : Nat) :
    (v.scrollFrom i).view = ⟨scrolledPage v.view.page i, 0, v.view.y⟩ := by
  have hcursor := view_cursor (v.setPage v.target (scrolledPage (v.page v.target) i)) 0
    (v.setPage v.target (scrolledPage (v.page v.target) i)).screenY
  have hrow : (v.setPage v.target (scrolledPage (v.page v.target) i)).screenY = v.screenY :=
    screenY_setPage
  rw [view_setPage, hrow] at hcursor
  rw [scrollFrom, hrow]
  exact hcursor

theorem view_scrollFrom_congr (i : Nat) (h : v.view = w.view) :
    (v.scrollFrom i).view = (w.scrollFrom i).view := by
  rw [view_scrollFrom, view_scrollFrom, h]

theorem view_putCell_congr (i : Int) (c : Cell) (h : v.view = w.view) :
    (v.putCell i c).view = (w.putCell i c).view := by
  rw [view_putCell, view_putCell, h]

/-- The cursor is set over one page. -/
theorem view_cursor_congr (h : v.view.page = w.view.page) {x x' y y' : Int} (hx : x = x')
    (hy : y = y') :
    { v with screenX := x, screenY := y }.view = { w with screenX := x', screenY := y' }.view := by
  rw [view_cursor v, view_cursor w, h, hx, hy]

/-- What a statement leads to depends on the view. -/
theorem view_complete_congr (st : OutputStatement) (h : v.view = w.view) :
    (st.complete v).view = (st.complete w).view := by
  have hcell : v.cell = w.cell := congrArg View.page h
  have hscrolled : v.scrolledCell = w.scrolledCell := by
    funext i
    rw [scrolledCell, scrolledCell, hcell]
  have hpage : v.view.page = w.view.page := congrArg View.page h
  have hx : v.screenX = w.screenX := congrArg View.x h
  have hy : v.screenY = w.screenY := congrArg View.y h
  cases st with
  | chars text => exact view_write_congr text h
  | nextLine => exact view_nextLine_congr h
  | scroll i => exact view_scrollFrom_congr i h
  | storeChar i c =>
      rw [OutputStatement.complete, OutputStatement.complete, hscrolled]
      exact view_scrollFrom_congr _ (view_putCell_congr _ _ h)
  | loadAttrib i =>
      rw [OutputStatement.complete, OutputStatement.complete, hscrolled, hcell]
      exact view_scrollFrom_congr _ (view_putCell_congr _ _ h)
  | storeAttrib i a =>
      rw [OutputStatement.complete, OutputStatement.complete, hcell]
      exact view_scrollFrom_congr _ (view_putCell_congr _ _ h)
  | column => exact view_cursor_congr hpage rfl hy
  | row => exact view_cursor_congr hpage hx (congrArg (· + 1) hy)
  | storeRow y => exact view_cursor_congr hpage hx rfl

/-- The view after the rest of a call depends on the view before it. -/
theorem view_finish_congr (output : List OutputStatement) (h : v.view = w.view) :
    (v.finish output).view = (w.finish output).view := by
  induction output generalizing v w with
  | nil => exact h
  | cons st rest ih => exact ih (view_complete_congr st h)

end Video

/-! ## The cursor -/

/-- The cursor behind the rounds up to the first that calls `next_line`. -/
def roundsCursor : Int × Int → List UInt8 → Int × Int
  | p, [] => p
  | p, c :: text =>
      if c = 10 then p
      else if p.1 = numCols - 1 then putCursor p c
      else roundsCursor (putCursor p c) text

/-- No carriage return is written in the last row in these rounds. -/
def RoundsInRows : Int × Int → List UInt8 → Prop
  | _, [] => True
  | p, c :: text =>
      (c = 13 → p.2 < numRows - 1) ∧
        (c = 10 ∨ p.1 = numCols - 1 ∨ RoundsInRows (putCursor p c) text)

instance RoundsInRows.decidable : (p : Int × Int) → (text : List UInt8) →
    Decidable (RoundsInRows p text)
  | _, [] => isTrue trivial
  | p, c :: text =>
      have := RoundsInRows.decidable (putCursor p c) text
      inferInstanceAs (Decidable (_ ∧ _))

namespace OutputStatement

/-- The cursor behind a statement. -/
def cursorAfter (p : Int × Int) : OutputStatement → Int × Int
  | .chars text => roundsCursor p text
  | .column => (0, p.2)
  | .storeRow y => (p.1, y)
  | _ => p

/-- The statement leaves the 25 rows to no character and to no cursor. -/
def InRows (p : Int × Int) : OutputStatement → Prop
  | .chars text => RoundsInRows p text
  | .storeRow y => 0 ≤ y ∧ y < numRows
  | _ => True

instance (p : Int × Int) (st : OutputStatement) : Decidable (st.InRows p) := by
  cases st <;> unfold InRows <;> infer_instance

end OutputStatement

theorem Video.cursor_outputRounds (v : Video) (text : List UInt8) :
    (v.outputRounds text).1.cursor = roundsCursor v.cursor text := by
  induction text generalizing v with
  | nil => rfl
  | cons c text ih =>
      have hx : v.cursor.1 = v.screenX := rfl
      rw [outputRounds, roundsCursor, hx]
      by_cases hnewline : c = 10
      · simp only [hnewline, or_true, if_true]
      · simp only [hnewline, or_false, if_false]
        split
        · exact v.cursor_putc c
        · rw [ih, cursor_putc]

theorem Video.cursor_putCell (v : Video) (i : Int) (c : Cell) :
    (v.putCell i c).cursor = v.cursor := by
  rw [putCell, cursor, screenX_setPage, screenY_setPage]
  rfl

theorem OutputStatement.cursor_execVideo (v : Video) (st : OutputStatement) :
    (st.execVideo v).1.cursor = st.cursorAfter v.cursor := by
  cases st with
  | chars text => exact v.cursor_outputRounds text
  | storeChar i c => exact v.cursor_putCell _ _
  | storeAttrib i a => exact v.cursor_putCell _ _
  | nextLine | scroll | loadAttrib | column | row | storeRow => rfl

theorem OnScreen.roundsCursor {p : Int × Int} (h : OnScreen p) {text : List UInt8}
    (hrows : RoundsInRows p text) : OnScreen (roundsCursor p text) := by
  induction text generalizing p with
  | nil => exact h
  | cons c text ih =>
      obtain ⟨hreturn, hrest⟩ := hrows
      rw [Ece391Os.roundsCursor]
      split
      · exact h
      next hnewline =>
        have hput := h.putCursor hnewline hreturn
        split
        · exact hput
        next hlast => exact ih hput ((hrest.resolve_left hnewline).resolve_left hlast)

/-- The cursor stays on the screen. -/
theorem OnScreen.cursorAfter {p : Int × Int} (h : OnScreen p) {st : OutputStatement}
    (hrows : st.InRows p) : OnScreen (st.cursorAfter p) := by
  cases st with
  | chars text => exact h.roundsCursor hrows
  | column => exact onScreen_row h.y_nonneg h.y_lt
  | storeRow y => exact ⟨h.x_nonneg, h.x_lt, hrows.1, hrows.2⟩
  | nextLine | scroll | storeChar | loadAttrib | storeAttrib | row => exact h

end Ece391Os
