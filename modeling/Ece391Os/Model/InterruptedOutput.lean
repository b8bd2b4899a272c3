import Ece391Os.Model.Screen

/-!
# Interrupted output

`terminal_write` cut where it can be interrupted. It disables interrupts, and around each call of
`next_line` it enables them. In such a window `next_line` and `scroll` read and write the cursor and
the page that `video_mem` leads to, one access after another.
-/

set_option autoImplicit false

namespace Ece391Os

/-! ## Statements -/

/-- What a call of `terminal_write` has left to do. -/
inductive OutputStatement where
  /-- The loop from these characters on. -/
  | chars (text : List UInt8)
  /-- The comparison in `next_line`. -/
  | nextLine
  /-- The loops of `scroll` at `i`: the character is loaded. -/
  | scroll (i : Nat)
  | storeChar (i : Nat) (c : UInt8)
  | loadAttrib (i : Nat)
  | storeAttrib (i : Nat) (a : UInt8)
  /-- `screen_x = 0`. -/
  | column
  /-- `screen_y` is loaded and incremented. -/
  | row
  | storeRow (y : Int)
  deriving DecidableEq, Repr

namespace Video

/-- The cell behind the pointer. -/
def cell (v : Video) (i : Int) : Cell := v.page v.target i

/-- What `scroll` stores in cell `i`. -/
def scrolledCell (v : Video) (i : Nat) : Cell :=
  if (i : Int) < numRows * numCols - numCols then v.cell (i + numCols) else blankCell

/-- The rounds of `terminal_write` up to the first that calls `next_line`. -/
def outputRounds (v : Video) : List UInt8 → Video × List OutputStatement
  | [] => (v, [])
  | c :: text =>
      let callNextLine := v.screenX = numCols - 1 ∨ c = 10
      let v := if c = 10 then v else v.putc c
      if callNextLine then (v, [.nextLine, .chars text]) else v.outputRounds text

end Video

/-- One statement, and the statements that it leads to. -/
def OutputStatement.execVideo (v : Video) : OutputStatement → Video × List OutputStatement
  | .chars text => v.outputRounds text
  | .nextLine => (v, if v.screenY ≥ numRows - 1 then [.scroll 0] else [.column, .row])
  | .scroll i =>
      (v, if (i : Int) < numRows * numCols then [.storeChar i (v.scrolledCell i).1] else [.column])
  | .storeChar i c => (v.putCell i (c, (v.cell i).2), [.loadAttrib i])
  | .loadAttrib i => (v, [.storeAttrib i (v.scrolledCell i).2])
  | .storeAttrib i a => (v.putCell i ((v.cell i).1, a), [.scroll (i + 1)])
  | .column => ({ v with screenX := 0 }, [])
  | .row => (v, [.storeRow (v.screenY + 1)])
  | .storeRow y => ({ v with screenY := y }, [])

/-- The character with which a statement begins is no newline, so that `key_flag` is cleared. -/
def OutputStatement.clearsFlag : OutputStatement → Bool
  | .chars (c :: _) => c != 10
  | _ => false

/-- One statement. Behind it interrupts are enabled: in the window of `next_line`, or at the end of
the call. -/
def OutputStatement.exec (k : Kernel) (st : OutputStatement) : Kernel × List OutputStatement :=
  let r := st.execVideo k.video
  ({ k with
      video := r.1
      kbd := { k.kbd with keyFlag := k.kbd.keyFlag && !st.clearsFlag }
      interrupts := true }, r.2)

end Ece391Os
