import Ece391Os.Model.State

/-!
# Text output

The text routines of `lib.c` (`clear`, `scroll`, `backspace`, `next_line`, `putc`) and
the output side of `terminal.c` (`terminal_write`, `terminal_clear` and the two cursor
moves). They write to the page that `video_mem` points to, `VIDMAP` being resolved
through the page-table entry kept by the timer.

The hardware cursor, which `cursor_update` programs from the same two coordinates, is
not part of the state.
-/

set_option autoImplicit false

namespace Ece391Os

/-- `ATTRIB`. -/
def attrib : UInt8 := 0x7

/-- A cleared cell. -/
def blankCell : Cell := (32, attrib)

namespace Video

/-- The page that a store through `video_mem` reaches. -/
def target (v : Video) : FrameRef :=
  match v.videoMem with
  | .video => .screen
  | .vidmap => v.vidEntry
  | .backing t => .backing t

/-- The content of a physical page. -/
def page (v : Video) : FrameRef → Page
  | .screen => v.screen
  | .backing t => v.backing t

/-- Replace the content of a physical page. -/
def setPage (v : Video) (f : FrameRef) (p : Page) : Video :=
  match f with
  | .screen => { v with screen := p }
  | .backing t => { v with backing := Function.update v.backing t p }

/-- Store one cell through `video_mem`. -/
def putCell (v : Video) (i : Int) (c : Cell) : Video :=
  v.setPage v.target (Function.update (v.page v.target) i c)

/-- `clear`. -/
def clear (v : Video) : Video :=
  v.setPage v.target fun i =>
    if 0 ≤ i ∧ i < numRows * numCols then blankCell else v.page v.target i

/-- `scroll`. -/
def scroll (v : Video) : Video :=
  let old := v.page v.target
  let v := v.setPage v.target fun i =>
    if 0 ≤ i ∧ i < numRows * numCols - numCols then old (i + numCols)
    else if numRows * numCols - numCols ≤ i ∧ i < numRows * numCols then blankCell
    else old i
  { v with screenX := 0 }

/-- `backspace`. -/
def backspace (v : Video) : Video :=
  if v.screenX = 0 ∧ v.screenY = 0 then v
  else
    let w := v.putCell (v.screenY * numCols + v.screenX - 1) blankCell
    if v.screenX ≠ 0 then { w with screenX := v.screenX - 1 }
    else { w with screenY := v.screenY - 1, screenX := numCols - 1 }

/-- `next_line`. -/
def nextLine (v : Video) : Video :=
  if v.screenY ≥ numRows - 1 then v.scroll
  else { v with screenX := 0, screenY := v.screenY + 1 }

/-- `putc`. The remainders are those of C. -/
def putc (v : Video) (c : UInt8) : Video :=
  if c = 10 ∨ c = 13 then { v with screenY := v.screenY + 1, screenX := 0 }
  else
    let w := v.putCell (numCols * v.screenY + v.screenX) (c, attrib)
    let x := (v.screenX + 1).tmod numCols
    { w with screenX := x, screenY := (v.screenY + x.tdiv numCols).tmod numRows }

/-- One round of the loop of `terminal_write`. -/
def writeChar (v : Video) (c : UInt8) : Video :=
  let callNextLine := v.screenX = numCols - 1
  if c = 10 then v.nextLine
  else if callNextLine then (v.putc c).nextLine
  else v.putc c

/-- `terminal_clear`. -/
def terminalClear (v : Video) : Video := { v.clear with screenX := 0, screenY := 0 }

/-- `cursor_update_left`. -/
def cursorLeft (v : Video) (amount : Int) : Video := { v with screenX := v.screenX - amount }

/-- `cursor_update_right`. -/
def cursorRight (v : Video) (amount : Int) : Video := { v with screenX := v.screenX + amount }

/-- `reset_terminal_keyboard_input`: to the end of the line, then one backspace for each
of its characters. -/
def resetInput (v : Video) (index size : Nat) : Video :=
  Nat.iterate backspace size (v.cursorRight (size - index))

end Video

/-- `terminal_write` of the bytes of `buf`. It clears `key_flag` at the first character
that is not a newline, and it returns with interrupts enabled unless it rejects the
length. -/
def terminalWrite (k : Kernel) (buf : List UInt8) : Int × Kernel :=
  if buf.length < 1 then (-1, k)
  else
    (buf.length,
      { k with
        video := buf.foldl Video.writeChar k.video
        kbd := { k.kbd with keyFlag := k.kbd.keyFlag && buf.all (· == 10) }
        interrupts := true })

end Ece391Os
