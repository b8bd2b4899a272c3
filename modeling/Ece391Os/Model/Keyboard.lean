import Ece391Os.Model.Screen

/-!
# Keyboard driver

`keyboard.c` and `terminal_return` of `terminal.c`. The line that is edited in a terminal is
a 128-byte row with two counters. Every access to a row goes through `rowGet` or `rowSet`,
which fail outside the row; a function that fails has left the row it works on.
-/

set_option autoImplicit false

namespace Ece391Os

/-! ## Clearing -/

/-- `clear_keyboard_buffer`, which clears the line of the displayed terminal. -/
def clearKeyboardBuffer (k : Kernel) : Kernel :=
  let t := k.terms.currentTerminal
  { k with kbd := { k.kbd with
      buffer := Function.update k.kbd.buffer t fun i =>
        if i < maxBufferSize then 0 else k.kbd.buffer t i
      bufferIDX := Function.update k.kbd.bufferIDX t 0
      bufferSIZE := Function.update k.kbd.bufferSIZE t 0 } }

/-- `clear_history_buffer`. -/
def clearHistoryBuffer (k : Kernel) (pid : Pid) : Kernel :=
  { k with kbd := { k.kbd with
      history := Function.update k.kbd.history pid fun j i =>
        if 0 ≤ j ∧ j < numHistoryBuffers ∧ i < maxBufferSize then 0 else k.kbd.history pid j i
      historyIDX := Function.update k.kbd.historyIDX pid 0
      historyBASE := Function.update k.kbd.historyBASE pid 0
      historySIZE := Function.update k.kbd.historySIZE pid 0 } }

/-! ## Rows -/

/-- A load from a row. -/
def rowGet (row : Row) (i : Nat) : Option UInt8 := if i < maxBufferSize then some (row i) else none

/-- A store into a row. -/
def rowSet (row : Row) (i : Nat) (c : UInt8) : Option Row :=
  if i < maxBufferSize then some (Function.update row i c) else none

/-- The `n` bytes of a row from index `i` on. -/
def rowSlice (row : Row) (i n : Nat) : Option (List UInt8) :=
  if i + n ≤ maxBufferSize then some ((List.range n).map fun j => row (i + j)) else none

/-- The row `history[pid][j]`. -/
def historyRow (k : Kernel) (pid : Pid) (j : Int) : Option Row :=
  if 0 ≤ j ∧ j < numHistoryBuffers then some (k.kbd.history pid j) else none

/-- Assignment to the line of terminal `t` and its counters. -/
def Kernel.setLine (k : Kernel) (t : Terminal) (row : Row) (idx size : Nat) : Kernel :=
  { k with kbd := { k.kbd with
      buffer := Function.update k.kbd.buffer t row
      bufferIDX := Function.update k.kbd.bufferIDX t idx
      bufferSIZE := Function.update k.kbd.bufferSIZE t size } }

/-! ## Editing -/

/-- The loop of `keyboard_insert`, with `i = n - 1`: it moves the bytes from index `idx` on to the
right. -/
def insertLoop (idx : Nat) : Nat → Row → Option Row
  | 0, row => some row
  | i + 1, row =>
      if i < idx then some row
      else do
        let move ← rowGet row i
        let row ← rowSet row (i + 1) move
        insertLoop idx i row

/-- `keyboard_insert`. -/
def keyboardInsert (k : Kernel) (c : UInt8) : Option Kernel := do
  let t := k.terms.currentTerminal
  let idx := k.kbd.bufferIDX t
  let size := k.kbd.bufferSIZE t
  let row ← insertLoop idx (size + 1) (k.kbd.buffer t)
  let row ← rowSet row idx c
  -- the characters from the new one on are written again, and the cursor goes back behind it
  let numChars := size + 1 - idx
  let text ← rowSlice row idx numChars
  let k := { k with kbd := { k.kbd with keyFlag := true } }
  let k := (terminalWrite k text).2
  let k := { k with
    kbd := { k.kbd with keyFlag := false }
    video := k.video.cursorLeft (numChars - 1) }
  -- the counters are bytes
  return k.setLine t row ((idx + 1) % 256) ((size + 1) % 256)

/-- A call of `keyboard_insert` whose accesses stay in the row: the row that it makes, the text that
it writes again, and the kernel after it. -/
theorem keyboardInsert_eq_some {k k' : Kernel} {c : UInt8} (h : keyboardInsert k c = some k') :
    let t := k.terms.currentTerminal
    let idx := k.kbd.bufferIDX t
    let size := k.kbd.bufferSIZE t
    ∃ (moved row : Row) (text : List UInt8),
      insertLoop idx (size + 1) (k.kbd.buffer t) = some moved ∧ rowSet moved idx c = some row ∧
        rowSlice row idx (size + 1 - idx) = some text ∧
        let k₁ := (terminalWrite { k with kbd := { k.kbd with keyFlag := true } } text).2
        k' = Kernel.setLine { k₁ with
          kbd := { k₁.kbd with keyFlag := false }
          video := k₁.video.cursorLeft (((size + 1 - idx : Nat) : Int) - 1) }
            t row ((idx + 1) % 256) ((size + 1) % 256) := by
  simp only [keyboardInsert, Option.bind_eq_bind, Option.pure_def] at h
  obtain ⟨moved, hloop, h⟩ := Option.bind_eq_some_iff.mp h
  obtain ⟨row, hset, h⟩ := Option.bind_eq_some_iff.mp h
  obtain ⟨text, hslice, h⟩ := Option.bind_eq_some_iff.mp h
  exact ⟨moved, row, text, hloop, hset, hslice, (Option.some.inj h).symm⟩

/-- The loop of `keyboard_backspace`, with `n` rounds left: it moves the bytes behind index `i` to
the left. -/
def backspaceLoop : Nat → Nat → Row → Option Row
  | 0, _, row => some row
  | n + 1, i, row => do
      let move ← rowGet row (i + 1)
      let row ← rowSet row i move
      backspaceLoop n (i + 1) row

/-- `keyboard_backspace`, which is called with a cursor behind the first column. -/
def keyboardBackspace (k : Kernel) : Option Kernel := do
  let t := k.terms.currentTerminal
  let idx := k.kbd.bufferIDX t
  let size := k.kbd.bufferSIZE t
  let row ← backspaceLoop (size - (idx - 1)) (idx - 1) (k.kbd.buffer t)
  -- the byte at the old end has moved as well, and a `NUL` takes its place
  let row ← rowSet row size 0
  let numChars := size + 1 - idx
  -- one character more than are left: the last column is erased by the byte that moved into it
  let text ← rowSlice row (idx - 1) numChars
  let k := { k with video := k.video.backspace }
  let k := (terminalWrite k text).2
  let k := { k with video := k.video.cursorLeft numChars }
  return k.setLine t row (idx - 1) (size - 1)

/-- The same for `keyboard_backspace`. -/
theorem keyboardBackspace_eq_some {k k' : Kernel} (h : keyboardBackspace k = some k') :
    let t := k.terms.currentTerminal
    let idx := k.kbd.bufferIDX t
    let size := k.kbd.bufferSIZE t
    ∃ (moved row : Row) (text : List UInt8),
      backspaceLoop (size - (idx - 1)) (idx - 1) (k.kbd.buffer t) = some moved ∧
        rowSet moved size 0 = some row ∧
        rowSlice row (idx - 1) (size + 1 - idx) = some text ∧
        let k₁ := (terminalWrite { k with video := k.video.backspace } text).2
        k' = Kernel.setLine { k₁ with
          video := k₁.video.cursorLeft ((size + 1 - idx : Nat) : Int) }
            t row (idx - 1) (size - 1) := by
  simp only [keyboardBackspace, Option.bind_eq_bind, Option.pure_def] at h
  obtain ⟨moved, hloop, h⟩ := Option.bind_eq_some_iff.mp h
  obtain ⟨row, hset, h⟩ := Option.bind_eq_some_iff.mp h
  obtain ⟨text, hslice, h⟩ := Option.bind_eq_some_iff.mp h
  exact ⟨moved, row, text, hloop, hset, hslice, (Option.some.inj h).symm⟩

/-- `keyboard_left_arrow`. -/
def keyboardLeftArrow (k : Kernel) : Kernel :=
  let t := k.terms.currentTerminal
  if k.kbd.bufferIDX t = 0 then k
  else
    { k with
      kbd := { k.kbd with
        bufferIDX := Function.update k.kbd.bufferIDX t (k.kbd.bufferIDX t - 1) }
      video := k.video.cursorLeft 1 }

/-- `keyboard_right_arrow`. -/
def keyboardRightArrow (k : Kernel) : Kernel :=
  let t := k.terms.currentTerminal
  if k.kbd.bufferIDX t = k.kbd.bufferSIZE t then k
  else
    { k with
      kbd := { k.kbd with
        bufferIDX := Function.update k.kbd.bufferIDX t ((k.kbd.bufferIDX t + 1) % 256) }
      video := k.video.cursorRight 1 }

/-! ## History -/

/-- `displayed_pid`. -/
def Kernel.displayedPid (k : Kernel) : Pid := k.topPid k.terms.currentTerminal

/-- A byte as `copy_to_history` copies it. -/
def historyByte (c : UInt8) : UInt8 := if c = 10 ∨ c = 0 then 0 else c

/-- `copy_to_history`. -/
def copyToHistory (k : Kernel) : Option Kernel := do
  let pid := k.displayedPid
  let base := k.kbd.historyBASE pid
  let old ← historyRow k pid base
  let line := k.kbd.buffer k.terms.currentTerminal
  let row : Row := fun i => if i < maxBufferSize then historyByte (line i) else old i
  return { k with kbd := { k.kbd with
    history := Function.update k.kbd.history pid
      (Function.update (k.kbd.history pid) base row) } }

/-- `increment_history_indices`. -/
def incrementHistoryIndices (k : Kernel) : Kernel :=
  let pid := k.displayedPid
  let base := (k.kbd.historyBASE pid + 1).tmod numHistoryBuffers
  let size := k.kbd.historySIZE pid
  { k with kbd := { k.kbd with
      historyBASE := Function.update k.kbd.historyBASE pid base
      historyIDX := Function.update k.kbd.historyIDX pid base
      historySIZE := Function.update k.kbd.historySIZE pid
        -- the oldest line is overwritten once all of the rows are in use
        (if size < numHistoryBuffers then size + 1 else size) } }

/-- The loop with which `up_history` and `down_history` copy a history line into the cleared line,
with `n` rounds left. The index it ends at is the value of both counters. -/
def recallLoop (line : Row) : Nat → Nat → Row → Option (Row × Nat)
  | 0, i, row => some (row, i)
  | n + 1, i, row => do
      let c ← rowGet line i
      if c = 0 ∨ c = 10 then return (row, i)
      else
        let row ← rowSet row i c
        recallLoop line n (i + 1) row

/-- The common end of `up_history` and `down_history`: the line is replaced by the history line
`i`. -/
def recallHistory (k : Kernel) (i : Int) : Option Kernel := do
  let t := k.terms.currentTerminal
  let pid := k.displayedPid
  let k := { k with
    kbd := { k.kbd with historyIDX := Function.update k.kbd.historyIDX pid i }
    video := k.video.resetInput (k.kbd.bufferIDX t) (k.kbd.bufferSIZE t) }
  let k := clearKeyboardBuffer k
  let line ← historyRow k pid i
  let (row, n) ← recallLoop line maxBufferSize 0 (k.kbd.buffer t)
  let k := k.setLine t row (n % 256) (n % 256)
  -- what is displayed is the line that the counters now describe
  let text ← rowSlice row 0 (n % 256)
  return (terminalWrite k text).2

/-- `up_history`. -/
def upHistory (k : Kernel) : Option Kernel := do
  let pid := k.displayedPid
  let idx := k.kbd.historyIDX pid
  let base := k.kbd.historyBASE pid
  if k.kbd.historySIZE pid < numHistoryBuffers ∧ idx = 0 then return k
  else
    -- the line in progress is kept in the row of the base, which `down_history` comes back to
    let k ← if idx = base then copyToHistory k else some k
    let i := if idx - 1 < 0 then numHistoryBuffers - 1 else idx - 1
    if i = base then return k
    else recallHistory k i

/-- `down_history`. -/
def downHistory (k : Kernel) : Option Kernel :=
  let pid := k.displayedPid
  let idx := k.kbd.historyIDX pid
  let base := k.kbd.historyBASE pid
  if k.kbd.historySIZE pid < numHistoryBuffers ∧ idx = base then some k
  -- the second test of the source, for a full history
  else if idx = base then some k
  else recallHistory k ((idx + 1).tmod numHistoryBuffers)

/-! ## Enter -/

/-- The loop of `keyboard_read`, at index `i` with `n = nbytes - i` rounds left: the number of
bytes in front of the terminator and the row that it fills. -/
def keyboardReadLoop (line : Row) : Nat → Nat → Row → Option (Nat × Row)
  | 0, i, output => some (i, output)
  | n + 1, i, output => do
      let c ← rowGet line i
      let output ← rowSet output i c
      if c = 10 ∨ c = 0 then return (i, output)
      else if i + 1 = maxBufferSize then
        -- `i` has been counted up: this store lies behind the last byte of the row
        let output ← rowSet output (i + 1) 10
        return (i + 1, output)
      else keyboardReadLoop line n (i + 1) output

/-- `keyboard_read` into the row `output`. -/
def keyboardRead (k : Kernel) (output : Row) (nbytes : Int) : Option (Int × Row) :=
  if nbytes < 1 then some (-1, output)
  else
    (keyboardReadLoop (k.kbd.buffer k.terms.currentTerminal) nbytes.toNat 0 output).map
      fun r => (r.1, r.2)

/-- `terminal_return`. -/
def terminalReturn (k : Kernel) : Option Kernel :=
  let t := k.terms.currentTerminal
  match k.terms.returnSwitch t with
  | .on => do
      let r ← keyboardRead k (k.terms.readBuffer t) maxBufferSize
      return { k with terms := { k.terms with
        readBuffer := Function.update k.terms.readBuffer t r.2
        returnSwitch := Function.update k.terms.returnSwitch t .off } }
  | .off => some { k with video := k.video.nextLine }
  | .hold => some k

/-- The branch of the Enter key. -/
def keyboardEnter (k : Kernel) : Option Kernel := do
  let t := k.terms.currentTerminal
  let k ← if k.kbd.buffer t 0 ≠ 0 then (copyToHistory k).map incrementHistoryIndices else some k
  -- the newline is stored behind the characters and is not counted in `bufferSIZE`
  let row ← rowSet (k.kbd.buffer t) (k.kbd.bufferSIZE t) 10
  let k ← terminalReturn (k.setLine t row (k.kbd.bufferIDX t) (k.kbd.bufferSIZE t))
  return clearKeyboardBuffer k

/-! ## Scancodes -/

/-- The entries of the tables `scancode`, `CAPScode` and `altcode`; the rest of the 256 is `0`. Each
has 90 entries for the keys and then, from index `SHIFT` on, 90 for the keys with shift. -/
def scancode : List UInt8 :=
  [0, 0, 49, 50, 51, 52, 53, 54, 55, 56, 57, 48, 45, 61, 8, 0, 113, 119, 101, 114,
    116, 121, 117, 105, 111, 112, 91, 93, 10, 99, 97, 115, 100, 102, 103, 104, 106, 107, 108, 59,
    39, 96, 0, 92, 122, 120, 99, 118, 98, 110, 109, 44, 46, 47, 0, 42, 0, 32, 0, 0,
    0, 0, 0, 0, 0, 0, 0, 0, 0, 0, 0, 0, 0, 0, 45, 0, 0, 0, 43, 0,
    0, 0, 0, 0, 0, 0, 60, 0, 0, 0, 0, 0, 33, 64, 35, 36, 37, 94, 38, 42,
    40, 41, 95, 43, 8, 0, 81, 87, 69, 82, 84, 89, 85, 73, 79, 80, 123, 125, 10, 0,
    65, 83, 68, 70, 71, 72, 74, 75, 76, 58, 34, 126, 0, 124, 90, 88, 67, 86, 66, 78,
    77, 60, 62, 63, 0, 42, 0, 32, 0, 0, 0, 0, 0, 0, 0, 0, 0, 0, 0, 0,
    0, 0, 0, 0, 45, 0, 0, 0, 43, 0, 0, 0, 0, 0, 0, 0, 62, 0, 0, 0]

def capsCode : List UInt8 :=
  [0, 0, 49, 50, 51, 52, 53, 54, 55, 56, 57, 48, 45, 61, 8, 0, 81, 87, 69, 82,
    84, 89, 85, 73, 79, 80, 91, 93, 10, 67, 65, 83, 68, 70, 71, 72, 74, 75, 76, 59,
    39, 96, 0, 92, 90, 88, 67, 86, 66, 78, 77, 44, 46, 47, 0, 42, 0, 32, 0, 0,
    0, 0, 0, 0, 0, 0, 0, 0, 0, 0, 0, 0, 0, 0, 45, 0, 0, 0, 43, 0,
    0, 0, 0, 0, 0, 0, 60, 0, 0, 0, 0, 0, 33, 64, 35, 36, 37, 94, 38, 42,
    40, 41, 95, 43, 8, 0, 113, 119, 101, 114, 116, 121, 117, 105, 111, 112, 123, 125, 10, 0,
    97, 115, 100, 102, 103, 104, 106, 107, 108, 58, 34, 126, 0, 124, 122, 120, 99, 118, 98, 110,
    109, 60, 62, 63, 0, 42, 0, 32, 0, 0, 0, 0, 0, 0, 0, 0, 0, 0, 0, 0,
    0, 0, 0, 0, 45, 0, 0, 0, 43, 0, 0, 0, 0, 0, 0, 0, 62, 0, 0, 0]

def altCode : List UInt8 :=
  [0, 0, 49, 50, 51, 52, 53, 54, 55, 56, 57, 48, 45, 61, 8, 0, 81, 87, 69, 82,
    84, 89, 85, 73, 79, 80, 91, 93, 10, 67, 65, 83, 68, 70, 71, 72, 74, 75, 76, 59,
    39, 96, 0, 92, 90, 88, 67, 86, 66, 78, 77, 44, 46, 47, 0, 42, 0, 32, 0, 0,
    0, 0, 0, 0, 0, 0, 0, 0, 0, 0, 0, 0, 0, 0, 45, 0, 0, 0, 43, 0,
    0, 0, 0, 0, 0, 0, 60, 0, 0, 0, 0, 0, 33, 64, 35, 36, 37, 94, 38, 42,
    40, 41, 95, 43, 8, 0, 113, 119, 101, 114, 116, 121, 117, 105, 111, 112, 123, 125, 10, 0,
    97, 115, 100, 102, 103, 104, 106, 107, 108, 58, 34, 126, 0, 124, 122, 120, 99, 118, 98, 110,
    109, 60, 62, 63, 0, 42, 0, 32, 0, 241, 242, 243, 244, 0, 0, 0, 0, 0, 0, 0,
    0, 0, 0, 0, 45, 0, 0, 0, 43, 0, 0, 0, 0, 0, 0, 0, 62, 0, 0, 0]

/-- The scan codes of the header. -/
def capslock : Nat := 0x3A
def ctrlPress : Nat := 0x1D
def ctrlRelease : Nat := 0x9D
def altPress : Nat := 0x38
def altRelease : Nat := 0xB8
def lshiftPress : Nat := 0x36
def rshiftPress : Nat := 0x2A
def lshiftRelease : Nat := 0xB6
def rshiftRelease : Nat := 0xAA
def upArrow : Nat := 0x48
def downArrow : Nat := 0x50
def leftArrow : Nat := 0x4B
def rightArrow : Nat := 0x4D
def backspaceKey : Nat := 0x0E
def enterKey : Nat := 0x1C
def lKey : Nat := 0x26

/-- `RELEASE` and `SHIFT`. -/
def releaseBit : Nat := 0x80
def shiftOffset : Nat := 90

/-- `ALT_F1`, `ALT_F2` and `ALT_F3`. -/
def altF1 : UInt8 := 0xF1
def altF2 : UInt8 := 0xF2
def altF3 : UInt8 := 0xF3

/-- The character of a key in the current modifier state. -/
def translate (kbd : Keyboard) (key : Nat) : UInt8 :=
  if kbd.shiftDown ∧ ¬ kbd.capsLock ∧ ¬ kbd.altDown then scancode.getD (key + shiftOffset) 0
  else if ¬ kbd.shiftDown ∧ kbd.capsLock ∧ ¬ kbd.altDown then capsCode.getD key 0
  else if kbd.shiftDown ∧ kbd.capsLock ∧ ¬ kbd.altDown then capsCode.getD (key + shiftOffset) 0
  else if ¬ kbd.shiftDown ∧ ¬ kbd.capsLock ∧ kbd.altDown then altCode.getD (key + shiftOffset) 0
  -- alt together with shift or caps lock, and no modifier at all
  else scancode.getD key 0

/-- How the handling of a key ends: in the driver, or in `terminal_switch`. -/
inductive KeyOutcome where
  | done (kernel : Kernel)
  | switch (num : Terminal) (kernel : Kernel)

/-- The branch that translates a key. -/
def typeKey (k : Kernel) (key : Nat) : Option KeyOutcome :=
  -- a full line takes no key of this branch, an Alt-Fn key included
  if k.kbd.bufferSIZE k.terms.currentTerminal = maxCharacters then some (.done k)
  else
    let c := translate k.kbd key
    if c = 0 then some (.done k)
    else if c = altF1 then some (.switch 0 k)
    else if c = altF2 then some (.switch 1 k)
    else if c = altF3 then some (.switch 2 k)
    else (keyboardInsert k c).map .done

/-- `handle_keyboard_input`; `none` is an access outside a row. -/
def handleKeyboardInput (k : Kernel) (key : Nat) : Option KeyOutcome :=
  let kbd := k.kbd
  let pressed := key &&& releaseBit = 0
  -- the modifier keys: presses and releases of both shift keys toggle `shift_down`
  if key = capslock then some (.done { k with kbd := { kbd with capsLock := !kbd.capsLock } })
  else if key = ctrlPress then some (.done { k with kbd := { kbd with ctrlDown := true } })
  else if key = ctrlRelease then some (.done { k with kbd := { kbd with ctrlDown := false } })
  else if key = altPress then some (.done { k with kbd := { kbd with altDown := true } })
  else if key = altRelease then some (.done { k with kbd := { kbd with altDown := false } })
  else if key = lshiftPress ∨ key = rshiftPress ∨ key = lshiftRelease ∨ key = rshiftRelease then
    some (.done { k with kbd := { kbd with shiftDown := !kbd.shiftDown } })
  -- the keys that edit the line
  else if pressed ∧ key = upArrow then (upHistory k).map .done
  else if pressed ∧ key = downArrow then (downHistory k).map .done
  else if pressed ∧ key = leftArrow then some (.done (keyboardLeftArrow k))
  else if pressed ∧ key = rightArrow then some (.done (keyboardRightArrow k))
  else if pressed ∧ key = backspaceKey then
    if kbd.bufferIDX k.terms.currentTerminal = 0 then some (.done k)
    else (keyboardBackspace k).map .done
  else if pressed ∧ key = enterKey then (keyboardEnter k).map .done
  -- the keys of the scan code tables
  else if pressed ∧ kbd.ctrlDown = false then typeKey k key
  else if pressed ∧ kbd.ctrlDown = true ∧ key = lKey then
    let k := clearKeyboardBuffer k
    some (.done { k with video := k.video.terminalClear })
  else some (.done k)

end Ece391Os
