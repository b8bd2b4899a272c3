import Ece391Os.Library.EventRun
import Ece391Os.Model.Machine

/-!
# Nested keyboard interrupts

`handle_keyboard` for character keys and backspace, cut where the next key can interrupt it.
`terminal_write` ends with the EOI for IRQ1 and `sti`; what `keyboard_insert` and
`keyboard_backspace` do behind that call is kept as a list of statements, one for each step of
the processor at which a key may arrive. In front of the call interrupts are disabled, or IRQ1 is
still in service.
-/

set_option autoImplicit false

namespace Ece391Os

/-! ## Statements behind `terminal_write` -/

/-- What a handler has left to do: in `keyboard_insert` or `keyboard_backspace`, and then in
`handle_keyboard`, which restores `video_mem` and the interrupt flag. -/
inductive KeyStatement where
  | clearFlag
  | cursorLeft (amount : Int)
  | incrementIDX
  | incrementSIZE
  | decrementIDX
  | decrementSIZE
  | leave (videoPast : VideoPtr) (flag : Bool)
  deriving DecidableEq, Repr

/-- Assignment to `bufferIDX[current_terminal]`. -/
def Kernel.setIDX (k : Kernel) (idx : Nat) : Kernel :=
  { k with kbd := { k.kbd with
      bufferIDX := Function.update k.kbd.bufferIDX k.terms.currentTerminal idx } }

/-- Assignment to `bufferSIZE[current_terminal]`. -/
def Kernel.setSIZE (k : Kernel) (size : Nat) : Kernel :=
  { k with kbd := { k.kbd with
      bufferSIZE := Function.update k.kbd.bufferSIZE k.terms.currentTerminal size } }

/-- Assignment to the row `buffer[current_terminal]`. -/
def Kernel.setRow (k : Kernel) (row : Row) : Kernel :=
  { k with kbd := { k.kbd with
      buffer := Function.update k.kbd.buffer k.terms.currentTerminal row } }

/-- One statement. The counters are unsigned bytes. -/
def KeyStatement.exec (k : Kernel) : KeyStatement → Kernel
  | .clearFlag => { k with kbd := { k.kbd with keyFlag := false } }
  | .cursorLeft amount => { k with video := k.video.cursorLeft amount }
  | .incrementIDX => k.setIDX ((k.kbd.bufferIDX k.terms.currentTerminal + 1) % 256)
  | .incrementSIZE => k.setSIZE ((k.kbd.bufferSIZE k.terms.currentTerminal + 1) % 256)
  | .decrementIDX => k.setIDX ((k.kbd.bufferIDX k.terms.currentTerminal + 255) % 256)
  | .decrementSIZE => k.setSIZE ((k.kbd.bufferSIZE k.terms.currentTerminal + 255) % 256)
  | .leave videoPast flag =>
      { k with video := { k.video with videoMem := videoPast }, interrupts := flag }

/-! ## Up to `terminal_write` -/

/-- `keyboard_insert` up to the end of `terminal_write`, and the statements behind it.
`num_chars` can be negative when the counters lag behind; `terminal_write` rejects it then. -/
def startInsert (k : Kernel) (c : UInt8) : Option (Kernel × List KeyStatement) := do
  let t := k.terms.currentTerminal
  let idx := k.kbd.bufferIDX t
  let size := k.kbd.bufferSIZE t
  let row ← insertLoop idx (size + 1) (k.kbd.buffer t)
  let row ← rowSet row idx c
  let numChars : Int := size - idx + 1
  let text ← rowSlice row idx numChars.toNat
  let k := k.setRow row
  let k := (terminalWrite { k with kbd := { k.kbd with keyFlag := true } } text).2
  return (k, [.clearFlag, .cursorLeft (numChars - 1), .incrementIDX, .incrementSIZE])

/-- What `keyboard_insert` has done when it can be interrupted. -/
theorem startInsert_eq_some {k : Kernel} {c : UInt8} {r : Kernel × List KeyStatement}
    (h : startInsert k c = some r) :
    ∃ (row : Row) (text : List UInt8) (moves : Int),
      r = ((terminalWrite { k.setRow row with
          kbd := { (k.setRow row).kbd with keyFlag := true } } text).2,
        [.clearFlag, .cursorLeft moves, .incrementIDX, .incrementSIZE]) := by
  simp only [startInsert, Option.bind_eq_bind, Option.pure_def] at h
  obtain ⟨_, -, h⟩ := Option.bind_eq_some_iff.mp h
  obtain ⟨row, -, h⟩ := Option.bind_eq_some_iff.mp h
  obtain ⟨text, -, h⟩ := Option.bind_eq_some_iff.mp h
  exact ⟨row, text, _, (Option.some.inj h).symm⟩

/-- `keyboard_backspace` up to the end of `terminal_write`, and the statements behind it. -/
def startBackspace (k : Kernel) : Option (Kernel × List KeyStatement) := do
  let t := k.terms.currentTerminal
  let idx := k.kbd.bufferIDX t
  let size := k.kbd.bufferSIZE t
  let row ← backspaceLoop (size - (idx - 1)) (idx - 1) (k.kbd.buffer t)
  let row ← rowSet row size 0
  let numChars : Int := size - idx + 1
  let text ← rowSlice row (idx - 1) numChars.toNat
  let k := k.setRow row
  let k := (terminalWrite { k with video := k.video.backspace } text).2
  return (k, [.cursorLeft numChars, .decrementIDX, .decrementSIZE])

/-- The same for `keyboard_backspace`. -/
theorem startBackspace_eq_some {k : Kernel} {r : Kernel × List KeyStatement}
    (h : startBackspace k = some r) :
    ∃ (row : Row) (text : List UInt8) (moves : Int),
      r = ((terminalWrite { k.setRow row with
          video := (k.setRow row).video.backspace } text).2,
        [.cursorLeft moves, .decrementIDX, .decrementSIZE]) := by
  simp only [startBackspace, Option.bind_eq_bind, Option.pure_def] at h
  obtain ⟨_, -, h⟩ := Option.bind_eq_some_iff.mp h
  obtain ⟨row, -, h⟩ := Option.bind_eq_some_iff.mp h
  obtain ⟨text, -, h⟩ := Option.bind_eq_some_iff.mp h
  exact ⟨row, text, _, (Option.some.inj h).symm⟩

/-- The keys that have a branch of their own, besides backspace. -/
def commandKeys : List Nat :=
  [capslock, ctrlPress, altPress, lshiftPress, rshiftPress, upArrow, downArrow, leftArrow,
    rightArrow, enterKey]

/-- A backspace key, or a key that is translated to a character. -/
def TypedKey (kbd : Keyboard) (key : Nat) : Prop :=
  key = backspaceKey ∨
    key &&& releaseBit = 0 ∧ key ∉ commandKeys ∧ kbd.ctrlDown = false ∧
      translate kbd key ∉ [0, altF1, altF2, altF3]

instance (kbd : Keyboard) (key : Nat) : Decidable (TypedKey kbd key) :=
  inferInstanceAs (Decidable (_ ∨ _))

/-- The handler of a typed key as far as it goes without another interrupt, on the kernel as
`handle_keyboard` hands it on, and the statements of `keyboard_insert` or `keyboard_backspace` that
it has left. -/
def beginKey (k : Kernel) (key : Nat) : Option (Kernel × List KeyStatement) :=
  let t := k.terms.currentTerminal
  if key = backspaceKey then
    if k.kbd.bufferIDX t = 0 then some (k, []) else startBackspace k
  else if k.kbd.bufferSIZE t = maxCharacters then some (k, [])
  else startInsert k (translate k.kbd key)

/-- A keyboard interrupt with a typed key: behind the statements of the routine comes the end of
`handle_keyboard`. -/
def takeKey (k : Kernel) (key : Nat) : Option (Kernel × List KeyStatement) :=
  (beginKey (Machine.keyboardKernel k) key).map fun r =>
    (r.1, r.2 ++ [.leave k.video.videoMem k.interrupts])

/-! ## Keys one after another -/

/-- `handle_keyboard` without another key in between; `none` also for a key that switches
terminals. -/
def handleKeyboard (k : Kernel) (key : Nat) : Option Kernel :=
  match handleKeyboardInput (Machine.keyboardKernel k) key with
  | some (.done k') => some (KeyStatement.exec k' (.leave k.video.videoMem k.interrupts))
  | _ => none

/-- The keys of a list, one handled after another. -/
def sequential (k : Kernel) (keys : List Nat) : Option Kernel := keys.foldlM handleKeyboard k

/-! ## Keys that interrupt keys -/

/-- The kernel, what the handlers on the processor have left to do, innermost first, the keys taken
so far, and whether an access has left its row. -/
structure Typing where
  kernel : Kernel
  pending : List KeyStatement
  keys : List Nat
  outOfRow : Bool

/-- A keyboard interrupt with a typed key, or one more statement of the innermost handler. -/
inductive TypingEvent where
  | key (code : UInt8)
  | advance
  deriving DecidableEq, Repr

namespace Typing

/-- No handler is on the processor. -/
def start (k : Kernel) : Typing := ⟨k, [], [], false⟩

/-- One step. A key arrives only while interrupts are enabled. -/
def step (s : Typing) : TypingEvent → Option Typing
  | .key code =>
      if s.kernel.interrupts = true ∧ TypedKey s.kernel.kbd code.toNat then
        match takeKey s.kernel code.toNat with
        | none => some { s with keys := s.keys ++ [code.toNat], outOfRow := true }
        | some r =>
            some { s with
              kernel := r.1, pending := r.2 ++ s.pending, keys := s.keys ++ [code.toNat] }
      else none
  | .advance =>
      match s.pending with
      | [] => none
      | st :: rest => some { s with kernel := st.exec s.kernel, pending := rest }

end Typing

end Ece391Os
