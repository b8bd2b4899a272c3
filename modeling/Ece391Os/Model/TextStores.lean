import Ece391Os.Model.Screen

/-!
# Where text output stores

The cells that the text routines store to, in the order of the stores, counted from the first cell
of the page that `video_mem` points to; and the calls that print: `terminal_write` of a program,
`next_line`, and `printf` and `puts` of the kernel, which hand their bytes to `putc`.
-/

set_option autoImplicit false

namespace Ece391Os

namespace Video

/-- `puts`, and `printf` with the text that it makes of its format string. -/
def puts (v : Video) (text : List UInt8) : Video := text.foldl putc v

/-- The stores of `scroll`: the lines that move up, and then the last line. -/
def scrollStores : List Int := (List.range (numRows * numCols).toNat).map Int.ofNat

/-- The stores of `next_line`. -/
def nextLineStores (v : Video) : List Int :=
  if v.screenY ≥ numRows - 1 then scrollStores else []

/-- The stores of `putc`. -/
def putcStores (v : Video) (c : UInt8) : List Int :=
  if c = 10 ∨ c = 13 then [] else [numCols * v.screenY + v.screenX]

/-- The stores of one round of the loop of `terminal_write`. -/
def writeCharStores (v : Video) (c : UInt8) : List Int :=
  if c = 10 then v.nextLineStores
  else if v.screenX = numCols - 1 then v.putcStores c ++ (v.putc c).nextLineStores
  else v.putcStores c

/-- The stores of a text, for an operation that is applied to its bytes one after another. -/
def textStores (op : Video → UInt8 → Video) (stores : Video → UInt8 → List Int) :
    Video → List UInt8 → List Int
  | _, [] => []
  | v, c :: text => stores v c ++ textStores op stores (op v c) text

end Video

/-- A call that prints. -/
inductive OutputCall where
  | terminalWrite (buf : List UInt8)
  | puts (text : List UInt8)
  | nextLine
  deriving DecidableEq, Repr

namespace OutputCall

/-- The kernel after a call. -/
def run (k : Kernel) : OutputCall → Kernel
  | .terminalWrite buf => (Ece391Os.terminalWrite k buf).2
  | .puts text => { k with video := k.video.puts text }
  | .nextLine => { k with video := k.video.nextLine }

/-- The stores of a call. -/
def stores (k : Kernel) : OutputCall → List Int
  | .terminalWrite buf => Video.textStores Video.writeChar Video.writeCharStores k.video buf
  | .puts text => Video.textStores Video.putc Video.putcStores k.video text
  | .nextLine => k.video.nextLineStores

end OutputCall

end Ece391Os
