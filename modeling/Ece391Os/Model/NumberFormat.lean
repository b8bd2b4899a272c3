import Ece391Os.Model.CString
import Ece391Os.Model.TextStores

/-!
# Numbers as text

`itoa`, `strrev` and `printf` of `lib.c`. The text of a number is made in a local character buffer:
digits from the lowest place on, a `NUL` behind them, and then a reversal in place. What such a
buffer holds before is left open.
-/

set_option autoImplicit false

namespace Ece391Os

/-! ## `itoa` -/

/-- The table of `itoa`: `0` to `9` and `A` to `Z`. -/
def lookup : List UInt8 := [
  48, 49, 50, 51, 52, 53, 54, 55, 56, 57,
  65, 66, 67, 68, 69, 70, 71, 72, 73, 74, 75, 76, 77,
  78, 79, 80, 81, 82, 83, 84, 85, 86, 87, 88, 89, 90]

/-- The bytes of the longest text that `itoa` makes: 32 binary digits and the `NUL`. -/
def itoaSize : Nat := 33

/-- The loop of `itoa`: digits from the lowest place on, from index `newbuf` on. `none` is a digit
that is not in the table, or a loop that does not end. -/
def itoaLoop (radix : Word) : Nat → Word → Nat → (Nat → UInt8) → Option (Nat × (Nat → UInt8))
  | 0, _, _, _ => none
  | fuel + 1, newval, newbuf, buf =>
      if newval > 0 then
        match lookup[(newval % radix).toNat]? with
        | none => none
        | some c => itoaLoop radix fuel (newval / radix) (newbuf + 1) (Function.update buf newbuf c)
      else some (newbuf, buf)

/-- The loop of `strrev`. -/
def strrevLoop : Nat → Int → Int → (Nat → UInt8) → (Nat → UInt8)
  | 0, _, _, s => s
  | fuel + 1, beg, «end», s =>
      if beg < «end» then
        let tmp := s «end».toNat
        let s := Function.update s «end».toNat (s beg.toNat)
        strrevLoop fuel (beg + 1) («end» - 1) (Function.update s beg.toNat tmp)
      else s

/-- `strrev`; `none` is a string longer than any that `itoa` makes. The loop takes fewer rounds than
the string has characters. -/
def strrev (s : Nat → UInt8) : Option (Nat → UInt8) :=
  (strlenFrom s itoaSize 0).map fun len => strrevLoop len 0 ((len : Int) - 1) s

/-- `itoa`. `none` is a division fault, a digit that is not in the table, or a call that does not
return. -/
def itoa (value : Word) (buf : Nat → UInt8) (radix : Word) : Option (Nat → UInt8) :=
  if value = 0 then some (Function.update (Function.update buf 0 48) 1 0)
  else if radix = 0 then none
  else (itoaLoop radix itoaSize value 0 buf).bind fun (newbuf, buf) =>
    strrev (Function.update buf newbuf 0)

/-! ## The conversions of `printf` -/

/-- The bytes that `puts` hands to `putc` from a buffer of `size` bytes; `none` if no `NUL` ends
them. -/
def putsText (size : Nat) (s : Nat → UInt8) : Option (List UInt8) :=
  (strlenFrom s size 0).map fun index => (List.range index).map s

/-- The size of `conv_buf` for `%x`, and that for `%u` and `%d`. -/
def hexBufSize : Nat := 64
def decimalBufSize : Nat := 36

/-- `%x`. -/
def formatHex (convBuf : Nat → UInt8) (value : Word) : Option (List UInt8) :=
  (itoa value convBuf 16).bind (putsText hexBufSize)

/-- The loop of `%#x` that puts zeros in front of the numeral at index 8. -/
def padLoop : Nat → Nat → (Nat → UInt8) → (Nat → UInt8)
  | 0, _, convBuf => convBuf
  | fuel + 1, i, convBuf =>
      if i < 8 then padLoop fuel (i + 1) (Function.update convBuf i 48) else convBuf

/-- `%#x`. The text starts as many bytes in front of index 8 as the numeral is short of 8. -/
def formatPaddedHex (convBuf : Nat → UInt8) (value : Word) : Option (List UInt8) :=
  (itoa value (fun j => convBuf (8 + j)) 16).bind fun numeral =>
    let convBuf := fun j => if j < 8 then convBuf j else numeral (j - 8)
    (strlenFrom (fun j => convBuf (8 + j)) (hexBufSize - 8) 0).bind fun startingIndex =>
      let convBuf := padLoop 8 startingIndex convBuf
      putsText (hexBufSize - startingIndex) fun j => convBuf (startingIndex + j)

/-- `%u`. -/
def formatUnsigned (convBuf : Nat → UInt8) (value : Word) : Option (List UInt8) :=
  (itoa value convBuf 10).bind (putsText decimalBufSize)

/-- `%d`. The negation wraps. -/
def formatSigned (convBuf : Nat → UInt8) (value : Word) : Option (List UInt8) :=
  if value.toInt < 0 then
    (itoa (-value) (fun j => convBuf (1 + j)) 10).bind fun numeral =>
      putsText decimalBufSize fun j => if j < 1 then 45 else numeral (j - 1)
  else (itoa value convBuf 10).bind (putsText decimalBufSize)

/-! ## `printf` -/

/-- What a call of `printf` finds: the words above `format` on the stack, the strings in memory by
their address, and what the conversion buffer holds when the `n`-th word is converted. -/
structure PrintfArgs where
  word : Nat → Word
  string : Word → CString
  convBuf : Nat → Nat → UInt8

/-- Where `printf` is in its format string: outside a specifier, or at `format_char_switch` with
the flag `alternate`. -/
inductive FormatState where
  | outside
  | specifier (alternate : Bool)
  deriving DecidableEq, Repr

/-- The loop of `printf`, with `n` words used so far: the bytes that it hands to `putc`. `none` is
a specifier that the end of the string cuts off; its `NUL` is then taken for an unknown
specifier, and the loop runs on behind the string. -/
def printfLoop (args : PrintfArgs) : FormatState → Nat → CString → Option (List UInt8)
  | .outside, _, [] => some []
  | .outside, n, c :: buf =>
      if c = 0 then some []
      else if c = 37 then printfLoop args (.specifier false) n buf
      else (printfLoop args .outside n buf).map (c :: ·)
  | .specifier _, _, [] => none
  | .specifier alternate, n, c :: buf =>
      if c = 0 then none
      -- the characters are `%`, `#`, `x`, `u`, `d`, `c` and `s`
      else if c = 37 then (printfLoop args .outside n buf).map (37 :: ·)
      else if c = 35 then printfLoop args (.specifier true) n buf
      else if c = 120 then
        (if alternate then formatPaddedHex (args.convBuf n) (args.word n)
          else formatHex (args.convBuf n) (args.word n)).bind fun text =>
            (printfLoop args .outside (n + 1) buf).map (text ++ ·)
      else if c = 117 then
        (formatUnsigned (args.convBuf n) (args.word n)).bind fun text =>
          (printfLoop args .outside (n + 1) buf).map (text ++ ·)
      else if c = 100 then
        (formatSigned (args.convBuf n) (args.word n)).bind fun text =>
          (printfLoop args .outside (n + 1) buf).map (text ++ ·)
      else if c = 99 then
        (printfLoop args .outside (n + 1) buf).map (UInt8.ofNat (args.word n).toNat :: ·)
      else if c = 115 then
        (printfLoop args .outside (n + 1) buf).map ((args.string (args.word n)).text ++ ·)
      else printfLoop args .outside n buf

/-- `printf`: the text pages after it, and the length of the format string, which it returns. -/
def printf (args : PrintfArgs) (v : Video) (format : CString) : Option (Video × Int) :=
  (printfLoop args .outside 0 format).map fun text => (v.puts text, (format.strlen : Int))

end Ece391Os
