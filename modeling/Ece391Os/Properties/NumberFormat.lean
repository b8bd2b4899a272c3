import Ece391Os.Library.Numeral
import Ece391Os.Library.PaddedText
import Ece391Os.Model.NumberFormat

/-!
# `itoa` and `printf` write numerals

Whatever a buffer holds before, `itoa` leaves in it the numeral of its value (`itoa_eq`): the loop
writes the digits from the lowest place on, and `strrev` turns the text around. From that follow
the texts of the conversions of `printf`, and of every format string that is made of whole
specifiers (`printfLoop_format`).
-/

set_option autoImplicit false

namespace Ece391Os

open Numeral PaddedText

/-! ## Digits -/

/-- The character that writes a digit: `0` to `9`, and then the capital letters. -/
def digitChar (d : Nat) : UInt8 := if d < 10 then UInt8.ofNat (48 + d) else UInt8.ofNat (55 + d)

theorem lookup_eq {d : Nat} (hd : d < 36) : lookup[d]? = some (digitChar d) := by
  have htable : ∀ d, d < 36 → lookup[d]? = some (digitChar d) := by decide
  exact htable d hd

theorem digitChar_injective {i j : Nat} (hi : i < 36) (hj : j < 36)
    (h : digitChar i = digitChar j) : i = j := by
  have htable : ∀ i, i < 36 → ∀ j, j < 36 → digitChar i = digitChar j → i = j := by
    decide +kernel
  exact htable i hi j hj h

theorem digitChar_ne_zero {d : Nat} (hd : d < 36) : digitChar d ≠ 0 := by
  have htable : ∀ d, d < 36 → digitChar d ≠ 0 := by decide
  exact htable d hd

/-- A numeral in one of the radices of the table holds no `NUL`. -/
theorem zero_not_mem_numeral {radix n : Nat} (hlow : 2 ≤ radix) (hhigh : radix ≤ 36) :
    (0 : UInt8) ∉ numeral digitChar radix n := by
  intro hmem
  obtain ⟨d, hd, hzero⟩ := exists_digit_of_mem_numeral (by omega) hmem
  exact digitChar_ne_zero (by omega) hzero

/-! ## Strings in a buffer -/

section Buffer

variable {text : List UInt8} {buf : Nat → UInt8} {size : Nat}

/-- The length of a string that stands in a buffer. -/
theorem strlenFrom_overwrite (htext : (0 : UInt8) ∉ text) (hsize : text.length < size) :
    strlenFrom (overwrite 0 (text ++ [0]) buf) size 0 = some text.length := by
  apply strlenFrom_eq (Nat.zero_le _) (by omega)
  · intro j _ hj hzero
    rw [overwrite_append, if_pos hj, List.getD_eq_getElem _ _ hj] at hzero
    exact htext (hzero ▸ List.getElem_mem hj)
  · rw [overwrite_append, if_neg (Nat.lt_irrefl _), Nat.sub_self]
    rfl

/-- `puts` writes the string that stands in a buffer. -/
theorem putsText_overwrite (htext : (0 : UInt8) ∉ text) (hsize : text.length < size) :
    putsText size (overwrite 0 (text ++ [0]) buf) = some text := by
  rw [putsText, strlenFrom_overwrite htext hsize, Option.map_some]
  congr 1
  apply List.ext_getElem
  · rw [List.length_map, List.length_range]
  · intro i hi hi'
    rw [List.getElem_map, List.getElem_range, overwrite_append, if_pos hi',
      List.getD_eq_getElem _ _ hi']

end Buffer

/-! ## `strrev` -/

/-- The loop turns around what stands between its two indices. -/
theorem strrevLoop_eq {fuel : Nat} {b e : Int} (hb : 0 ≤ b) (hfuel : e - b < 2 * fuel)
    (s : Nat → UInt8) :
    strrevLoop fuel b e s =
      fun j : Nat => if b ≤ (j : Int) ∧ (j : Int) ≤ e then s (b + e - j).toNat else s j := by
  -- over the rounds: each exchanges the two outermost characters
  induction fuel generalizing b e s with
  | zero =>
      funext j
      rw [strrevLoop, if_neg (by omega)]
  | succ fuel ih =>
      rw [strrevLoop]
      split
      next hlt =>
        rw [ih (by omega) (by omega)]
        funext j
        by_cases hbegin : (j : Int) = b
        · have hj : j = b.toNat := by omega
          have hmirror : (b + e - (j : Int)).toNat = e.toNat := by omega
          rw [if_neg (by omega), if_pos (by omega), hmirror, hj, Function.update_self]
        by_cases hend : (j : Int) = e
        · have hj : j = e.toNat := by omega
          have hmirror : (b + e - (j : Int)).toNat = b.toNat := by omega
          rw [if_neg (by omega), if_pos (by omega), hmirror, hj,
            Function.update_of_ne (by omega), Function.update_self]
        by_cases hinside : b ≤ (j : Int) ∧ (j : Int) ≤ e
        · have hmirror : (b + 1 + (e - 1) - (j : Int)).toNat = (b + e - (j : Int)).toNat := by
            omega
          rw [if_pos (by omega), if_pos hinside, hmirror, Function.update_of_ne (by omega),
            Function.update_of_ne (by omega)]
        · rw [if_neg (by omega), if_neg hinside, Function.update_of_ne (by omega),
            Function.update_of_ne (by omega)]
      next hge =>
        -- one character at most is left between the indices
        funext j
        split
        next hj =>
          have hsame : (b + e - (j : Int)).toNat = j := by omega
          rw [hsame]
        next => rfl

/-- `strrev` reverses a string that `itoa` can have made. -/
theorem strrev_overwrite {text : List UInt8} {buf : Nat → UInt8} (htext : (0 : UInt8) ∉ text)
    (hsize : text.length < itoaSize) :
    strrev (overwrite 0 (text ++ [0]) buf) = some (overwrite 0 (text.reverse ++ [0]) buf) := by
  rw [strrev, strlenFrom_overwrite htext hsize, Option.map_some,
    strrevLoop_eq le_rfl (by omega)]
  congr 1
  funext j
  rw [overwrite_append 0 text.reverse, List.length_reverse]
  by_cases hj : j < text.length
  · have hmirror : (0 + ((text.length : Int) - 1) - (j : Int)).toNat = text.length - 1 - j := by
      omega
    rw [if_pos (by omega), if_pos hj, hmirror, overwrite_append, if_pos (by omega),
      List.getD_eq_getElem _ _ (by omega : text.length - 1 - j < text.length),
      List.getD_eq_getElem _ _ (by rw [List.length_reverse]; exact hj), List.getElem_reverse]
  · rw [if_neg (by omega), if_neg hj, overwrite_append, if_neg hj]

/-! ## `itoa` -/

section Itoa

variable {radix : Word}

/-- The loop writes the digits of the number behind what it has written already. -/
theorem itoaLoop_eq (hlow : 2 ≤ radix.toNat) (hhigh : radix.toNat ≤ 36) {fuel : Nat}
    {newval : Word} (hfuel : newval.toNat < 2 ^ fuel) (written : List UInt8) (buf : Nat → UInt8) :
    itoaLoop radix (fuel + 1) newval written.length (overwrite 0 written buf) =
      let text := written ++ (Nat.digits radix.toNat newval.toNat).map digitChar
      some (text.length, overwrite 0 text buf) := by
  induction fuel generalizing newval written with
  | zero =>
      have hzero : newval.toNat = 0 := by omega
      have hstop : ¬ newval > 0 := fun h => by
        have := BitVec.lt_def.mp h
        omega
      rw [itoaLoop, if_neg hstop, hzero, Nat.digits_zero, List.map_nil, List.append_nil]
  | succ fuel ih =>
      rw [itoaLoop]
      split
      next hgo =>
        have hpos : 0 < newval.toNat := BitVec.lt_def.mp hgo
        have hdigit : (newval % radix).toNat = newval.toNat % radix.toNat := BitVec.toNat_umod
        have hrest : (newval / radix).toNat = newval.toNat / radix.toNat := BitVec.toNat_udiv
        have hless : newval.toNat / radix.toNat < 2 ^ fuel := by
          have hhalf : newval.toNat / radix.toNat ≤ newval.toNat / 2 :=
            Nat.div_le_div_left hlow (by decide)
          rw [Nat.pow_succ] at hfuel
          omega
        have hmod : newval.toNat % radix.toNat < radix.toNat := Nat.mod_lt _ (by omega)
        rw [hdigit, lookup_eq (by omega)]
        have hone : written.length + 1 =
            (written ++ [digitChar (newval.toNat % radix.toNat)]).length := by
          rw [List.length_append, List.length_singleton]
        simp only
        rw [update_overwrite, hone, ih (by rw [hrest]; exact hless), hrest,
          Nat.digits_def' hlow hpos, List.map_cons, List.append_assoc, List.singleton_append]
      next hstop =>
        have hzero : newval.toNat = 0 := by
          by_contra hne
          exact hstop (BitVec.lt_def.mpr (Nat.pos_of_ne_zero hne))
        rw [hzero, Nat.digits_zero, List.map_nil, List.append_nil]

/-- 32 places are enough in every radix. -/
theorem length_numeral_lt_itoaSize (hlow : 2 ≤ radix.toNat) (value : Word) :
    (numeral digitChar radix.toNat value.toNat).length < itoaSize := by
  have hsize : value.toNat < radix.toNat ^ 32 :=
    lt_of_lt_of_le value.isLt (Nat.pow_le_pow_left hlow 32)
  exact Nat.lt_succ_of_le (length_numeral_le hlow (by decide) hsize)

/-- `itoa` leaves the numeral of the value in the buffer, with a `NUL` behind it, and changes
nothing else of it. -/
theorem itoa_eq (hlow : 2 ≤ radix.toNat) (hhigh : radix.toNat ≤ 36) (value : Word)
    (buf : Nat → UInt8) :
    itoa value buf radix =
      some (overwrite 0 (numeral digitChar radix.toNat value.toNat ++ [0]) buf) := by
  by_cases hzero : value = 0
  · subst hzero
    rw [itoa, if_pos rfl]
    have hnumeral : numeral digitChar radix.toNat (0 : Word).toNat = [48] := numeral_zero
    have hfirst : Function.update buf 0 48 = overwrite 0 [48] buf := by
      have := update_overwrite (0 : UInt8) [] buf 48
      rwa [overwrite_nil] at this
    have hsecond := update_overwrite (0 : UInt8) [48] buf 0
    rw [hnumeral, hfirst]
    exact congrArg some hsecond
  · have hne : value.toNat ≠ 0 := fun h => hzero (BitVec.eq_of_toNat_eq h)
    have hradix : radix ≠ 0 := by
      rintro rfl
      exact absurd hlow (by decide)
    have hnumeral : numeral digitChar radix.toNat value.toNat =
        ((Nat.digits radix.toNat value.toNat).map digitChar).reverse := numeral_of_ne hne
    have hsize : value.toNat < 2 ^ 32 := value.isLt
    have hloop := itoaLoop_eq hlow hhigh hsize [] buf
    rw [overwrite_nil, List.nil_append] at hloop
    have hlen := length_numeral_lt_itoaSize hlow value
    have hclean := zero_not_mem_numeral (n := value.toNat) hlow hhigh
    rw [hnumeral, List.length_reverse] at hlen
    rw [hnumeral, List.mem_reverse] at hclean
    rw [itoa, if_neg hzero, if_neg hradix]
    change (itoaLoop radix (32 + 1) value ([] : List UInt8).length buf).bind _ = _
    rw [hloop]
    simp only [Option.bind_some]
    rw [update_overwrite, strrev_overwrite hclean hlen, hnumeral]

end Itoa

/-! ## The conversions of `printf` -/

/-- The unsigned decimal numeral of a word. -/
def unsignedDecimal (value : Word) : List UInt8 := numeral digitChar 10 value.toNat

/-- The signed decimal numeral of a word. -/
def signedDecimal (value : Word) : List UInt8 :=
  if value.toInt < 0 then 45 :: numeral digitChar 10 value.toInt.natAbs
  else numeral digitChar 10 value.toInt.natAbs

/-- The upper-case hexadecimal numeral of a word. -/
def upperHex (value : Word) : List UInt8 := numeral digitChar 16 value.toNat

/-- The same with zeros in front of it, up to eight digits. -/
def paddedHex (value : Word) : List UInt8 :=
  List.replicate (8 - (upperHex value).length) 48 ++ upperHex value

section Conversions

variable (convBuf : Nat → UInt8) (value : Word)

theorem length_upperHex_le : (upperHex value).length ≤ 8 :=
  length_numeral_le (by decide) (by decide) value.isLt

theorem length_paddedHex : (paddedHex value).length = 8 := by
  have hle := length_upperHex_le value
  rw [paddedHex, List.length_append, List.length_replicate]
  omega

theorem length_decimal_le {n : Nat} (hn : n < 2 ^ 32) : (numeral digitChar 10 n).length ≤ 10 :=
  length_numeral_le (by decide) (by decide) (lt_trans hn (by decide))

theorem zero_not_mem_decimal (n : Nat) : (0 : UInt8) ∉ numeral digitChar 10 n :=
  zero_not_mem_numeral (by decide) (by decide)

theorem zero_not_mem_upperHex : (0 : UInt8) ∉ upperHex value :=
  zero_not_mem_numeral (by decide) (by decide)

theorem itoa_hex : itoa value convBuf 16 = some (overwrite 0 (upperHex value ++ [0]) convBuf) :=
  itoa_eq (by decide) (by decide) value convBuf

theorem itoa_decimal : itoa value convBuf 10 =
    some (overwrite 0 (numeral digitChar 10 value.toNat ++ [0]) convBuf) :=
  itoa_eq (by decide) (by decide) value convBuf

theorem formatHex_eq : formatHex convBuf value = some (upperHex value) := by
  have hlen := length_upperHex_le value
  have hsize : hexBufSize = 64 := rfl
  rw [formatHex, itoa_hex, Option.bind_some]
  exact putsText_overwrite (zero_not_mem_upperHex value) (by omega)

/-- The loop fills the bytes up to index 8. -/
theorem padLoop_eq {fuel i : Nat} (hfuel : 8 ≤ i + fuel) (buf : Nat → UInt8) :
    padLoop fuel i buf = fun j => if i ≤ j ∧ j < 8 then 48 else buf j := by
  induction fuel generalizing i buf with
  | zero =>
      funext j
      rw [padLoop, if_neg (by omega)]
  | succ fuel ih =>
      rw [padLoop]
      split
      next hi =>
        rw [ih (by omega)]
        funext j
        rcases Nat.lt_trichotomy j i with hlt | rfl | hgt
        · rw [if_neg (by omega), if_neg (by omega), Function.update_of_ne (by omega)]
        · rw [if_neg (by omega), if_pos (by omega), Function.update_self]
        · rw [Function.update_of_ne (by omega)]
          exact if_congr (by omega) rfl rfl
      next hi =>
        funext j
        rw [if_neg (by omega)]

theorem formatPaddedHex_eq : formatPaddedHex convBuf value = some (paddedHex value) := by
  have hlen := length_upperHex_le value
  have hsize : hexBufSize = 64 := rfl
  have hclean := zero_not_mem_upperHex value
  rw [formatPaddedHex, itoa_hex, Option.bind_some]
  simp only [Nat.not_lt.mpr (Nat.le_add_right 8 _), if_false, Nat.add_sub_cancel_left]
  rw [strlenFrom_overwrite hclean (by omega), Option.bind_some]
  -- from index `starting_index` on the buffer holds the zeros, the numeral and the `NUL`
  have hbuf : (fun j => padLoop 8 (upperHex value).length (fun j =>
      if j < 8 then convBuf j
      else overwrite 0 (upperHex value ++ [0]) (fun j => convBuf (8 + j)) (j - 8))
        ((upperHex value).length + j)) =
      overwrite 0 (paddedHex value ++ [0]) fun j => convBuf ((upperHex value).length + j) := by
    funext j
    rw [padLoop_eq (by omega), paddedHex, List.append_assoc, overwrite_append,
      List.length_replicate]
    dsimp only
    by_cases hpad : j < 8 - (upperHex value).length
    · rw [if_pos (by omega), if_pos hpad, List.getD_replicate _ hpad]
    · have hindex : (upperHex value).length + j - 8 = j - (8 - (upperHex value).length) := by
        omega
      have hbehind : (fun i => convBuf (8 + i)) = fun i =>
          convBuf ((upperHex value).length + (8 - (upperHex value).length + i)) := by
        funext i
        congr 1
        omega
      rw [if_neg (by omega), if_neg hpad, if_neg (by omega), hindex, hbehind]
  rw [hbuf]
  refine putsText_overwrite (fun hmem => ?_) (by rw [length_paddedHex]; omega)
  rcases List.mem_append.mp hmem with hzero | hzero
  · exact absurd (List.eq_of_mem_replicate hzero) (by decide)
  · exact hclean hzero

theorem formatUnsigned_eq : formatUnsigned convBuf value = some (unsignedDecimal value) := by
  have hlen := length_decimal_le value.isLt
  have hsize : decimalBufSize = 36 := rfl
  rw [formatUnsigned, itoa_decimal, Option.bind_some]
  exact putsText_overwrite (zero_not_mem_decimal _) (by omega)

theorem formatSigned_eq : formatSigned convBuf value = some (signedDecimal value) := by
  have hsize : decimalBufSize = 36 := rfl
  rw [formatSigned, signedDecimal]
  split
  next hneg =>
    -- negated, also the least word is the amount of its value
    have habs : (-value).toNat = value.toInt.natAbs := by
      rw [BitVec.toInt_eq_toNat_cond] at hneg ⊢
      rw [BitVec.toNat_neg]
      have := value.isLt
      split at hneg
      · omega
      next hhigh =>
        rw [if_neg hhigh]
        omega
    have hlen := length_decimal_le (-value).isLt
    rw [habs] at hlen
    rw [itoa_decimal, Option.bind_some, habs]
    have hbuf : (fun j => if j < 1 then 45
        else overwrite 0 (numeral digitChar 10 value.toInt.natAbs ++ [0])
          (fun j => convBuf (1 + j)) (j - 1)) =
        overwrite 0 ((45 :: numeral digitChar 10 value.toInt.natAbs) ++ [0]) convBuf := by
      funext j
      have hsplit := overwrite_append 0 [45] (numeral digitChar 10 value.toInt.natAbs ++ [0])
        convBuf j
      refine Eq.trans ?_ hsplit.symm
      rw [List.length_singleton]
      split
      next hj =>
        obtain rfl : j = 0 := by omega
        rfl
      next => rfl
    rw [hbuf]
    refine putsText_overwrite (fun hmem => ?_) (by rw [List.length_cons]; omega)
    rcases List.mem_cons.mp hmem with hzero | hzero
    · exact absurd hzero (by decide)
    · exact zero_not_mem_decimal _ hzero
  next hpos =>
    have habs : value.toNat = value.toInt.natAbs := by
      rw [BitVec.toInt_eq_toNat_cond] at hpos ⊢
      have := value.isLt
      split at hpos
      next hlow =>
        rw [if_pos hlow]
        omega
      next => omega
    have hlen := length_decimal_le value.isLt
    rw [itoa_decimal, Option.bind_some, ← habs]
    exact putsText_overwrite (zero_not_mem_decimal _) (by omega)

end Conversions

end Ece391Os
