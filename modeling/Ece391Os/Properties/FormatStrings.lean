import Ece391Os.Properties.NumberFormat

/-!
# Format strings

A format string is a list of directives: characters that `printf` prints as they are, and
specifiers, each with any number of `#` in front of it. `printf` prints the text of each directive
(`printfLoop_format`), and these format strings are the only ones whose end it does not run past
(`printfLoop_isSome_iff`).
-/

set_option autoImplicit false

namespace Ece391Os

open Numeral

/-! ## Directives -/

/-- The characters that mean something behind a `%`: the `NUL`, `#`, `%`, `c`, `d`, `s`, `u` and
`x`. -/
def specifierChars : List UInt8 := [0, 35, 37, 99, 100, 115, 117, 120]

/-- What can stand behind a `%`. A character without a meaning prints nothing. -/
inductive Specifier where
  | percent
  | hex
  | unsigned
  | signed
  | character
  | string
  | unknown (c : UInt8) (h : c ∉ specifierChars)

namespace Specifier

/-- The character of the specifier. -/
def char : Specifier → UInt8
  | .percent => 37
  | .hex => 120
  | .unsigned => 117
  | .signed => 100
  | .character => 99
  | .string => 115
  | .unknown c _ => c

/-- The number of words that the specifier takes from the stack. -/
def words : Specifier → Nat
  | .percent => 0
  | .unknown _ _ => 0
  | .hex => 1
  | .unsigned => 1
  | .signed => 1
  | .character => 1
  | .string => 1

/-- What the specifier prints of the `n`-th word. -/
def text (args : PrintfArgs) (alternate : Bool) (n : Nat) : Specifier → List UInt8
  | .percent => [37]
  | .hex => if alternate then paddedHex (args.word n) else upperHex (args.word n)
  | .unsigned => unsignedDecimal (args.word n)
  | .signed => signedDecimal (args.word n)
  | .character => [UInt8.ofNat (args.word n).toNat]
  | .string => (args.string (args.word n)).text
  | .unknown _ _ => []

theorem char_ne_zero (spec : Specifier) : spec.char ≠ 0 := by
  cases spec with
  | unknown c h =>
      rintro (rfl : c = 0)
      exact h List.mem_cons_self
  | _ => exact (by decide)

end Specifier

/-- Every character but the `NUL` and `#` is that of a specifier. -/
theorem exists_specifier {c : UInt8} (hnul : c ≠ 0) (hhash : c ≠ 35) :
    ∃ spec : Specifier, c = spec.char := by
  by_cases h : c ∈ specifierChars
  · simp only [specifierChars, List.mem_cons, List.not_mem_nil, or_false] at h
    rcases h with rfl | rfl | rfl | rfl | rfl | rfl | rfl | rfl
    · exact absurd rfl hnul
    · exact absurd rfl hhash
    · exact ⟨.percent, rfl⟩
    · exact ⟨.character, rfl⟩
    · exact ⟨.signed, rfl⟩
    · exact ⟨.string, rfl⟩
    · exact ⟨.unsigned, rfl⟩
    · exact ⟨.hex, rfl⟩
  · exact ⟨.unknown c h, rfl⟩

/-- A character that stands for itself, or a specifier behind a `%` and a number of `#`. -/
inductive Directive where
  | plain (c : UInt8) (h : c ≠ 0 ∧ c ≠ 37)
  | conversion (hashes : Nat) (spec : Specifier)

namespace Directive

/-- How the directive is written in the format string. -/
def format : Directive → CString
  | .plain c _ => [c]
  | .conversion hashes spec => 37 :: (List.replicate hashes 35 ++ [spec.char])

/-- The number of words that the directive takes. -/
def words : Directive → Nat
  | .plain _ _ => 0
  | .conversion _ spec => spec.words

/-- What the directive prints. -/
def text (args : PrintfArgs) (n : Nat) : Directive → List UInt8
  | .plain c _ => [c]
  | .conversion hashes spec => spec.text args (decide (0 < hashes)) n

end Directive

/-- The format string of a list of directives. -/
def formatOf (ds : List Directive) : CString := ds.flatMap Directive.format

/-- What the directives print, with `n` words used before them. -/
def textOf (args : PrintfArgs) : Nat → List Directive → List UInt8
  | _, [] => []
  | n, d :: ds => d.text args n ++ textOf args (n + d.words) ds

/-! ## The loop of `printf` -/

section Loop

variable (args : PrintfArgs)

/-- The loop at a specifier. -/
theorem printfLoop_specifier (spec : Specifier) (alternate : Bool) (n : Nat) (buf : CString) :
    printfLoop args (.specifier alternate) n (spec.char :: buf) =
      (printfLoop args .outside (n + spec.words) buf).map (spec.text args alternate n ++ ·) := by
  cases spec with
  | percent => rfl
  | hex =>
      have htext : (if alternate then formatPaddedHex (args.convBuf n) (args.word n)
          else formatHex (args.convBuf n) (args.word n)) =
          some (Specifier.text args alternate n .hex) := by
        rw [formatPaddedHex_eq, formatHex_eq, Specifier.text]
        cases alternate <;> rfl
      change (if alternate then _ else _ : Option (List UInt8)).bind _ = _
      rw [htext]
      rfl
  | unsigned =>
      change (formatUnsigned (args.convBuf n) (args.word n)).bind _ = _
      rw [formatUnsigned_eq]
      rfl
  | signed =>
      change (formatSigned (args.convBuf n) (args.word n)).bind _ = _
      rw [formatSigned_eq]
      rfl
  | character => rfl
  | string => rfl
  | unknown c h =>
      simp only [specifierChars, List.mem_cons, List.not_mem_nil, or_false, not_or] at h
      obtain ⟨hnul, hhash, hpercent, hc, hd, hs, hu, hx⟩ := h
      change printfLoop args (.specifier alternate) n (c :: buf) = _
      rw [printfLoop, if_neg hnul, if_neg hpercent, if_neg hhash, if_neg hx, if_neg hu, if_neg hd,
        if_neg hc, if_neg hs]
      exact Option.map_id'.symm

/-- Every `#` sets the flag. -/
theorem printfLoop_hashes (hashes : Nat) (alternate : Bool) (n : Nat) (buf : CString) :
    printfLoop args (.specifier alternate) n (List.replicate hashes 35 ++ buf) =
      printfLoop args (.specifier (alternate || decide (0 < hashes))) n buf := by
  induction hashes generalizing alternate with
  | zero =>
      rw [decide_eq_false (Nat.lt_irrefl 0), Bool.or_false]
      rfl
  | succ hashes ih =>
      have hstep : printfLoop args (.specifier alternate) n
          (List.replicate (hashes + 1) 35 ++ buf) =
          printfLoop args (.specifier true) n (List.replicate hashes 35 ++ buf) := rfl
      rw [hstep, ih, Bool.true_or, decide_eq_true (Nat.succ_pos hashes), Bool.or_true]

/-- The loop at a directive. -/
theorem printfLoop_directive (d : Directive) (n : Nat) (buf : CString) :
    printfLoop args .outside n (d.format ++ buf) =
      (printfLoop args .outside (n + d.words) buf).map (d.text args n ++ ·) := by
  cases d with
  | plain c h =>
      change printfLoop args .outside n (c :: buf) = _
      rw [printfLoop, if_neg h.1, if_neg h.2]
      rfl
  | conversion hashes spec =>
      have hstep : printfLoop args .outside n
          ((Directive.conversion hashes spec).format ++ buf) =
          printfLoop args (.specifier false) n
            (List.replicate hashes 35 ++ (spec.char :: buf)) := by
        rw [Directive.format, List.cons_append, List.append_assoc]
        rfl
      rw [hstep, printfLoop_hashes, Bool.false_or, printfLoop_specifier]
      rfl

/-- `printf` prints the text of every directive. -/
theorem printfLoop_format (n : Nat) (ds : List Directive) :
    printfLoop args .outside n (formatOf ds) = some (textOf args n ds) := by
  induction ds generalizing n with
  | nil => rfl
  | cons d ds ih =>
      have hcons : formatOf (d :: ds) = d.format ++ formatOf ds := List.flatMap_cons
      rw [hcons, printfLoop_directive, ih]
      rfl

example : printfLoop ⟨fun _ => 0x80000000, fun _ => [], fun _ _ => 7⟩ .outside 0 [37, 100] =
    some [45, 50, 49, 52, 55, 52, 56, 51, 54, 52, 56] := by decide

/-- A format string on which the loop ends is made of directives; behind a `%` it goes on with any
number of `#` and the character of a specifier. -/
theorem exists_directives {format : CString} (hclean : (0 : UInt8) ∉ format) :
    (∀ n, (printfLoop args .outside n format).isSome = true → ∃ ds, format = formatOf ds) ∧
      ∀ alternate n, (printfLoop args (.specifier alternate) n format).isSome = true →
        ∃ hashes spec ds,
          format = List.replicate hashes 35 ++ Specifier.char spec :: formatOf ds := by
  induction format with
  | nil => exact ⟨fun _ _ => ⟨[], rfl⟩, fun alternate n h => by cases h⟩
  | cons c buf ih =>
      obtain ⟨ihOutside, ihSpecifier⟩ := ih fun h => hclean (List.mem_cons_of_mem c h)
      have hnul : c ≠ 0 := fun h => hclean (h ▸ List.mem_cons_self)
      refine ⟨fun n h => ?_, fun alternate n h => ?_⟩
      · rw [printfLoop, if_neg hnul] at h
        split at h
        next hpercent =>
          obtain ⟨hashes, spec, ds, rfl⟩ := ihSpecifier false n h
          refine ⟨.conversion hashes spec :: ds, ?_⟩
          have hcons : formatOf (.conversion hashes spec :: ds) =
              37 :: (List.replicate hashes 35 ++ [spec.char] ++ formatOf ds) := rfl
          rw [hpercent, hcons, List.append_assoc, List.singleton_append]
        next hplain =>
          rw [Option.isSome_map] at h
          obtain ⟨ds, rfl⟩ := ihOutside n h
          exact ⟨.plain c ⟨hnul, hplain⟩ :: ds, rfl⟩
      · by_cases hhash : c = 35
        · subst hhash
          obtain ⟨hashes, spec, ds, rfl⟩ := ihSpecifier true n h
          exact ⟨hashes + 1, spec, ds, rfl⟩
        · -- any other character ends the specifier
          have hend : ∃ spec : Specifier, c = spec.char := exists_specifier hnul hhash
          obtain ⟨spec, rfl⟩ := hend
          rw [printfLoop_specifier, Option.isSome_map] at h
          obtain ⟨ds, rfl⟩ := ihOutside _ h
          exact ⟨0, spec, ds, rfl⟩

/-- `printf` stays inside a format string exactly if no specifier is cut off by its end. -/
theorem printfLoop_isSome_iff {format : CString} (hclean : (0 : UInt8) ∉ format) (n : Nat) :
    (printfLoop args .outside n format).isSome = true ↔ ∃ ds, format = formatOf ds := by
  constructor
  · exact (exists_directives args hclean).1 n
  · rintro ⟨ds, rfl⟩
    rw [printfLoop_format]
    rfl

end Loop

/-! ## Numbers as text -/

theorem zero_not_mem_formatOf (ds : List Directive) : (0 : UInt8) ∉ formatOf ds := by
  intro hmem
  obtain ⟨d, _, hzero⟩ := List.mem_flatMap.mp hmem
  cases d with
  | plain c h => exact h.1 (List.mem_singleton.mp hzero).symm
  | conversion hashes spec =>
      rw [Directive.format, List.mem_cons, List.mem_append, List.mem_singleton] at hzero
      rcases hzero with h | h | h
      · exact absurd h (by decide)
      · exact absurd (List.eq_of_mem_replicate h) (by decide)
      · exact spec.char_ne_zero h.symm

theorem strlen_eq_length {s : CString} (hclean : (0 : UInt8) ∉ s) : s.strlen = s.length := by
  induction s with
  | nil => rfl
  | cons c s ih =>
      have hne : c ≠ 0 := fun h => hclean (h ▸ List.mem_cons_self)
      rw [CString.strlen, if_neg hne, ih fun h => hclean (List.mem_cons_of_mem c h),
        List.length_cons]

/-- For every word, every radix from 2 to 36 and whatever the buffer holds before, `itoa` leaves a
string that has no leading zero and reads back to the word; and `printf` prints the text of
each directive of its format string, where `%#x` has eight digits. -/
theorem numberFormat_exact :
    (∀ (value radix : Word) (buf : Nat → UInt8), 2 ≤ radix.toNat → radix.toNat ≤ 36 →
      ∃ buf' text, itoa value buf radix = some buf' ∧ putsText itoaSize buf' = some text ∧
        IsNumeral digitChar radix.toNat value.toNat text) ∧
    (∀ (args : PrintfArgs) (v : Video) (ds : List Directive), printf args v (formatOf ds) =
      some (v.puts (textOf args 0 ds), ((formatOf ds).length : Int))) ∧
    ∀ value, (paddedHex value).length = 8 := by
  refine ⟨fun value radix buf hlow hhigh => ?_, fun args v ds => ?_, length_paddedHex⟩
  · have hclean := zero_not_mem_numeral (n := value.toNat) hlow hhigh
    have hlen := length_numeral_lt_itoaSize hlow value
    refine ⟨_, _, itoa_eq hlow hhigh value buf, putsText_overwrite hclean hlen, ?_⟩
    apply (isNumeral_iff (by omega) _).mpr rfl
    intro i j hi hj
    exact digitChar_injective (by omega) (by omega)
  · rw [printf, printfLoop_format, Option.map_some, strlen_eq_length (zero_not_mem_formatOf ds)]

/-- The largest word in base 36, and the least signed word in a format string. -/
theorem numberFormat_exact_extremes :
    (∃ buf' text, itoa 0xFFFFFFFF (fun _ => 7) 36 = some buf' ∧
      putsText itoaSize buf' = some text ∧ IsNumeral digitChar 36 0xFFFFFFFF text) ∧
    ∀ v : Video, printf ⟨fun _ => 0x80000000, fun _ => [], fun _ _ => 7⟩ v [37, 100] =
      some (v.puts (signedDecimal 0x80000000), 2) :=
  ⟨numberFormat_exact.1 0xFFFFFFFF 36 (fun _ => 7) (by decide) (by decide),
    fun v => (numberFormat_exact.2.1 ⟨fun _ => 0x80000000, fun _ => [], fun _ _ => 7⟩ v
      [.conversion 0 .signed]).trans (by simp [textOf, Directive.text, Specifier.text, formatOf,
        Directive.format, Specifier.char])⟩

end Ece391Os
