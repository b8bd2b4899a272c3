import Mathlib.Data.Nat.Digits.Lemmas

/-!
# Positional numerals

Texts that write a number in a base, over any symbols for the digits. A text is the numeral of a
number if it reads back to the number by Horner's rule and has no leading zero; the digits of the
number, from the highest one on, are the only such text (`isNumeral_iff`).
-/

set_option autoImplicit false

namespace Numeral

variable {α : Type*}

/-- The numeral of `n` in base `b`, where `sym d` writes the digit `d`. -/
def numeral (sym : Nat → α) (b n : Nat) : List α :=
  if n = 0 then [sym 0] else ((Nat.digits b n).map sym).reverse

/-- The digit below `b` that a symbol writes. -/
def digitOf [DecidableEq α] (sym : Nat → α) (b : Nat) (c : α) : Option Nat :=
  (List.range b).find? fun d => sym d = c

/-- Horner's rule: a text is read from the left, behind a text with the value `acc`. -/
def readFrom [DecidableEq α] (sym : Nat → α) (b : Nat) : Nat → List α → Option Nat
  | acc, [] => some acc
  | acc, c :: text => (digitOf sym b c).bind fun d => readFrom sym b (acc * b + d) text

/-- The text writes `n` in base `b`: it has no leading zero, except for the number `0` itself, and
reads back to `n`. -/
structure IsNumeral [DecidableEq α] (sym : Nat → α) (b n : Nat) (text : List α) : Prop where
  nonempty : text ≠ []
  lead : text.head? = some (sym 0) → text = [sym 0]
  reads : readFrom sym b 0 text = some n

variable {sym : Nat → α} {b n : Nat}

theorem numeral_zero : numeral sym b 0 = [sym 0] := if_pos rfl

theorem numeral_of_ne (hn : n ≠ 0) : numeral sym b n = ((Nat.digits b n).map sym).reverse :=
  if_neg hn

/-- A number below `b ^ k` has a numeral of at most `k` digits. -/
theorem length_numeral_le {k : Nat} (hb : 1 < b) (hk : 0 < k) (hn : n < b ^ k) :
    (numeral sym b n).length ≤ k := by
  rw [numeral]
  split
  · exact hk
  · rw [List.length_reverse, List.length_map]
    exact (Nat.digits_length_le_iff hb n).mpr hn

/-- The symbols of a numeral write digits of the base. -/
theorem exists_digit_of_mem_numeral {c : α} (hb : 1 < b) (hc : c ∈ numeral sym b n) :
    ∃ d, d < b ∧ sym d = c := by
  rw [numeral] at hc
  split at hc
  · exact ⟨0, by omega, (List.mem_singleton.mp hc).symm⟩
  · obtain ⟨d, hd, rfl⟩ := List.mem_map.mp (List.mem_reverse.mp hc)
    exact ⟨d, Nat.digits_lt_base hb hd, rfl⟩

/-! ## Reading back -/

section Read

variable [DecidableEq α]

theorem digitOf_some {c : α} {d : Nat} (h : digitOf sym b c = some d) : d < b ∧ sym d = c := by
  have hmem := List.mem_of_find?_eq_some h
  have hsym := List.find?_some h
  exact ⟨List.mem_range.mp hmem, of_decide_eq_true hsym⟩

/-- Symbols that tell the digits of the base apart can be read. -/
theorem digitOf_sym {d : Nat} (hinj : ∀ i j, i < b → j < b → sym i = sym j → i = j) (hd : d < b) :
    digitOf sym b (sym d) = some d := by
  have hfound : (digitOf sym b (sym d)).isSome = true :=
    List.find?_isSome.mpr ⟨d, List.mem_range.mpr hd, decide_eq_true rfl⟩
  obtain ⟨e, he⟩ := Option.isSome_iff_exists.mp hfound
  obtain ⟨heb, hsym⟩ := digitOf_some he
  rw [he, hinj e d heb hd hsym]

theorem readFrom_append (acc : Nat) (s t : List α) :
    readFrom sym b acc (s ++ t) = (readFrom sym b acc s).bind fun a => readFrom sym b a t := by
  induction s generalizing acc with
  | nil => rfl
  | cons c s ih =>
      rw [List.cons_append, readFrom, readFrom]
      cases digitOf sym b c with
      | none => rfl
      | some d => exact ih _

/-- The symbols of a list of digits, the lowest of which stands first, read back. -/
theorem readFrom_digits (hinj : ∀ i j, i < b → j < b → sym i = sym j → i = j) {ds : List Nat}
    (hds : ∀ d ∈ ds, d < b) :
    readFrom sym b 0 (ds.map sym).reverse = some (Nat.ofDigits b ds) := by
  induction ds with
  | nil => rfl
  | cons d ds ih =>
      have hd := hds d List.mem_cons_self
      have hrest := ih fun e he => hds e (List.mem_cons_of_mem d he)
      rw [List.map_cons, List.reverse_cons, readFrom_append, hrest, Option.bind_some, readFrom,
        digitOf_sym hinj hd, Option.bind_some, readFrom, Nat.ofDigits_cons]
      congr 1
      rw [Nat.mul_comm, Nat.add_comm]

/-- A text that reads back is made of the symbols of digits. -/
theorem exists_digits_of_readFrom {text : List α} (h : readFrom sym b 0 text = some n) :
    ∃ ds, (∀ d ∈ ds, d < b) ∧ text = (ds.map sym).reverse ∧ Nat.ofDigits b ds = n := by
  -- from the right end: the last symbol is the lowest digit
  induction text using List.reverseRecOn generalizing n with
  | nil => exact ⟨[], nofun, rfl, Option.some.inj h⟩
  | append_singleton text c ih =>
      rw [readFrom_append] at h
      obtain ⟨a, ha, hlast⟩ := Option.bind_eq_some_iff.mp h
      rw [readFrom] at hlast
      obtain ⟨d, hd, hn⟩ := Option.bind_eq_some_iff.mp hlast
      obtain ⟨hdb, rfl⟩ := digitOf_some hd
      obtain ⟨ds, hds, rfl, rfl⟩ := ih ha
      refine ⟨d :: ds, ?_, by rw [List.map_cons, List.reverse_cons], ?_⟩
      · intro e he
        rcases List.mem_cons.mp he with rfl | he
        · exact hdb
        · exact hds e he
      · rw [Nat.ofDigits_cons, ← Option.some.inj hn, Nat.mul_comm, Nat.add_comm]

/-- The digits of a number are a numeral of it. -/
theorem isNumeral_numeral (hb : 1 < b)
    (hinj : ∀ i j, i < b → j < b → sym i = sym j → i = j) (n : Nat) :
    IsNumeral sym b n (numeral sym b n) := by
  by_cases hn : n = 0
  · subst hn
    rw [numeral_zero]
    refine ⟨List.cons_ne_nil _ _, fun _ => rfl, ?_⟩
    rw [readFrom, digitOf_sym hinj (by omega), Option.bind_some, readFrom, Nat.zero_mul]
  · rw [numeral_of_ne hn]
    have hne : Nat.digits b n ≠ [] := Nat.digits_ne_nil_iff_ne_zero.mpr hn
    have hdigits : ∀ d ∈ Nat.digits b n, d < b := fun d hd => Nat.digits_lt_base hb hd
    refine ⟨fun hnil => ?_, fun hlead => ?_, ?_⟩
    · exact hne (List.map_eq_nil_iff.mp (List.reverse_eq_nil_iff.mp hnil))
    · -- the leading symbol is that of the highest digit, which is not `0`
      rw [List.head?_reverse, List.getLast?_map, List.getLast?_eq_some_getLast hne,
        Option.map_some] at hlead
      have hzero := hinj _ 0 (hdigits _ (List.getLast_mem hne)) (by omega)
        (Option.some.inj hlead)
      exact absurd hzero (Nat.getLast_digit_ne_zero b hn)
    · rw [readFrom_digits hinj hdigits, Nat.ofDigits_digits]

/-- The numeral is the only text that has no leading zero and reads back to the number. -/
theorem isNumeral_iff (hb : 1 < b) (hinj : ∀ i j, i < b → j < b → sym i = sym j → i = j)
    {text : List α} : IsNumeral sym b n text ↔ text = numeral sym b n := by
  constructor
  · intro h
    obtain ⟨ds, hds, htext, rfl⟩ := exists_digits_of_readFrom h.reads
    have hne : ds ≠ [] := by
      rintro rfl
      exact h.nonempty htext
    by_cases hhigh : ds.getLast hne = 0
    · -- the text starts with a zero, so it is nothing but the zero
      have hlead : text = [sym 0] := by
        apply h.lead
        rw [htext, List.head?_reverse, List.getLast?_map, List.getLast?_eq_some_getLast hne,
          Option.map_some, hhigh]
      have hlen : ds.length = 1 := by
        have := congrArg List.length (htext.symm.trans hlead)
        simpa using this
      obtain ⟨d, rfl⟩ := List.length_eq_one_iff.mp hlen
      obtain rfl : d = 0 := hhigh
      rw [hlead, Nat.ofDigits_singleton, numeral_zero]
    · have hdigits := Nat.digits_ofDigits b hb ds hds fun _ => hhigh
      have hvalue : Nat.ofDigits b ds ≠ 0 := by
        intro hzero
        rw [hzero, Nat.digits_zero] at hdigits
        exact hne hdigits.symm
      rw [numeral_of_ne hvalue, hdigits, htext]
  · rintro rfl
    exact isNumeral_numeral hb hinj n

end Read

end Numeral
