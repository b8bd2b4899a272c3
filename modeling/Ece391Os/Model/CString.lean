import Mathlib.Data.List.Basic

/-!
# String functions of `lib.c`

A string argument is the list of the bytes at its address; behind the list stands
the terminating `NUL`, so a `NUL` inside the list ends the string early.
-/

set_option autoImplicit false

namespace Ece391Os

/-- A `NUL`-terminated string in memory. -/
abbrev CString := List UInt8

namespace CString

/-- The byte at index `i`. -/
def charAt (s : CString) (i : Nat) : UInt8 := s.getD i 0

/-- `strlen`. -/
def strlen : CString → Nat
  | [] => 0
  | c :: s => if c = 0 then 0 else strlen s + 1

/-- The text of the string, up to its first `NUL`. -/
def text (s : CString) : List UInt8 := s.takeWhile (· ≠ 0)

theorem strlen_eq_length_text (s : CString) : s.strlen = s.text.length := by
  induction s with
  | nil => rfl
  | cons c s ih =>
      by_cases hc : c = 0
      · simp [strlen, text, hc]
      · simp only [strlen, text, if_neg hc]
        rw [List.takeWhile_cons_of_pos (by simpa using hc), List.length_cons, ih, text]

end CString

/-- The loop of `strlen` on the memory at `s`, from index `len` on; `none` if there is no `NUL`
among the next `fuel` bytes. -/
def strlenFrom (s : Nat → UInt8) : Nat → Nat → Option Nat
  | 0, _ => none
  | fuel + 1, len => if s len = 0 then some len else strlenFrom s fuel (len + 1)

/-- The loop stops at the first `NUL`. -/
theorem strlenFrom_eq {s : Nat → UInt8} {fuel len n : Nat} (hlen : len ≤ n) (hfuel : n < len + fuel)
    (hchars : ∀ j, len ≤ j → j < n → s j ≠ 0) (hend : s n = 0) :
    strlenFrom s fuel len = some n := by
  induction fuel generalizing len with
  | zero => omega
  | succ fuel ih =>
      rw [strlenFrom]
      rcases Nat.eq_or_lt_of_le hlen with rfl | hlt
      · rw [if_pos hend]
      · rw [if_neg (hchars len (Nat.le_refl len) hlt)]
        exact ih hlt (by omega) fun j hj => hchars j (by omega)

/-- A byte read as the signed `char` of the source. -/
def signedByte (b : UInt8) : Int := b.toBitVec.toInt

/-- `strncmp` from index `i`, with `n` bytes left to compare. -/
def strncmpFrom (s1 s2 : Nat → UInt8) : Nat → Nat → Int
  | 0, _ => 0
  | n + 1, i =>
      if s1 i ≠ s2 i ∨ s1 i = 0 then signedByte (s1 i) - signedByte (s2 i)
      else strncmpFrom s1 s2 n (i + 1)

/-- `strncmp`. -/
def strncmp (s1 s2 : Nat → UInt8) (n : Nat) : Int := strncmpFrom s1 s2 n 0

/-- `strncpy` as the function of the index it leaves in `dest`: the source up to its
first `NUL`, then `NUL` bytes up to index `n`. -/
def strncpy (dest : Nat → UInt8) (src : CString) (n : Nat) : Nat → UInt8 := fun i =>
  if i < n then src.text.getD i 0 else dest i

end Ece391Os
