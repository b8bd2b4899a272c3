import Ece391Os.Model.FileSystem
import Ece391Os.Model.Screen
import Mathlib.Data.Fintype.Basic
import Mathlib.Data.List.Find
import Mathlib.Tactic.FinCases

/-!
# `read_buffer` and `terminal_read`

The rows of `read_buffer` lie one behind the other, so an index past the end of a row is one in the
next. `terminal_read` behind its wait loop stores a `NUL` in the row of its terminal, looks for the
newline, with no regard to the end of the array, and copies the row out.
-/

set_option autoImplicit false

namespace Ece391Os

/-! ## The array of rows -/

/-- The row and the index in it of the byte `read_buffer[t][i]`; the memory behind the array counts
to its last row. -/
def readAddress (t : Terminal) (i : Nat) : Terminal × Nat :=
  let j := maxBufferSize * t.val + i
  if j < maxBufferSize then (0, j)
  else if j < 2 * maxBufferSize then (1, j - maxBufferSize)
  else (2, j - 2 * maxBufferSize)

/-- A load of `read_buffer[t][i]`. -/
def readByte (rows : Terminal → Row) (t : Terminal) (i : Nat) : UInt8 :=
  rows (readAddress t i).1 (readAddress t i).2

/-- The assignment `read_buffer[t][i] = c`. -/
def setReadByte (rows : Terminal → Row) (t : Terminal) (i : Nat) (c : UInt8) : Terminal → Row :=
  let a := readAddress t i
  Function.update rows a.1 (Function.update (rows a.1) a.2 c)

/-! ## `terminal_read` -/

/-- `terminal_read` up to its wait loop. -/
def startRead (k : Kernel) : Kernel :=
  { k with
    terms := { k.terms with
      returnSwitch := Function.update k.terms.returnSwitch k.sched.currentProcess .on }
    interrupts := true }

/-- The bytes from `read_buffer[t][0]` to the end of the array. -/
def bytesLeft (t : Terminal) : Nat := 3 * maxBufferSize - maxBufferSize * t.val

/-- The index at which the scan for the newline ends. One that leaves the array goes on in the
memory behind it, where the next newline stands `beyond` bytes behind the end. -/
def scanNewline (rows : Terminal → Row) (t : Terminal) (beyond : Nat) : Nat :=
  ((List.range (bytesLeft t)).find? fun i => readByte rows t i = 10).getD (bytesLeft t + beyond)

/-- `terminal_read` behind its wait loop: the value that it returns, the line that `strncpy`
delivers, and the kernel. -/
def finishRead (k : Kernel) (nbytes beyond : Nat) : Int × List UInt8 × Kernel :=
  let cip := k.sched.currentProcess
  -- the last byte that is copied becomes a `NUL`, even where it was the newline
  let rows := setReadByte k.terms.readBuffer cip (nbytes - 1) 0
  ((scanNewline rows cip beyond : Int) + 1,
    CString.text ((List.range nbytes).map (readByte rows cip)),
    { k with
      terms := { k.terms with readBuffer := rows }
      video := k.video.nextLine
      interrupts := true })

/-! ## A row and its neighbours -/

section Rows

variable {rows : Terminal → Row} {i j : Nat}

/-- An index in the row is one of the terminal's own row. -/
theorem readAddress_own (t : Terminal) (hi : i < maxBufferSize) : readAddress t i = (t, i) := by
  have hsize : maxBufferSize = 128 := rfl
  rw [hsize] at hi
  fin_cases t
  · simp only [readAddress, hsize, Nat.mul_zero, Nat.zero_add]
    exact if_pos hi
  · simp only [readAddress, hsize]
    rw [if_neg (by simp), if_pos (by simp; omega)]
    simp
  · simp only [readAddress, hsize]
    rw [if_neg (by simp; omega), if_neg (by simp)]
    simp

theorem readByte_own (rows : Terminal → Row) (t : Terminal) (hi : i < maxBufferSize) :
    readByte rows t i = rows t i := by
  rw [readByte, readAddress_own t hi]

theorem setReadByte_own (rows : Terminal → Row) (t : Terminal) (c : UInt8)
    (hi : i < maxBufferSize) :
    setReadByte rows t i c = Function.update rows t (Function.update (rows t) i c) := by
  rw [setReadByte, readAddress_own t hi]

/-- An index behind the row is none of the row. -/
theorem readAddress_behind (t : Terminal) (hj : maxBufferSize ≤ j)
    (hrow : (readAddress t j).1 = t) : maxBufferSize ≤ (readAddress t j).2 := by
  have hsize : maxBufferSize = 128 := rfl
  rw [hsize] at hj ⊢
  revert hrow
  fin_cases t
  · -- from the first row on, an index behind it lies in the second or in the third one
    simp only [readAddress, hsize, Nat.mul_zero, Nat.zero_add]
    rw [if_neg (by omega)]
    split
    · intro hrow
      exact absurd hrow (show (1 : Terminal) ≠ 0 by decide)
    · intro hrow
      exact absurd hrow (show (2 : Terminal) ≠ 0 by decide)
  · simp only [readAddress, hsize]
    -- from the second row on, it lies in the third one
    rw [if_neg (by simp), if_neg (by simp; omega)]
    intro hrow
    exact absurd hrow (show (2 : Terminal) ≠ 1 by decide)
  · simp only [readAddress, hsize]
    -- the third row is the last one: the index stays in its numbering
    rw [if_neg (by simp; omega), if_neg (by simp)]
    intro _
    simp only
    omega

/-- The store of a byte, seen from the row of the terminal. -/
theorem setReadByte_row (rows : Terminal → Row) (t : Terminal) (i : Nat) (c : UInt8)
    (hj : j < maxBufferSize) :
    setReadByte rows t i c t j = Function.update (rows t) i c j := by
  rcases Nat.lt_or_ge i maxBufferSize with hin | hbehind
  · rw [setReadByte_own rows t c hin, Function.update_self]
  · rw [Function.update_of_ne (by omega), setReadByte]
    by_cases hrow : (readAddress t i).1 = t
    · have hindex := readAddress_behind t hbehind hrow
      rw [hrow, Function.update_self, Function.update_of_ne (by omega)]
    · rw [Function.update_of_ne (Ne.symm hrow)]

/-! ## The scan -/

variable {t : Terminal} {beyond : Nat}

theorem maxBufferSize_le_bytesLeft (t : Terminal) : maxBufferSize ≤ bytesLeft t := by
  have ht := t.isLt
  have hsize : maxBufferSize = 128 := rfl
  rw [bytesLeft, hsize]
  omega

/-- The scan ends at the first newline, if there is one in the array. -/
theorem scanNewline_eq (hi : i < bytesLeft t) (hnewline : readByte rows t i = 10)
    (hfirst : ∀ j, j < i → readByte rows t j ≠ 10) : scanNewline rows t beyond = i := by
  have hfind : (List.range (bytesLeft t)).find? (fun i => readByte rows t i = 10) = some i := by
    rw [List.find?_range_eq_some]
    refine ⟨decide_eq_true hnewline, List.mem_range.mpr hi, fun j hj => ?_⟩
    simpa using hfirst j hj
  rw [scanNewline, hfind, Option.getD_some]

/-- No newline stands in front of the end of the scan. -/
theorem lt_scanNewline (hi : i < bytesLeft t) (hnone : ∀ j, j ≤ i → readByte rows t j ≠ 10) :
    i < scanNewline rows t beyond := by
  rw [scanNewline]
  cases hfind : (List.range (bytesLeft t)).find? (fun i => readByte rows t i = 10) with
  | none =>
      rw [Option.getD_none]
      omega
  | some n =>
      obtain ⟨hnewline, -, -⟩ := List.find?_range_eq_some.mp hfind
      rw [Option.getD_some]
      by_contra hle
      exact hnone n (Nat.not_lt.mp hle) (of_decide_eq_true hnewline)

end Rows

end Ece391Os
