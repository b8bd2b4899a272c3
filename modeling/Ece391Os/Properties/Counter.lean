import Ece391Os.Properties.NumberFormat
import Ece391Os.Properties.ShellCommands

/-!
# Counting

`counter` asks for a number and prints the decimal numerals from `1` up to the bound that goes with
it, one on each line. The numerals are those of `ece391_itoa`.
-/

set_option autoImplicit false

namespace Ece391Os

open Interaction Program PaddedText Numeral

/-- The lines with the `rem` numerals behind `i`. -/
def countLines (rem i : Nat) : List UInt8 :=
  (List.range' (i + 1) rem).flatMap fun n => numeral digitChar 10 n ++ [10]

/-- The bound for a choice. -/
def countBound (c : UInt8) : Nat :=
  if c = 48 then 100 else if c = 49 then 10000 else if c = 50 then 100000 else 0

/-- What `counter` prints when the line `t` is typed. -/
def counterText : List UInt8 → List UInt8
  | [] => []
  | [c] => if c < 48 ∨ c > 50 then bytesOf "Wrong Choice!\n" else countLines (countBound c) 0
  | _ => bytesOf "Wrong Choice!\n"

section Counting

variable {img : FsImage} {env : Environment} {p : Pid} {v : View} {s : UserProcess} {b : Buffer}

/-- A text and its terminator that have been written over the beginning of an array. -/
theorem holds_overwrite {t : List UInt8} (hclean : (0 : UInt8) ∉ t) (hsize : t.length < b.size) :
    ({ b with bytes := overwrite 0 (t ++ [0]) b.bytes } : Buffer).Holds t where
  inside := hsize
  chars := by
    intro i hi
    show overwrite 0 (t ++ [0]) b.bytes i = t.getD i 0
    rw [overwrite_append, if_pos hi]
  nul := by
    show overwrite 0 (t ++ [0]) b.bytes t.length = 0
    rw [overwrite_append, if_neg (lt_irrefl _), Nat.sub_self]
    rfl
  clean := hclean

/-- `ece391_itoa` leaves the numeral in the array. -/
theorem itoa_holds (hsize : itoaSize ≤ b.size) (value : Word) :
    ∃ b', ece391Itoa value b 10 = some b' ∧ b'.size = b.size ∧
      b'.Holds (numeral digitChar 10 value.toNat) := by
  have hlen := length_decimal_le value.isLt
  have hitoa : itoaSize = 33 := rfl
  have hholds := holds_overwrite (b := b) (zero_not_mem_decimal value.toNat) (by omega)
  refine ⟨_, ?_, ?_, hholds⟩
  · rw [ece391Itoa, if_pos hsize, itoa_decimal]
    rfl
  · rfl

theorem countLines_succ (rem i : Nat) :
    countLines (rem + 1) i = numeral digitChar 10 (i + 1) ++ [10] ++ countLines rem (i + 1) := by
  rw [countLines, List.range'_succ, List.flatMap_cons]
  rfl

/-- The loop. -/
theorem ensures_countLoop {rem i : Nat} (h : Sees p v s) (hkeeps : env.Keeps p)
    (hsize : itoaSize ≤ b.size) (hword : i + rem < 2 ^ 32) :
    Ensures (answer img env) (countLoop rem i b) s fun status s' =>
      status = 0 ∧ Sees p { v with written := v.written ++ countLines rem i } s' := by
  induction rem generalizing i b v s with
  | zero =>
      apply ensures_pure
      refine ⟨rfl, ?_⟩
      rw [countLines, List.range'_zero, List.flatMap_nil, List.append_nil]
      exact h
  | succ rem ih =>
      obtain ⟨b', hitoa, hsize', hholds⟩ := itoa_holds hsize (BitVec.ofNat 32 (i + 1))
      have hvalue : (BitVec.ofNat 32 (i + 1)).toNat = i + 1 := by
        rw [BitVec.toNat_ofNat, Nat.mod_eq_of_lt (by omega)]
      rw [hvalue] at hholds
      apply Ensures.require hitoa
      apply (ensures_fdputs h hkeeps hholds).seq
      intro _ s₁ h₁
      apply (ensures_fdputs h₁ hkeeps (literal_holds (s := "\n") (by decide))).seq
      intro _ s₂ h₂
      apply (ih h₂ (hsize'.symm ▸ hsize) (by omega)).mono
      rintro status s' ⟨hstatus, hsees⟩
      refine ⟨hstatus, ?_⟩
      have hnewline : bytesOf "\n" = [10] := rfl
      rw [countLines_succ, ← List.append_assoc, ← List.append_assoc, ← hnewline]
      exact hsees

/-- `counter` prints what goes with the line that it reads, and ends with status `0`. -/
theorem ensures_counter (h : Sees p v s) (hkeeps : env.Keeps p) (honly : OnlyConsole v.fds)
    {t : List UInt8} (hline : TypedLine (env.typed v.reads) t) (stack : Nat → UInt8) :
    Ensures (answer img env) (counter stack) s fun status s' => status = 0 ∧
      s'.written = v.written ++
        bytesOf "Enter the Test Number: (0): 100, (1): 10000, (2): 100000\n" ++ counterText t := by
  have hinside := hline.inside
  have hmax : maxBufferSize = 128 := rfl
  have hbuf : bufsize = 1024 := rfl
  apply (ensures_fdputs h hkeeps (literal_holds (by decide))).seq
  intro _ s₁ hsees₁
  apply (ensures_read_console hsees₁ hkeeps honly.stdin honly.in_use hline (b := ⟨bufsize, stack⟩)
    (n := 1023) (by omega) (by show 1023 ≤ bufsize; omega)).seq
  rintro ⟨cnt, b⟩ s₂ ⟨rfl, hfilled, hsees₂⟩
  have hlen : (t ++ [10]).length = t.length + 1 := List.length_append
  have hsize : b.size = bufsize := hfilled.size_eq
  have hclean : (0 : UInt8) ∉ t ++ [10] := by
    simpa using hline.no_nul
  have hholds := hfilled.terminated hclean (by show _ < bufsize; omega)
  rw [hlen] at hholds
  have hcast : (t.length : Int) + 1 = ((t.length + 1 : Nat) : Int) := rfl
  simp only [if_neg (by omega : ¬ (t.length : Int) + 1 = -1)]
  rw [hcast]
  apply Ensures.require (Buffer.store_of_lt (by omega) 0)
  apply Ensures.require hholds.strlen
  apply Ensures.require (Buffer.load_of_lt (i := 0) (by show 0 < b.size; omega))
  have hfirst := hholds.chars 0 (by omega)
  have hsees : Sees p { v with
      reads := v.reads + 1
      written := v.written ++
        bytesOf "Enter the Test Number: (0): 100, (1): 10000, (2): 100000\n" } s₂ := hsees₂
  rw [hlen, hfirst]
  -- the line that is compared ends with the newline, so `strlen` is one more than its length
  have hwrong : Ensures (answer img env)
      (do ece391Fdputs 1 (literal "Wrong Choice!\n"); pure (0 : Int)) s₂ fun status s' =>
        status = 0 ∧ s'.written = v.written ++
          bytesOf "Enter the Test Number: (0): 100, (1): 10000, (2): 100000\n" ++
            bytesOf "Wrong Choice!\n" :=
    (ensures_message hsees hkeeps (by decide) 0).mono fun _ _ h => ⟨h.1, h.2.written⟩
  have hitoa : itoaSize = 33 := rfl
  have hcount : ∀ max, max ≤ 100000 → Ensures (answer img env)
      (countLoop max 0 ⟨b.size, Function.update b.bytes (t.length + 1) 0⟩) s₂ fun status s' =>
        status = 0 ∧ s'.written = v.written ++
          bytesOf "Enter the Test Number: (0): 100, (1): 10000, (2): 100000\n" ++
            countLines max 0 := by
    intro max hle
    apply (ensures_countLoop hsees hkeeps (by show itoaSize ≤ b.size; omega) (by omega)).mono
    exact fun _ _ h => ⟨h.1, h.2.written⟩
  match t with
  | [] => exact hcount 0 (Nat.zero_le _)
  | [c] =>
      rw [counterText]
      by_cases hc : c < 48 ∨ c > 50
      · rw [if_pos (Or.inr ⟨rfl, hc⟩), if_pos hc]
        exact hwrong
      · rw [if_neg (by rintro (hlong | ⟨-, hout⟩); exacts [absurd hlong (by simp), hc hout]),
          if_neg hc]
        exact hcount (countBound c) (by rw [countBound]; split_ifs <;> omega)
  | c :: d :: t =>
      rw [if_pos (Or.inl (by simp only [List.length_cons]; omega))]
      exact hwrong

end Counting

end Ece391Os
