import Mathlib.Data.List.Basic
import Mathlib.Data.List.Infix

/-!
# Lines of a bounded width

A text is cut at its line ends, and a line that reaches the width is cut there. `cut` is a scanner:
it carries the line that it has begun, so a text may come in parts, and `cut_append` and its
siblings say what a part does.
-/

set_option autoImplicit false

universe u

namespace BoundedLines

variable {α : Type u} [DecidableEq α]

/-- The lines of a text behind the begun line `cur`. -/
def cut (nl : α) (width : Nat) (cur : List α) : List α → List (List α)
  | [] => if cur = [] then [] else [cur]
  | c :: text =>
      if c = nl then cur :: cut nl width [] text
      else if cur.length + 1 = width then (cur ++ [c]) :: cut nl width [] text
      else cut nl width (cur ++ [c]) text

variable {nl : α} {width : Nat} {cur part text : List α}

@[simp] theorem cut_nil_nil : cut nl width [] [] = [] := rfl

theorem cut_nil (h : cur ≠ []) : cut nl width cur [] = [cur] := if_neg h

theorem cut_newline : cut nl width cur (nl :: text) = cur :: cut nl width [] text := if_pos rfl

/-- A part without line end that stays below the width lengthens the begun line. -/
theorem cut_append (hpart : nl ∉ part) (hwidth : cur.length + part.length < width) :
    cut nl width cur (part ++ text) = cut nl width (cur ++ part) text := by
  induction part generalizing cur with
  | nil => rw [List.nil_append, List.append_nil]
  | cons c part ih =>
      rw [List.length_cons] at hwidth
      have hc : c ≠ nl := fun h => hpart (h ▸ List.mem_cons_self)
      have hrest : nl ∉ part := fun h => hpart (List.mem_cons_of_mem c h)
      rw [List.cons_append, cut, if_neg hc, if_neg (by omega), ih hrest, List.append_assoc]
      · rfl
      · rw [List.length_append, List.length_singleton]
        omega

/-- A part that reaches the width ends the line. -/
theorem cut_full (hpart : nl ∉ part) (hne : part ≠ []) (hwidth : cur.length + part.length = width) :
    cut nl width cur (part ++ text) = (cur ++ part) :: cut nl width [] text := by
  obtain ⟨init, c, rfl⟩ := (List.eq_nil_or_concat part).resolve_left hne
  rw [List.concat_eq_append] at hpart hwidth ⊢
  rw [List.length_append, List.length_singleton] at hwidth
  have hinit : nl ∉ init := fun h => hpart (List.mem_append_left _ h)
  have hc : c ≠ nl := fun h => hpart (List.mem_append_right _ (h ▸ List.mem_singleton_self nl))
  rw [List.append_assoc, cut_append hinit (by omega), List.singleton_append, cut, if_neg hc,
    if_pos (by rw [List.length_append]; omega), List.append_assoc]

/-- A begun line may as well be read again. -/
theorem cut_begun (hcur : nl ∉ cur) (hwidth : cur.length < width) :
    cut nl width cur text = cut nl width [] (cur ++ text) := by
  have hempty : ([] : List α).length + cur.length < width := by
    rw [List.length_nil, Nat.zero_add]
    exact hwidth
  rw [cut_append hcur hempty, List.nil_append]

/-- A line and its end. -/
theorem cut_line (hpart : nl ∉ part) (hwidth : part.length < width) :
    cut nl width [] (part ++ nl :: text) = part :: cut nl width [] text := by
  rw [← cut_begun hpart hwidth, cut_newline]

/-! ## Occurrences -/

omit [DecidableEq α] in
/-- A word occurs in a line at the indices where all its elements are found. -/
theorem isInfix_iff {w l : List α} :
    w <:+: l ↔ ∃ i, i + w.length ≤ l.length ∧ ∀ j, j < w.length → l[i + j]? = w[j]? := by
  constructor
  · rintro ⟨s, t, rfl⟩
    refine ⟨s.length, by simp only [List.length_append]; omega, fun j hj => ?_⟩
    rw [List.append_assoc, List.getElem?_append_right (Nat.le_add_right _ _),
      Nat.add_sub_cancel_left, List.getElem?_append_left hj]
  · rintro ⟨i, hle, hall⟩
    have hw : w = (l.drop i).take w.length := by
      apply List.ext_getElem?
      intro j
      by_cases hj : j < w.length
      · rw [List.getElem?_take_of_lt hj, List.getElem?_drop, hall j hj]
      · rw [List.getElem?_eq_none (by omega), List.getElem?_eq_none]
        rw [List.length_take]
        omega
    rw [hw]
    exact (List.take_prefix _ _).isInfix.trans (List.drop_suffix _ _).isInfix

end BoundedLines
