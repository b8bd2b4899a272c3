import Mathlib.Data.List.GetD
import Mathlib.Data.List.TakeWhile
import Mathlib.Order.Basic
import Mathlib.Tactic.ByContra

/-!
# Texts in padded arrays

An array holds a text when the text stands at its beginning and nothing but padding behind it.
Reading such an array up to the first padding element gives the text back. Copying another text
over it without a terminator leaves the tail of the old text behind a shorter new one.
-/

set_option autoImplicit false

namespace PaddedText

variable {α : Type*}

/-- The array holds the text `t`, padded with `z`. -/
structure Holds (z : α) (a : Nat → α) (t : List α) : Prop where
  clean : z ∉ t
  eq : a = fun i => t.getD i z

/-- The text in the first `n` elements of an array. -/
def read [DecidableEq α] (z : α) (n : Nat) (a : Nat → α) : List α :=
  ((List.range n).map a).takeWhile (· ≠ z)

/-- A text copied over the beginning of an array, without a terminator. -/
def overwrite (z : α) (s : List α) (a : Nat → α) : Nat → α := fun i =>
  if i < s.length then s.getD i z else a i

variable {z : α} {a : Nat → α} {s t : List α} {n : Nat}

/-! ## Writing into any array -/

@[simp] theorem overwrite_nil (z : α) (a : Nat → α) : overwrite z [] a = a := by
  funext i
  exact if_neg (Nat.not_lt_zero i)

/-- One more element is written behind the text. -/
theorem update_overwrite (z : α) (s : List α) (a : Nat → α) (c : α) :
    Function.update (overwrite z s a) s.length c = overwrite z (s ++ [c]) a := by
  funext i
  rw [overwrite, List.length_append, List.length_singleton]
  rcases Nat.lt_trichotomy i s.length with hlt | rfl | hgt
  · rw [Function.update_of_ne (Nat.ne_of_lt hlt), overwrite, if_pos hlt, if_pos (by omega),
      List.getD_append _ _ _ _ hlt]
  · rw [Function.update_self, if_pos (Nat.lt_succ_self _),
      List.getD_append_right _ _ _ _ le_rfl, Nat.sub_self, List.getD_cons_zero]
  · rw [Function.update_of_ne (Nat.ne_of_gt hgt), overwrite, if_neg (by omega),
      if_neg (by omega)]

/-- A text in two parts is its first part, with the second one written behind that. -/
theorem overwrite_append (z : α) (s t : List α) (a : Nat → α) (i : Nat) :
    overwrite z (s ++ t) a i = if i < s.length then s.getD i z
      else overwrite z t (fun j => a (s.length + j)) (i - s.length) := by
  rw [overwrite, List.length_append]
  rcases Nat.lt_or_ge i s.length with hlt | hge
  · rw [if_pos hlt, if_pos (by omega), List.getD_append _ _ _ _ hlt]
  · have hsplit : s.length + (i - s.length) = i := by omega
    rw [if_neg (Nat.not_lt.mpr hge), overwrite, List.getD_append_right _ _ _ _ hge, hsplit]
    congr 1
    exact propext ⟨fun h => by omega, fun h => by omega⟩

/-! ## Reading any array -/

section Read

variable [DecidableEq α]

@[simp] theorem read_zero (z : α) (a : Nat → α) : read z 0 a = [] := rfl

/-- Reading takes the elements one after another. -/
theorem read_succ (z : α) (n : Nat) (a : Nat → α) :
    read z (n + 1) a = if a 0 = z then [] else a 0 :: read z n fun i => a (i + 1) := by
  have hrange : (List.range (n + 1)).map a = a 0 :: (List.range n).map fun i => a (i + 1) := by
    rw [List.range_succ_eq_map, List.map_cons, List.map_map]
    rfl
  rw [read, hrange, List.takeWhile_cons]
  by_cases hz : a 0 = z
  · rw [if_pos hz, if_neg (by simp [hz])]
  · rw [if_neg hz, if_pos (by simp [hz])]
    rfl

/-- The text ends at the first padding element, or at the end of the array. -/
theorem length_read_iff {m : Nat} :
    (read z n a).length = m ↔ m ≤ n ∧ (∀ i, i < m → a i ≠ z) ∧ (m < n → a m = z) := by
  -- over the width of the field; each round drops its first element
  induction n generalizing a m with
  | zero =>
      rw [read_zero, List.length_nil]
      constructor
      · rintro rfl
        exact ⟨le_rfl, fun i hi => by omega, fun h => by omega⟩
      · rintro ⟨hle, -, -⟩
        omega
  | succ n ih =>
      rw [read_succ]
      split
      next hz =>
        rw [List.length_nil]
        constructor
        · rintro rfl
          exact ⟨Nat.zero_le _, fun i hi => by omega, fun _ => hz⟩
        · rintro ⟨-, hall, -⟩
          by_contra hne
          exact hall 0 (by omega) hz
      next hz =>
        rw [List.length_cons]
        cases m with
        | zero =>
            refine ⟨fun h => by omega, fun h => ?_⟩
            exact absurd (h.2.2 (by omega)) hz
        | succ m =>
            -- the rest of the text is that of the array shifted by one
            rw [Nat.succ_inj, ih]
            constructor
            · rintro ⟨hle, hall, hend⟩
              refine ⟨by omega, fun i hi => ?_, fun h => hend (by omega)⟩
              cases i with
              | zero => exact hz
              | succ i => exact hall i (by omega)
            · rintro ⟨hle, hall, hend⟩
              exact ⟨by omega, fun i hi => hall (i + 1) (by omega), fun h => hend (by omega)⟩

theorem length_read_le (z : α) (n : Nat) (a : Nat → α) : (read z n a).length ≤ n :=
  (length_read_iff.mp rfl).1

/-- The elements of the text are those of the array. -/
theorem getD_read {i : Nat} (hi : i < (read z n a).length) (d : α) :
    (read z n a).getD i d = a i := by
  induction n generalizing a i with
  | zero => cases hi
  | succ n ih =>
      rw [read_succ] at hi ⊢
      split at hi
      · cases hi
      next hz =>
        rw [if_neg hz]
        cases i with
        | zero => rfl
        | succ i => exact ih (by simpa using hi)

/-- The text is determined by where it ends and what stands in front of that. -/
theorem read_eq_map {m : Nat} (hm : (read z n a).length = m) :
    read z n a = (List.range m).map a := by
  apply List.ext_getElem
  · rw [hm, List.length_map, List.length_range]
  · intro i hi hi'
    rw [List.getElem_map, List.getElem_range, ← List.getD_eq_getElem _ z hi, getD_read hi]

theorem not_mem_read (z : α) (n : Nat) (a : Nat → α) : z ∉ read z n a := by
  intro hmem
  have hne := List.mem_takeWhile_imp hmem
  simp at hne

end Read

/-! ## Padded arrays -/

/-- An array of padding holds the empty text. -/
theorem holds_nil (z : α) : Holds z (fun _ => z) [] where
  clean := List.not_mem_nil
  eq := rfl

/-- The first elements of a padded array. -/
theorem Holds.map_range (h : Holds z a t) (hn : t.length ≤ n) :
    (List.range n).map a = t ++ List.replicate (n - t.length) z := by
  rw [h.eq]
  apply List.ext_getElem
  · simp only [List.length_map, List.length_range, List.length_append, List.length_replicate]
    omega
  · intro i hi hi'
    simp only [List.getElem_map, List.getElem_range]
    rcases Nat.lt_or_ge i t.length with hlt | hge
    · rw [List.getElem_append_left hlt, List.getD_eq_getElem _ _ hlt]
    · rw [List.getElem_append_right hge, List.getElem_replicate,
        List.getD_eq_default _ _ hge]

/-- Reading gives the text back. -/
theorem Holds.read_eq [DecidableEq α] (h : Holds z a t) (hn : t.length ≤ n) : read z n a = t := by
  have hall : ∀ c ∈ t, decide (c ≠ z) = true := by
    intro c hc
    exact decide_eq_true fun heq => h.clean (heq ▸ hc)
  have hpad : (List.replicate (n - t.length) z).takeWhile (· ≠ z) = [] := by
    cases n - t.length with
    | zero => rfl
    | succ m => simp [List.replicate_succ]
  rw [read, h.map_range hn, List.takeWhile_append_of_pos hall, hpad, List.append_nil]

/-- Copying a text over another one. -/
theorem Holds.overwrite (h : Holds z a t) (hs : z ∉ s) :
    Holds z (overwrite z s a) (s ++ t.drop s.length) where
  clean := by
    intro hmem
    rcases List.mem_append.mp hmem with hmem | hmem
    · exact hs hmem
    · exact h.clean (List.mem_of_mem_drop hmem)
  eq := by
    funext i
    rw [PaddedText.overwrite, h.eq]
    rcases Nat.lt_or_ge i s.length with hlt | hge
    · rw [if_pos hlt, List.getD_append _ _ _ _ hlt]
    · rw [if_neg (Nat.not_lt.mpr hge), List.getD_append_right _ _ _ _ hge]
      simp only [List.getD_eq_getElem?_getD, List.getElem?_drop]
      congr 2
      omega

/-- The new text alone is left exactly when the old one is not longer. -/
theorem append_drop_eq_self_iff : s ++ t.drop s.length = s ↔ t.length ≤ s.length := by
  rw [List.append_right_eq_self, List.drop_eq_nil_iff]

end PaddedText
