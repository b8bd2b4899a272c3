import Mathlib.Logic.Function.Iterate
import Mathlib.Tactic.Cases

/-!
# Search along a cycle

A search walks along `next` until it comes to an element that is ready, with a bound on the
number of elements it looks at. A selector that restarts the search behind its last choice
serves every ready element that lies within the bound: `served_of_ready` says after how many
rounds.
-/

set_option autoImplicit false

namespace CyclicSearch

variable {α : Type*} (next : α → α) (ready : α → Bool)

/-- The first ready element from `a` on, among the first `fuel` ones. -/
def search : Nat → α → Option α
  | 0, _ => none
  | fuel + 1, a => if ready a then some a else search fuel (next a)

/-- `n` rounds of a selector that searches behind its last choice. -/
def rounds (fuel : Nat) : Nat → α → Option α
  | 0, a => some a
  | n + 1, a => (search next ready fuel (next a)).bind (rounds fuel n)

variable {next ready}

/-- What is found is ready. -/
theorem ready_of_search {fuel : Nat} {a b : α} (h : search next ready fuel a = some b) :
    ready b = true := by
  induction fuel generalizing a with
  | zero => cases h
  | succ fuel ih =>
      rw [search] at h
      split at h
      next hready =>
        cases h
        exact hready
      · exact ih h

/-- A ready element within the bound is found, or one before it. -/
theorem search_of_ready {fuel k : Nat} {a : α} (hk : k < fuel) (h : ready (next^[k] a) = true) :
    ∃ j, j ≤ k ∧ search next ready fuel a = some (next^[j] a) := by
  induction k generalizing fuel a with
  | zero =>
      obtain ⟨fuel, rfl⟩ : ∃ n, fuel = n + 1 := ⟨fuel - 1, by omega⟩
      exact ⟨0, Nat.le_refl _, if_pos h⟩
  | succ k ih =>
      obtain ⟨fuel, rfl⟩ : ∃ n, fuel = n + 1 := ⟨fuel - 1, by omega⟩
      by_cases ha : ready a = true
      · exact ⟨0, by omega, if_pos ha⟩
      · obtain ⟨j, hj, hsearch⟩ := ih (a := next a) (Nat.lt_of_succ_lt_succ hk) h
        exact ⟨j + 1, by omega, (if_neg ha).trans hsearch⟩

/-- The search ends exactly if there is a ready element within the bound. -/
theorem search_isSome_iff {fuel : Nat} {a : α} :
    (search next ready fuel a).isSome ↔ ∃ k, k < fuel ∧ ready (next^[k] a) = true := by
  constructor
  · intro h
    induction fuel generalizing a with
    | zero => cases h
    | succ fuel ih =>
        by_cases ha : ready a = true
        · exact ⟨0, by omega, ha⟩
        · rw [search, if_neg ha] at h
          obtain ⟨k, hk, hready⟩ := ih h
          exact ⟨k + 1, by omega, hready⟩
  · rintro ⟨k, hk, hready⟩
    obtain ⟨j, _, hsearch⟩ := search_of_ready hk hready
    rw [hsearch]
    rfl

/-- A ready element `k` steps behind the last choice is chosen within `k` rounds. -/
theorem served_of_ready {fuel k : Nat} {a : α} (hpos : 1 ≤ k) (hk : k ≤ fuel)
    (h : ready (next^[k] a) = true) :
    ∃ n, 1 ≤ n ∧ n ≤ k ∧ rounds next ready fuel n a = some (next^[k] a) := by
  induction k using Nat.strongRecOn generalizing a with
  | _ k ih =>
      obtain ⟨k, rfl⟩ : ∃ n, k = n + 1 := ⟨k - 1, by omega⟩
      obtain ⟨j, hj, hsearch⟩ := search_of_ready (a := next a) (Nat.lt_of_succ_le hk) h
      rcases Nat.eq_or_lt_of_le hj with rfl | hlt
      · refine ⟨1, Nat.le_refl _, by omega, ?_⟩
        rw [rounds, hsearch]
        rfl
      · -- the choice lies before the element: the rest of the way is shorter
        have hrest : next^[k - j] (next^[j + 1] a) = next^[k + 1] a := by
          have hsum : k - j + (j + 1) = k + 1 := by omega
          rw [← Function.iterate_add_apply, hsum]
        obtain ⟨n, hn, hnk, hrounds⟩ := ih (k - j) (by omega) (a := next^[j + 1] a) (by omega)
          (by omega) (by rw [hrest]; exact h)
        refine ⟨n + 1, by omega, by omega, ?_⟩
        rw [rounds, hsearch]
        rw [hrest] at hrounds
        exact hrounds

end CyclicSearch
