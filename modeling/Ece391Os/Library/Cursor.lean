import Mathlib.Data.List.Basic

/-!
# Cursors

A cursor answers each call from its state and moves on. `results` is the list of its answers. If
the cursor always stands before a known rest of a list, one element further behind every call and
in place at its end, then call `i` is answered before element `i` of the list.
-/

set_option autoImplicit false

namespace Cursor

variable {σ ι ρ α : Type*} {next : σ → ι → ρ × σ}

/-- The answers to a list of calls. -/
def results (next : σ → ι → ρ × σ) : σ → List ι → List ρ
  | _, [] => []
  | s, c :: cs => (next s c).1 :: results next (next s c).2 cs

@[simp] theorem length_results (s : σ) (cs : List ι) : (results next s cs).length = cs.length := by
  induction cs generalizing s with
  | nil => rfl
  | cons c cs ih => rw [results, List.length_cons, List.length_cons, ih]

/-- `At s l` says that `l` is left at `s`; it is a cursor if calls take one element each. -/
structure Moves (next : σ → ι → ρ × σ) (P : ι → Prop) (At : σ → List α → Prop) : Prop where
  step : ∀ s x l c, P c → At s (x :: l) → At (next s c).2 l
  stay : ∀ s c, P c → At s [] → At (next s c).2 []

/-- Call `i` is answered before element `i`. -/
theorem Moves.exists_at {P : ι → Prop} {At : σ → List α → Prop} (h : Moves next P At)
    {s : σ} {l : List α} (hs : At s l) {cs : List ι} (hcs : ∀ c ∈ cs, P c) {i : Nat} {c : ι}
    (hc : cs[i]? = some c) :
    ∃ t, At t (l.drop i) ∧ (results next s cs)[i]? = some (next t c).1 := by
  induction cs generalizing s l i with
  | nil => cases hc
  | cons d ds ih =>
      cases i with
      | zero =>
          obtain rfl : d = c := Option.some.inj hc
          exact ⟨s, hs, rfl⟩
      | succ i =>
          have hd := hcs d List.mem_cons_self
          have hds : ∀ c ∈ ds, P c := fun c hmem => hcs c (List.mem_cons_of_mem d hmem)
          rw [List.getElem?_cons_succ] at hc
          cases l with
          | nil =>
              obtain ⟨t, ht, hresult⟩ := ih (h.stay s d hd hs) hds hc
              exact ⟨t, by rwa [List.drop_nil] at ht ⊢, hresult⟩
          | cons x l => exact ih (h.step s x l d hd hs) hds hc

end Cursor
