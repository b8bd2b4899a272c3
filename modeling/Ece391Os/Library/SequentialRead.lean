import Mathlib.Algebra.BigOperators.Group.List.Basic
import Mathlib.Algebra.GroupWithZero.Nat
import Mathlib.Algebra.Order.BigOperators.Group.List

/-!
# Sequential reads of a source of known length

A reader works through a source of `n` items by calls that each start where the call
before them stopped. A call is *complete* when it delivers as much of its request as the
source still holds. Completeness of each call gives the two properties that users of such
a reader loop on: a count of zero is seen at the end only, and the counts before the first
zero add up to `n`.
-/

set_option autoImplicit false

namespace SequentialRead

/-- One call of a reader: the position before it, the requested count, the count it
delivers (`none` when it fails) and the position after it. -/
structure Call where
  position : Nat
  requested : Nat
  result : Option Nat
  after : Nat
  deriving DecidableEq, Repr

/-- Each call starts where the one before it stopped, the first one at `p`. -/
def Chained : Nat → List Call → Prop
  | _, [] => True
  | p, c :: cs => c.position = p ∧ Chained c.after cs

/-- The call delivers all it can and moves by the count it delivers. -/
structure Call.Complete (n : Nat) (c : Call) : Prop where
  result_eq : c.result = some (min c.requested (n - c.position))
  after_eq : c.after = c.position + min c.requested (n - c.position)

/-- The count of a call, `0` if it failed. -/
def Call.count (c : Call) : Nat := c.result.getD 0

/-- A reader of a source of length `n` is complete on a run. -/
structure CompleteReads (n : Nat) (calls : List Call) : Prop where
  complete : ∀ c ∈ calls, c.Complete n
  zero_at_end : ∀ c ∈ calls, c.result = some 0 → n ≤ c.position
  counts_before_zero : ∀ pre c post, calls = pre ++ c :: post →
    (∀ b ∈ pre, b.result ≠ some 0) → c.result = some 0 → (pre.map Call.count).sum = n

/-- A zero count for a positive request is seen at the end only. -/
theorem Call.Complete.end_of_zero {n : Nat} {c : Call} (h : c.Complete n)
    (hpos : 0 < c.requested) (hzero : c.result = some 0) : n ≤ c.position := by
  have hmin : min c.requested (n - c.position) = 0 :=
    Option.some.inj (h.result_eq.symm.trans hzero)
  omega

/-- A complete call that starts inside the source stops inside it. -/
theorem Call.Complete.after_le {n : Nat} {c : Call} (h : c.Complete n) (hp : c.position ≤ n) :
    c.after ≤ n := by
  have hafter := h.after_eq
  omega

/-- Up to any call of a chained run of complete calls, the counts add up to the distance
travelled. -/
theorem sum_counts_of_complete {n p : Nat} {pre post : List Call} {c : Call}
    (hchain : Chained p (pre ++ c :: post)) (hcomplete : ∀ b ∈ pre, b.Complete n) :
    p + (pre.map Call.count).sum = c.position := by
  induction pre generalizing p with
  | nil => simpa using hchain.1.symm
  | cons b pre ih =>
      obtain ⟨hposition, htail⟩ := hchain
      have hb := hcomplete b List.mem_cons_self
      have hcount : b.after = p + b.count := by
        rw [hb.after_eq, Call.count, hb.result_eq, Option.getD_some, hposition]
      have hrest := ih htail fun d hd => hcomplete d (List.mem_cons_of_mem b hd)
      simp only [List.map_cons, List.sum_cons]
      omega

/-- The position of every call of a chained run of complete calls is inside the source. -/
theorem position_le_of_complete {n p : Nat} {pre post : List Call} {c : Call} (hp : p ≤ n)
    (hchain : Chained p (pre ++ c :: post)) (hcomplete : ∀ b ∈ pre, b.Complete n) :
    c.position ≤ n := by
  induction pre generalizing p with
  | nil => exact hchain.1.trans_le hp
  | cons b pre ih =>
      obtain ⟨hposition, htail⟩ := hchain
      have hb := hcomplete b List.mem_cons_self
      exact ih (hb.after_le (hposition.trans_le hp)) htail
        fun d hd => hcomplete d (List.mem_cons_of_mem b hd)

/-- Complete calls for positive requests, chained from the start, make a complete
reader. -/
theorem completeReads_of_complete {n : Nat} {calls : List Call} (hchain : Chained 0 calls)
    (hpos : ∀ c ∈ calls, 0 < c.requested) (hcomplete : ∀ c ∈ calls, c.Complete n) :
    CompleteReads n calls where
  complete := hcomplete
  zero_at_end := fun c hc hzero => (hcomplete c hc).end_of_zero (hpos c hc) hzero
  counts_before_zero := by
    intro pre c post hsplit _ hzero
    subst hsplit
    have hmem : c ∈ pre ++ c :: post := by simp
    have hpre : ∀ b ∈ pre, b.Complete n := fun b hb =>
      hcomplete b (List.mem_append_left _ hb)
    have hsum := sum_counts_of_complete hchain hpre
    have hle := position_le_of_complete n.zero_le hchain hpre
    have hend := (hcomplete c hmem).end_of_zero (hpos c hmem) hzero
    omega

/-! ## Requests -/

/-- What must hold of a run of requests so that none is cut short by a reader that refuses a
request which starts behind the first item and before the end, and runs past the end. `s` is
the sum of the requests made so far. A request from the start may run past the end only if
`tail` holds. -/
def RequestsFit (n : Nat) (tail : Prop) : Nat → List Nat → Prop
  | _, [] => True
  | s, b :: bs =>
      ¬ (0 < s ∧ s < n ∧ n < s + b) ∧ (s = 0 → 0 < n → n < b → tail) ∧
        RequestsFit n tail (s + b) bs

instance (n : Nat) (tail : Prop) [Decidable tail] :
    ∀ (s : Nat) (bs : List Nat), Decidable (RequestsFit n tail s bs)
  | _, [] => isTrue trivial
  | s, b :: bs =>
      have : Decidable (RequestsFit n tail (s + b) bs) :=
        instDecidableRequestsFit n tail (s + b) bs
      inferInstanceAs (Decidable (_ ∧ _ ∧ _))

end SequentialRead
