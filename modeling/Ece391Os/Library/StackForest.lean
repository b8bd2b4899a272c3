import Mathlib.Data.List.Chain
import Mathlib.Data.List.Nodup
import Mathlib.Logic.Function.Basic

/-!
# Forests kept as stacks

A family of stacks in which each entry is a child of the entry below it, the lowest one a child
of `root`, and in which no element stands twice. A new child of the uppermost element may
be pushed (`StackForest.push`), the uppermost element may be popped (`StackForest.pop`).
-/

set_option autoImplicit false

variable {α τ : Type*}

/-- The uppermost element of a stack, `root` if it is empty. -/
def stackTip (root : α) (l : List α) : α := l.getLastD root

@[simp] theorem stackTip_nil (root : α) : stackTip root ([] : List α) = root := rfl

@[simp] theorem stackTip_append (root : α) (l : List α) (a : α) :
    stackTip root (l ++ [a]) = a := by
  simp [stackTip]

theorem stackTip_mem {root : α} {l : List α} (h : stackTip root l ≠ root) :
    stackTip root l ∈ l := by
  rcases List.eq_nil_or_concat l with rfl | ⟨l', a, rfl⟩
  · exact absurd rfl h
  · simp [stackTip]

/-- Each stack is a chain of parents from `root` on, without repetitions; no two stacks have a
common element. -/
structure StackForest (root : α) (parent : α → α) (stack : τ → List α) : Prop where
  chain : ∀ t, (root :: stack t).IsChain fun a b => parent b = a
  nodup : ∀ t, (root :: stack t).Nodup
  disjoint : ∀ t u, t ≠ u → (stack t).Disjoint (stack u)

namespace StackForest

variable {root : α} {parent : α → α} {stack : τ → List α}

/-- The forest without elements. -/
theorem empty : StackForest root parent fun _ : τ => [] where
  chain _ := List.isChain_singleton root
  nodup _ := List.nodup_singleton root
  disjoint _ _ _ := List.disjoint_nil_left []

/-- The uppermost element is a child of the one below it. -/
theorem parent_eq_tip (h : StackForest root parent stack) {t : τ} {l : List α} {q : α}
    (hl : stack t = l ++ [q]) : parent q = stackTip root l := by
  have hchain := h.chain t
  rw [hl] at hchain
  rcases List.eq_nil_or_concat l with rfl | ⟨l', a, rfl⟩
  · simpa using hchain
  · rw [List.concat_eq_append, List.append_assoc, ← List.cons_append, List.isChain_append]
      at hchain
    simpa using hchain.2.1

/-- An element stands on one stack, and there once. -/
theorem unique [DecidableEq α] (h : StackForest root parent stack) {t : τ} {p : α}
    (hp : p ∈ stack t) : (stack t).count p = 1 ∧ ∀ u, u ≠ t → p ∉ stack u := by
  constructor
  · exact List.count_eq_one_of_mem (List.nodup_cons.mp (h.nodup t)).2 hp
  · intro u hu hmem
    exact h.disjoint t u (Ne.symm hu) hp hmem

theorem ne_root (h : StackForest root parent stack) {t : τ} {p : α} (hp : p ∈ stack t) :
    p ≠ root := by
  rintro rfl
  exact (List.nodup_cons.mp (h.nodup t)).1 hp

section Operations

variable [DecidableEq τ]

/-- A fresh child of the uppermost element is pushed. -/
theorem push [DecidableEq α] (h : StackForest root parent stack) (t : τ) {q : α} (hroot : q ≠ root)
    (hfresh : ∀ u, q ∉ stack u) :
    StackForest root (Function.update parent q (stackTip root (stack t)))
      (Function.update stack t (stack t ++ [q])) := by
  -- the new element has no children yet, so the old chains keep their parents
  have hold : ∀ u, (root :: stack u).IsChain fun a b =>
      Function.update parent q (stackTip root (stack t)) b = a := by
    intro u
    refine (h.chain u).imp_of_mem_tail_imp ?_
    intro a b _ hb hab
    have hne : b ≠ q := by
      rintro rfl
      exact hfresh u hb
    rw [Function.update_of_ne hne]
    exact hab
  constructor
  · intro u
    rcases eq_or_ne u t with rfl | hne
    · rw [Function.update_self, ← List.cons_append, List.isChain_append]
      refine ⟨hold u, List.isChain_singleton q, ?_⟩
      intro a ha b hb
      obtain rfl : q = b := by simpa using hb
      rw [Function.update_self, stackTip]
      simpa [List.getLast?_cons, List.getLastD_eq_getLast?] using ha
    · rw [Function.update_of_ne hne]
      exact hold u
  · intro u
    rcases eq_or_ne u t with rfl | hne
    · rw [Function.update_self, ← List.cons_append, List.nodup_append]
      refine ⟨h.nodup u, List.nodup_singleton q, ?_⟩
      intro a ha b hb hab
      obtain rfl : b = q := by simpa using hb
      rcases List.mem_cons.mp (hab ▸ ha) with heq | hmem
      · exact hroot heq
      · exact hfresh u hmem
    · rw [Function.update_of_ne hne]
      exact h.nodup u
  · -- the stack that has grown is still disjoint from the others
    have hpushed : ∀ u, u ≠ t → (stack u).Disjoint (stack t ++ [q]) := by
      intro u hu
      rw [List.disjoint_append_right]
      exact ⟨h.disjoint u t hu, List.disjoint_singleton.mpr (hfresh u)⟩
    intro u v huv
    rcases eq_or_ne u t with rfl | hu
    · rw [Function.update_self, Function.update_of_ne huv.symm]
      exact List.disjoint_comm.mp (hpushed v huv.symm)
    · rcases eq_or_ne v t with rfl | hv
      · rw [Function.update_self, Function.update_of_ne hu]
        exact hpushed u hu
      · rw [Function.update_of_ne hu, Function.update_of_ne hv]
        exact h.disjoint u v huv

/-- The uppermost element of a stack is popped. -/
theorem pop (h : StackForest root parent stack) {t : τ} {l : List α} {q : α}
    (hl : stack t = l ++ [q]) : StackForest root parent (Function.update stack t l) := by
  have hsub : ∀ u, (Function.update stack t l u) <+: stack u := by
    intro u
    rcases eq_or_ne u t with rfl | hne
    · rw [Function.update_self, hl]
      exact List.prefix_append l [q]
    · have hsame : Function.update stack t l u = stack u := Function.update_of_ne hne l stack
      exact hsame ▸ List.prefix_rfl
  constructor
  · intro u
    exact List.IsChain.prefix (h.chain u) ((List.prefix_cons_inj root).mpr (hsub u))
  · intro u
    exact (h.nodup u).sublist ((hsub u).sublist.cons_cons root)
  · intro u v huv a ha hb
    exact h.disjoint u v huv ((hsub u).subset ha) ((hsub v).subset hb)

/-- Popping removes the uppermost element and nothing else. -/
theorem mem_pop_iff (h : StackForest root parent stack) {t : τ} {l : List α} {q p : α}
    (hl : stack t = l ++ [q]) :
    (∃ u, p ∈ Function.update stack t l u) ↔ p ≠ q ∧ ∃ u, p ∈ stack u := by
  have hq : q ∈ stack t := by simp [hl]
  have hnodup := (List.nodup_cons.mp (h.nodup t)).2
  rw [hl, List.nodup_append] at hnodup
  constructor
  · rintro ⟨u, hu⟩
    rcases eq_or_ne u t with rfl | hne
    · rw [Function.update_self] at hu
      exact ⟨hnodup.2.2 p hu q (List.mem_singleton_self q), u, by simp [hl, hu]⟩
    · rw [Function.update_of_ne hne] at hu
      refine ⟨?_, u, hu⟩
      rintro rfl
      exact h.disjoint u t hne hu hq
  · rintro ⟨hne, u, hu⟩
    refine ⟨u, ?_⟩
    rcases eq_or_ne u t with rfl | hut
    · rw [Function.update_self]
      rw [hl] at hu
      simpa [hne] using hu
    · rw [Function.update_of_ne hut]
      exact hu

/-- Pushing adds one element. -/
theorem mem_push_iff {t : τ} {q p : α} :
    (∃ u, p ∈ Function.update stack t (stack t ++ [q]) u) ↔ p = q ∨ ∃ u, p ∈ stack u := by
  constructor
  · rintro ⟨u, hu⟩
    rcases eq_or_ne u t with rfl | hne
    · rw [Function.update_self, List.mem_append, List.mem_singleton] at hu
      exact hu.symm.imp id fun hmem => ⟨u, hmem⟩
    · rw [Function.update_of_ne hne] at hu
      exact Or.inr ⟨u, hu⟩
  · rintro (rfl | ⟨u, hu⟩)
    · exact ⟨t, by simp⟩
    · refine ⟨u, ?_⟩
      rcases eq_or_ne u t with rfl | hne
      · simp [hu]
      · rw [Function.update_of_ne hne]
        exact hu

end Operations

end StackForest
