import Mathlib.Data.List.Nodup
import Mathlib.Logic.Function.Basic

/-!
# Chains of pointers

Singly linked lists in a store: `next` gives the pointer in each node, and `none` is the null
pointer. `IsPath next p l q` says that the pointer `p` leads through the nodes `l` to the pointer
`q`. A list is a path to null. A path determines its nodes, has no node twice if it ends, and a node
that is in it can be taken out, and one that is not can be put in front; a node that is put in front
although it is in the list makes a loop.
-/

set_option autoImplicit false

namespace PointerChain

variable {ι : Type*}

/-- The pointer `p` leads through the nodes `l` to the pointer `q`. -/
def IsPath (next : ι → Option ι) : Option ι → List ι → Option ι → Prop
  | p, [], q => p = q
  | p, i :: l, q => p = some i ∧ IsPath next (next i) l q

/-- The nodes behind `p` up to the null pointer. -/
abbrev IsList (next : ι → Option ι) (p : Option ι) (l : List ι) : Prop := IsPath next p l none

variable {next next' : ι → Option ι} {p q r : Option ι} {l l₁ l₂ : List ι} {i : ι}

theorem isPath_append :
    IsPath next p (l₁ ++ l₂) r ↔ ∃ q, IsPath next p l₁ q ∧ IsPath next q l₂ r := by
  induction l₁ generalizing p with
  | nil =>
      constructor
      · exact fun h => ⟨p, rfl, h⟩
      · rintro ⟨q, rfl, h⟩
        exact h
  | cons i l₁ ih =>
      simp only [List.cons_append, IsPath, ih]
      constructor
      · rintro ⟨rfl, q, h₁, h₂⟩
        exact ⟨q, ⟨rfl, h₁⟩, h₂⟩
      · rintro ⟨q, ⟨rfl, h₁⟩, h₂⟩
        exact ⟨rfl, q, h₁, h₂⟩

/-- Only the pointers in the nodes of a path matter. -/
theorem IsPath.congr (h : IsPath next p l q) (heq : ∀ i ∈ l, next' i = next i) :
    IsPath next' p l q := by
  induction l generalizing p with
  | nil => exact h
  | cons i l ih =>
      obtain ⟨rfl, hrest⟩ := h
      refine ⟨rfl, ?_⟩
      rw [heq i List.mem_cons_self]
      exact ih hrest fun j hj => heq j (List.mem_cons_of_mem i hj)

/-- A pointer has one list at most. -/
theorem IsList.unique (h₁ : IsList next p l₁) (h₂ : IsList next p l₂) : l₁ = l₂ := by
  induction l₁ generalizing p l₂ with
  | nil =>
      obtain rfl : p = none := h₁
      cases l₂ with
      | nil => rfl
      | cons i l₂ => exact absurd h₂.1 (Option.some_ne_none i).symm
  | cons i l₁ ih =>
      obtain ⟨rfl, hrest⟩ := h₁
      cases l₂ with
      | nil => exact absurd h₂ (Option.some_ne_none i)
      | cons j l₂ =>
          obtain ⟨heq, hrest₂⟩ := h₂
          obtain rfl := Option.some.inj heq
          rw [ih hrest hrest₂]

/-- The part of a list behind one of its nodes. -/
theorem IsPath.tail_of_mem (h : IsPath next p l q) (hi : i ∈ l) :
    ∃ l₁ l₂, l = l₁ ++ i :: l₂ ∧ IsPath next p l₁ (some i) ∧ IsPath next (next i) l₂ q := by
  obtain ⟨l₁, l₂, rfl⟩ := List.append_of_mem hi
  obtain ⟨r, h₁, hr, h₂⟩ := isPath_append.mp h
  exact ⟨l₁, l₂, rfl, hr ▸ h₁, h₂⟩

/-- The nodes of a list are distinct. -/
theorem IsList.nodup (h : IsList next p l) : l.Nodup := by
  induction l generalizing p with
  | nil => exact List.nodup_nil
  | cons i l ih =>
      obtain ⟨rfl, hrest⟩ := h
      refine List.nodup_cons.mpr ⟨fun hi => ?_, ih hrest⟩
      -- the list behind the second occurrence is the list behind the first one
      obtain ⟨l₁, l₂, rfl, -, h₂⟩ := IsPath.tail_of_mem hrest hi
      have hlen := congrArg List.length (IsList.unique hrest h₂)
      rw [List.length_append, List.length_cons] at hlen
      omega

/-- A list does not come back to a pointer that it started from. -/
theorem not_isList_of_loop (h : IsPath next p (i :: l₁) p) : ¬ IsList next p l := by
  intro hl
  obtain ⟨rfl, hloop⟩ := h
  cases l with
  | nil => exact absurd hl (Option.some_ne_none i)
  | cons j l =>
      obtain ⟨heq, hrest⟩ := hl
      obtain rfl := Option.some.inj heq
      have hlist : IsList next (some i) (i :: l₁ ++ i :: l) :=
        isPath_append.mpr ⟨some i, ⟨rfl, hloop⟩, rfl, hrest⟩
      have hshort : IsList next (some i) (i :: l) := ⟨rfl, hrest⟩
      have hlen := congrArg List.length (IsList.unique hlist hshort)
      rw [List.length_append, List.length_cons, List.length_cons] at hlen
      omega

section Update

variable [DecidableEq ι]

theorem IsPath.update (h : IsPath next p l q) (hi : i ∉ l) :
    IsPath (Function.update next i r) p l q :=
  h.congr fun _ hj => Function.update_of_ne (ne_of_mem_of_not_mem hj hi) _ _

/-- A node in front. -/
theorem IsPath.cons_update (h : IsPath next p l q) (hi : i ∉ l) :
    IsPath (Function.update next i p) (some i) (i :: l) q := by
  refine ⟨rfl, ?_⟩
  rw [Function.update_self]
  exact h.update hi

/-- The node behind `j` is taken out. -/
theorem IsList.erase_update {j : ι} (h : IsList next p (l₁ ++ j :: i :: l₂)) :
    IsList (Function.update next j (next i)) p (l₁ ++ j :: l₂) := by
  have hnodup := h.nodup
  rw [List.nodup_append'] at hnodup
  have hnot₁ : j ∉ l₁ := fun hmem => hnodup.2.2 hmem List.mem_cons_self
  have hnot₂ : j ∉ l₂ := fun hmem =>
    (List.nodup_cons.mp hnodup.2.1).1 (List.mem_cons_of_mem i hmem)
  obtain ⟨q, h₁, rfl, -, h₂⟩ := isPath_append.mp h
  refine isPath_append.mpr ⟨some j, h₁.update hnot₁, rfl, ?_⟩
  rw [Function.update_self]
  exact h₂.update hnot₂

end Update

end PointerChain
