import Mathlib.Order.Basic

/-!
# Programs that make calls

A `Program` computes, makes calls of type `C` and goes on with their answers of type `R`. Who
answers is not part of the program: `run` takes an answering machine with a state of its own.
`Ensures` says that a program run from a state ends, with a value and a state that meet a
postcondition; its rules follow the program text. A `while` loop is `loop` with a bound on its
rounds, and its rule takes an invariant and a measure that the rounds decrease.
-/

set_option autoImplicit false

universe u v

namespace Interaction

/-- A program: it ends with a value, it does something that has no meaning, or it makes a call
and goes on with the answer. -/
inductive Program (C R α : Type u) : Type u where
  | done (a : α)
  | stuck
  | call (c : C) (next : R → Program C R α)

namespace Program

variable {C R α β : Type u}

/-- Sequential composition. -/
def bind : Program C R α → (α → Program C R β) → Program C R β
  | .done a, f => f a
  | .stuck, _ => .stuck
  | .call c next, f => .call c fun r => (next r).bind f

instance : Monad (Program C R) where
  pure := .done
  bind := bind

/-- The program that makes one call. -/
def perform (c : C) : Program C R R := .call c .done

/-- A computation without calls that may have no meaning. -/
def require : Option α → Program C R α
  | some a => .done a
  | none => .stuck

/-- A loop, with a bound on the number of its rounds. A round says with which value the next one
begins, or with which value the loop ends. -/
def loop (body : β → Program C R (β ⊕ α)) : Nat → β → Program C R α
  | 0, _ => .stuck
  | n + 1, b => body b >>= fun
      | .inl b' => loop body n b'
      | .inr a => pure a

variable {σ : Type v} {answer : σ → C → Option (R × σ)}

/-- The value of a program and the state of the answering machine behind it. There is none if the
program gets stuck or a call gets no answer. -/
def run (answer : σ → C → Option (R × σ)) : Program C R α → σ → Option (α × σ)
  | .done a, s => some (a, s)
  | .stuck, _ => none
  | .call c next, s => (answer s c).bind fun r => (next r.1).run answer r.2

@[simp] theorem run_pure (a : α) (s : σ) : (pure a : Program C R α).run answer s = some (a, s) :=
  rfl

@[simp] theorem run_stuck (s : σ) : (stuck : Program C R α).run answer s = none := rfl

theorem run_perform (c : C) (s : σ) : (perform c).run answer s = answer s c := by
  show (answer s c).bind (fun r => some (r.1, r.2)) = answer s c
  cases answer s c with
  | none => rfl
  | some r => rfl

theorem run_bind (p : Program C R α) (f : α → Program C R β) (s : σ) :
    (p >>= f).run answer s = (p.run answer s).bind fun r => (f r.1).run answer r.2 := by
  show (p.bind f).run answer s = _
  induction p generalizing s with
  | done a => rfl
  | stuck => rfl
  | call c next ih =>
      rw [bind, run, run]
      cases answer s c with
      | none => rfl
      | some r => exact ih r.1 r.2

/-- The program runs to its end, where the postcondition holds. -/
def Ensures (answer : σ → C → Option (R × σ)) (p : Program C R α) (s : σ) (Q : α → σ → Prop) :
    Prop :=
  ∃ a s', p.run answer s = some (a, s') ∧ Q a s'

variable {p : Program C R α} {f : α → Program C R β} {s s' : σ} {Q Q' : α → σ → Prop}

theorem ensures_pure {a : α} (h : Q a s) : Ensures answer (pure a) s Q := ⟨a, s, rfl, h⟩

theorem ensures_of_run {a : α} (hrun : p.run answer s = some (a, s')) (h : Q a s') :
    Ensures answer p s Q :=
  ⟨a, s', hrun, h⟩

theorem ensures_perform {c : C} {r : R} {Q : R → σ → Prop} (hanswer : answer s c = some (r, s'))
    (h : Q r s') : Ensures answer (perform c) s Q :=
  ensures_of_run ((run_perform c s).trans hanswer) h

/-- The rule of consequence. -/
theorem Ensures.mono (h : Ensures answer p s Q) (hQ : ∀ a t, Q a t → Q' a t) :
    Ensures answer p s Q' := by
  obtain ⟨a, t, hrun, ha⟩ := h
  exact ⟨a, t, hrun, hQ a t ha⟩

/-- The rule of composition. -/
theorem Ensures.bind {Q : β → σ → Prop}
    (h : Ensures answer p s fun a t => Ensures answer (f a) t Q) :
    Ensures answer (p >>= f) s Q := by
  obtain ⟨a, t, hrun, b, u, hrest, hb⟩ := h
  refine ⟨b, u, ?_, hb⟩
  rw [run_bind, hrun]
  exact hrest

/-- Composition behind a first part whose specification is known. -/
theorem Ensures.seq {P : α → σ → Prop} {Q : β → σ → Prop} (h : Ensures answer p s P)
    (hrest : ∀ a t, P a t → Ensures answer (f a) t Q) : Ensures answer (p >>= f) s Q :=
  Ensures.bind (h.mono hrest)

/-- A computation that has a value goes on with it. -/
theorem Ensures.require {o : Option α} {a : α} {Q : β → σ → Prop} (ho : o = some a)
    (h : Ensures answer (f a) s Q) : Ensures answer (Program.require o >>= f) s Q := by
  subst ho
  exact h

/-- What a round of a loop is to establish: the invariant and a measure below `bound` if it goes on,
and the postcondition if it is the last one. -/
def AfterRound (I : β → σ → Prop) (μ : β → σ → Nat) (Q : α → σ → Prop) (bound : Nat) :
    β ⊕ α → σ → Prop
  | .inl b, s => I b s ∧ μ b s < bound
  | .inr a, s => Q a s

/-- The rule of the loop: an invariant, and a measure that every further round decreases. -/
theorem ensures_loop {body : β → Program C R (β ⊕ α)} (I : β → σ → Prop) (μ : β → σ → Nat)
    (hbody : ∀ b t, I b t → Ensures answer (body b) t (AfterRound I μ Q (μ b t))) {n : Nat} {b : β}
    (hI : I b s) (hn : μ b s < n) : Ensures answer (loop body n b) s Q := by
  induction n generalizing b s with
  | zero => omega
  | succ n ih =>
      rw [loop]
      apply (hbody b s hI).seq
      intro r t hr
      cases r with
      | inl b' =>
          obtain ⟨hb', hlt⟩ := hr
          exact ih hb' (by omega)
      | inr a => exact ensures_pure hr

end Program

end Interaction
