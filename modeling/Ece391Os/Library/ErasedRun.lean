import Ece391Os.Library.EventRun

/-!
# Runs seen by one participant

Each step of a run is erased to the events that one participant takes part in, and an abstraction
keeps the part of the state that belongs to it. If every step does to that part what its erasure
does, the erased events alone, run on the participant's own machine, lead to the same end; two
runs that erase to the same events cannot be told apart.
-/

set_option autoImplicit false

namespace EventRun

variable {σ ε τ ω : Type*} {step : σ → ε → Option σ} {own : τ → ω → Option τ}
  {er : σ → ε → σ → List ω} {a : σ → τ}

/-- The erasure of a run: the events of its steps, one step after another. -/
def erased (step : σ → ε → Option σ) (er : σ → ε → σ → List ω) : σ → List ε → List ω
  | _, [] => []
  | s, e :: es =>
      match step s e with
      | none => []
      | some s' => er s e s' ++ erased step er s' es

@[simp] theorem erased_nil (s : σ) : erased step er s [] = [] := rfl

theorem erased_cons {s s' : σ} {e : ε} (es : List ε) (hstep : step s e = some s') :
    erased step er s (e :: es) = er s e s' ++ erased step er s' es := by
  simp only [erased, hstep]

/-- The erasure rule: a run whose steps commute with their erasure is, for the participant, the run
of the erased events. -/
theorem runFrom_erased {I : σ → Prop} {Q : σ → ε → σ → Prop}
    (hstep : ∀ s e s', I s → step s e = some s' → Q s e s' →
      I s' ∧ runFrom own (a s) (er s e s') = some (a s')) {s s' : σ} {es : List ε}
    (hs : I s) (hall : AllSteps step Q s es) (hrun : runFrom step s es = some s') :
    runFrom own (a s) (erased step er s es) = some (a s') := by
  induction es generalizing s with
  | nil =>
      cases hrun
      rfl
  | cons e es ih =>
      obtain ⟨t, hfirst, htail⟩ := Option.bind_eq_some_iff.mp hrun
      obtain ⟨hQ, hrest⟩ := hall t hfirst
      obtain ⟨hInv, hown⟩ := hstep s e t hs hfirst hQ
      rw [erased_cons es hfirst, runFrom_append, hown, Option.bind_some]
      exact ih hInv hrest htail

/-- Two runs from states that the participant cannot tell apart, with the same erasure, end in
such states. -/
theorem eq_of_erased_eq {I : σ → Prop} {Q : σ → ε → σ → Prop}
    (hstep : ∀ s e s', I s → step s e = some s' → Q s e s' →
      I s' ∧ runFrom own (a s) (er s e s') = some (a s')) {s t s' t' : σ} {es fs : List ε}
    (hs : I s) (ht : I t) (hsame : a s = a t)
    (hall : AllSteps step Q s es) (hall' : AllSteps step Q t fs)
    (herased : erased step er s es = erased step er t fs)
    (hrun : runFrom step s es = some s') (hrun' : runFrom step t fs = some t') :
    a s' = a t' := by
  have hfirst := runFrom_erased hstep hs hall hrun
  have hsecond := runFrom_erased hstep ht hall' hrun'
  rw [hsame, herased, hsecond] at hfirst
  exact (Option.some.inj hfirst).symm

/-! ## One erasure read off another -/

section Transducer

variable {γ ω' : Type*} {after : γ → ω → γ} {out : γ → ω → List ω'}

/-- A transducer: what is put out for each event, and the state behind it. -/
def transduce (after : γ → ω → γ) (out : γ → ω → List ω') : γ → List ω → List ω'
  | _, [] => []
  | c, e :: es => out c e ++ transduce after out (after c e) es

theorem transduce_append (c : γ) (es fs : List ω) :
    transduce after out c (es ++ fs) =
      transduce after out c es ++ transduce after out (es.foldl after c) fs := by
  induction es generalizing c with
  | nil => rfl
  | cons e es ih => simp only [List.cons_append, transduce, List.foldl_cons, ih, List.append_assoc]

/-- If a transducer, in a state that follows the run, makes the second erasure of every step out of
the first, it does so for runs. -/
theorem erased_transduce (view : σ → γ) {er' : σ → ε → σ → List ω'}
    (hstep : ∀ s e s', step s e = some s' →
      er' s e s' = transduce after out (view s) (er s e s') ∧
        view s' = (er s e s').foldl after (view s)) (s : σ) (es : List ε) :
    erased step er' s es = transduce after out (view s) (erased step er s es) := by
  induction es generalizing s with
  | nil => rfl
  | cons e es ih =>
      cases hnext : step s e with
      | none => simp only [erased, hnext, transduce]
      | some s' =>
          obtain ⟨hout, hview⟩ := hstep s e s' hnext
          rw [erased_cons es hnext, erased_cons es hnext, transduce_append, ← hview, ← hout, ih s']

end Transducer

end EventRun
