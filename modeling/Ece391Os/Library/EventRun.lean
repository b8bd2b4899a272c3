import Mathlib.Logic.Relation

/-!
# Runs of an event system

An event system has a partial step function `step : σ → ε → Option σ`; an event that
cannot happen in a state has no step. `runFrom` is the state after a list of events and
`AllSteps` says something of every step of a run. The rules of this module carry an
invariant along a run, from what one step preserves.
-/

set_option autoImplicit false

namespace EventRun

variable {σ ε : Type*}

/-- The state after a list of events, `none` if one of them cannot happen. -/
def runFrom (step : σ → ε → Option σ) : σ → List ε → Option σ
  | s, [] => some s
  | s, e :: es => (step s e).bind fun s' => runFrom step s' es

/-- `P` holds of every step of a run: of the state before it, the event and the state after
it. -/
def AllSteps (step : σ → ε → Option σ) (P : σ → ε → σ → Prop) : σ → List ε → Prop
  | _, [] => True
  | s, e :: es => ∀ s', step s e = some s' → P s e s' ∧ AllSteps step P s' es

variable {step : σ → ε → Option σ}

/-- A property of steps that can be decided can be decided along a run. -/
instance AllSteps.decidable {P : σ → ε → σ → Prop} [∀ s e s', Decidable (P s e s')] :
    (s : σ) → (es : List ε) → Decidable (AllSteps step P s es)
  | _, [] => isTrue trivial
  | s, e :: es =>
      match hstep : step s e with
      | none => isTrue fun s' h => by rw [hstep] at h; cases h
      | some t =>
          have := AllSteps.decidable (P := P) t es
          decidable_of_iff (P s e t ∧ AllSteps step P t es) (by simp [AllSteps, hstep])

@[simp] theorem runFrom_nil (s : σ) : runFrom step s [] = some s := rfl

@[simp] theorem runFrom_cons (s : σ) (e : ε) (es : List ε) :
    runFrom step s (e :: es) = (step s e).bind fun s' => runFrom step s' es := rfl

/-- A step that is always possible is a fold. -/
theorem runFrom_total (f : σ → ε → σ) (s : σ) (es : List ε) :
    runFrom (fun s e => some (f s e)) s es = some (es.foldl f s) := by
  induction es generalizing s with
  | nil => rfl
  | cons e es ih => exact ih (f s e)

theorem runFrom_append (s : σ) (es fs : List ε) :
    runFrom step s (es ++ fs) = (runFrom step s es).bind fun s' => runFrom step s' fs := by
  induction es generalizing s with
  | nil => rfl
  | cons e es ih =>
      simp only [List.cons_append, runFrom_cons]
      cases step s e with
      | none => rfl
      | some s' => exact ih s'

/-- The invariant rule: what holds at the start and is kept by every step that satisfies `Q`
holds after every run of such steps. -/
theorem invariant_of_allSteps {I : σ → Prop} {Q : σ → ε → σ → Prop}
    (hkeep : ∀ s e s', I s → step s e = some s' → Q s e s' → I s') {s s' : σ}
    {es : List ε} (hs : I s) (hall : AllSteps step Q s es)
    (hrun : runFrom step s es = some s') : I s' := by
  induction es generalizing s with
  | nil =>
      cases hrun
      exact hs
  | cons e es ih =>
      obtain ⟨t, hstep, htail⟩ := Option.bind_eq_some_iff.mp hrun
      obtain ⟨hQ, hrest⟩ := hall t hstep
      exact ih (hkeep s e t hs hstep hQ) hrest htail

/-- The invariant rule for steps that need no condition. -/
theorem invariant_of_runFrom {I : σ → Prop}
    (hkeep : ∀ s e s', I s → step s e = some s' → I s') {s s' : σ} {es : List ε}
    (hs : I s) (hrun : runFrom step s es = some s') : I s' := by
  induction es generalizing s with
  | nil =>
      cases hrun
      exact hs
  | cons e es ih =>
      obtain ⟨t, hstep, htail⟩ := Option.bind_eq_some_iff.mp hrun
      exact ih (hkeep s e t hs hstep) htail

/-- A run stays safe and ends under the invariant exactly if no step falls into a trap, which safe
steps do not leave. -/
theorem allSteps_and_iff_of_trap {I T : σ → Prop} {P Q : σ → ε → σ → Prop}
    (hkeep : ∀ s e s', I s → step s e = some s' → Q s e s' → P s e s' ∧ I s')
    (hfall : ∀ s e s', I s → step s e = some s' → ¬ Q s e s' → T s')
    (htrap : ∀ s e s', T s → step s e = some s' → P s e s' → T s')
    (hout : ∀ s, T s → ¬ I s) {s s' : σ} {es : List ε} (hs : I s)
    (hrun : runFrom step s es = some s') :
    (AllSteps step P s es ∧ I s') ↔ AllSteps step Q s es := by
  induction es generalizing s with
  | nil =>
      cases hrun
      exact ⟨fun _ => trivial, fun _ => ⟨trivial, hs⟩⟩
  | cons e es ih =>
      obtain ⟨t, hstep, htail⟩ := Option.bind_eq_some_iff.mp hrun
      by_cases hQ : Q s e t
      · obtain ⟨hP, ht⟩ := hkeep s e t hs hstep hQ
        have hrest := ih ht htail
        constructor
        · rintro ⟨hall, hend⟩ u hu
          obtain rfl : t = u := Option.some.inj (hstep.symm.trans hu)
          exact ⟨hQ, hrest.mp ⟨(hall t hstep).2, hend⟩⟩
        · intro hall
          obtain ⟨hsafe, hend⟩ := hrest.mpr (hall t hstep).2
          refine ⟨fun u hu => ?_, hend⟩
          obtain rfl : t = u := Option.some.inj (hstep.symm.trans hu)
          exact ⟨hP, hsafe⟩
      · -- the run has fallen into the trap and stays there
        have ht := hfall s e t hs hstep hQ
        constructor
        · rintro ⟨hall, hend⟩
          have hend' := invariant_of_allSteps htrap ht (hall t hstep).2 htail
          exact absurd hend (hout s' hend')
        · intro hall
          exact absurd (hall t hstep).1 hQ

/-- What every step that satisfies `Q` does from a state with the invariant, all steps of a run of
such steps do. -/
theorem allSteps_of_invariant {I : σ → Prop} {P Q : σ → ε → σ → Prop}
    (hkeep : ∀ s e s', I s → step s e = some s' → Q s e s' → I s' ∧ P s e s') {s : σ}
    {es : List ε} (hs : I s) (hall : AllSteps step Q s es) : AllSteps step P s es := by
  induction es generalizing s with
  | nil => trivial
  | cons e es ih =>
      intro s' hstep
      obtain ⟨hQ, hrest⟩ := hall s' hstep
      obtain ⟨hInv, hP⟩ := hkeep s e s' hs hstep hQ
      exact ⟨hP, ih hInv hrest⟩

/-- A step property that depends on the event alone. -/
theorem allSteps_of_mem {P : σ → ε → σ → Prop} {s : σ} {es : List ε}
    (h : ∀ e ∈ es, ∀ t t', P t e t') : AllSteps step P s es := by
  induction es generalizing s with
  | nil => trivial
  | cons e es ih =>
      intro s' _
      exact ⟨h e List.mem_cons_self s s', ih fun e he => h e (List.mem_cons_of_mem _ he)⟩

/-- A run in two parts. -/
theorem allSteps_append {P : σ → ε → σ → Prop} {s : σ} {es fs : List ε}
    (hes : AllSteps step P s es)
    (hfs : ∀ t, runFrom step s es = some t → AllSteps step P t fs) :
    AllSteps step P s (es ++ fs) := by
  induction es generalizing s with
  | nil => exact hfs s rfl
  | cons e es ih =>
      intro s' hstep
      obtain ⟨hP, hrest⟩ := hes s' hstep
      refine ⟨hP, ih hrest fun t hrun => hfs t ?_⟩
      rw [runFrom_cons, hstep]
      exact hrun

/-- What holds of every step of a run holds of every step of its second part. -/
theorem allSteps_of_append {P : σ → ε → σ → Prop} {s t : σ} {es fs : List ε}
    (h : AllSteps step P s (es ++ fs)) (hrun : runFrom step s es = some t) :
    AllSteps step P t fs := by
  induction es generalizing s with
  | nil =>
      cases hrun
      exact h
  | cons e es ih =>
      obtain ⟨s', hstep, htail⟩ := Option.bind_eq_some_iff.mp hrun
      exact ih (h s' hstep).2 htail

/-- Step properties that agree on the steps of a run agree on the run. -/
theorem allSteps_congr {P Q : σ → ε → σ → Prop} {s : σ} {es : List ε}
    (h : AllSteps step (fun s e s' => P s e s' ↔ Q s e s') s es) :
    AllSteps step P s es ↔ AllSteps step Q s es := by
  induction es generalizing s with
  | nil => exact Iff.rfl
  | cons e es ih =>
      constructor
      · intro hP s' hstep
        exact ⟨(h s' hstep).1.mp (hP s' hstep).1, (ih (h s' hstep).2).mp (hP s' hstep).2⟩
      · intro hQ s' hstep
        exact ⟨(h s' hstep).1.mpr (hQ s' hstep).1, (ih (h s' hstep).2).mpr (hQ s' hstep).2⟩

/-- Two step properties that agree under an invariant agree over whole runs, if one of them
keeps the invariant. -/
theorem allSteps_iff_of_invariant {I : σ → Prop} {P Q : σ → ε → σ → Prop}
    (hiff : ∀ s e s', I s → step s e = some s' → (P s e s' ↔ Q s e s'))
    (hkeep : ∀ s e s', I s → step s e = some s' → Q s e s' → I s') {s : σ}
    (es : List ε) (hs : I s) : AllSteps step P s es ↔ AllSteps step Q s es := by
  induction es generalizing s with
  | nil => exact Iff.rfl
  | cons e es ih =>
      constructor
      · intro h s' hstep
        obtain ⟨hP, hrest⟩ := h s' hstep
        have hQ := (hiff s e s' hs hstep).mp hP
        exact ⟨hQ, (ih (hkeep s e s' hs hstep hQ)).mp hrest⟩
      · intro h s' hstep
        obtain ⟨hQ, hrest⟩ := h s' hstep
        exact ⟨(hiff s e s' hs hstep).mpr hQ, (ih (hkeep s e s' hs hstep hQ)).mpr hrest⟩

end EventRun
