import Ece391Os.Library.CyclicSearch
import Ece391Os.Properties.Executables
import Ece391Os.Properties.Tasks

/-!
# The rotation of the scheduler

`Serves` says what the scheduler owes the started terminals: none of them has an empty
stack, the search for the next terminal ends, and each of them is chosen within three
choices. Between `deschedule` and the `schedule` of the new shell the stack of a terminal
whose first shell halts is empty, with interrupts enabled; in runs without such a `halt`
the scheduler always serves (`serves_of_haltsFit`).
-/

set_option autoImplicit false

namespace Ece391Os

open EventRun

/-! ## The search -/

/-- The `n`-th terminal that the search chooses, starting behind `t`, if the stacks stay as they
are. -/
def nthChoice (top : Terminal → Int) : Nat → Terminal → Option Terminal
  | 0, t => some t
  | n + 1, t => (searchNext top t).bind (nthChoice top n)

section Search

variable {top : Terminal → Int}

/-- A terminal with something to run. -/
def ready (top : Terminal → Int) (t : Terminal) : Bool := decide (top t ≠ 0)

theorem searchLoop_eq (fuel : Nat) (t : Terminal) :
    searchLoop top fuel t = CyclicSearch.search (· + 1) (ready top) fuel t := by
  induction fuel generalizing t with
  | zero => rfl
  | succ fuel ih =>
      rw [searchLoop, CyclicSearch.search, ih]
      by_cases h : top t = 0
      · rw [if_pos h, if_neg (by simp [ready, h])]
      · rw [if_neg h, if_pos (by simp [ready, h])]

theorem nthChoice_eq (n : Nat) (t : Terminal) :
    nthChoice top n t = CyclicSearch.rounds (· + 1) (ready top) 3 n t := by
  induction n generalizing t with
  | zero => rfl
  | succ n ih =>
      rw [nthChoice, CyclicSearch.rounds, searchNext, searchLoop_eq]
      cases CyclicSearch.search (· + 1) (ready top) 3 (t + 1) with
      | none => rfl
      | some u => exact ih u

/-- Every terminal lies one to three steps behind every other. -/
theorem exists_steps (t u : Terminal) : ∃ k, 1 ≤ k ∧ k ≤ 3 ∧ (· + 1)^[k] t = u := by
  have h : ∀ t u : Fin 3, (· + 1)^[1] t = u ∨ (· + 1)^[2] t = u ∨ (· + 1)^[3] t = u := by decide
  rcases h t u with h | h | h
  · exact ⟨1, by decide, by decide, h⟩
  · exact ⟨2, by decide, by decide, h⟩
  · exact ⟨3, by decide, by decide, h⟩

/-- The search ends if there is something to run. -/
theorem searchNext_isSome {u : Terminal} (hu : top u ≠ 0) (t : Terminal) :
    (searchNext top t).isSome := by
  obtain ⟨k, hpos, hk, hsteps⟩ := exists_steps t u
  rw [searchNext, searchLoop_eq, CyclicSearch.search_isSome_iff]
  refine ⟨k - 1, by omega, ?_⟩
  have hiter : (· + 1)^[k - 1] (t + 1) = u := by
    rw [← hsteps, ← Function.iterate_succ_apply, Nat.succ_eq_add_one, Nat.sub_add_cancel hpos]
  rw [hiter]
  simpa [ready] using hu

/-- What the search finds has something to run. -/
theorem top_ne_zero_of_searchNext {t u : Terminal} (h : searchNext top t = some u) :
    top u ≠ 0 := by
  rw [searchNext, searchLoop_eq] at h
  simpa [ready] using CyclicSearch.ready_of_search h

/-- A terminal with something to run is chosen within three choices. -/
theorem exists_nthChoice {u : Terminal} (hu : top u ≠ 0) (t : Terminal) :
    ∃ n, 1 ≤ n ∧ n ≤ 3 ∧ nthChoice top n t = some u := by
  obtain ⟨k, hpos, hk, hsteps⟩ := exists_steps t u
  have hready : ready top ((· + 1)^[k] t) = true := by
    rw [hsteps]
    simpa [ready] using hu
  obtain ⟨n, hn, hnk, hrounds⟩ := CyclicSearch.served_of_ready hpos hk hready
  refine ⟨n, hn, by omega, ?_⟩
  rw [nthChoice_eq, hrounds, hsteps]

end Search

/-! ## Started terminals -/

namespace Machine

/-- Every started terminal has something to run, the search of the timer ends, and every started
terminal is chosen within three choices of the search. -/
structure Serves (m : Machine) : Prop where
  nonempty : ∀ t, m.tasks.running t = true → 1 ≤ m.tasks.sched.scheduleTop t
  search_ends : (searchNext m.tasks.sched.scheduleTop m.tasks.sched.currentProcess).isSome
  tick_returns : ∀ esp ebp, (m.tick esp ebp).isSome
  in_rotation : ∀ t, m.tasks.running t = true → ∃ n, 1 ≤ n ∧ n ≤ 3 ∧
    nthChoice m.tasks.sched.scheduleTop n m.tasks.sched.currentProcess = some t

/-- No process halts that is the only one on the stack of the running terminal. -/
def HaltsFit (m : Machine) (e : Event) (_ : Machine) : Prop :=
  ∀ status, e = .halt status → 2 ≤ m.tasks.sched.scheduleTop m.tasks.sched.currentProcess

/-- The invariant: stacks are not shorter than empty, started terminals have something to run,
and some terminal is started. -/
structure Started (s : Tasks) : Prop where
  top_nonneg : ∀ t, 0 ≤ s.sched.scheduleTop t
  nonempty : ∀ t, s.running t = true → 1 ≤ s.sched.scheduleTop t
  some_running : ∃ t, s.running t = true

section Steps

variable {img : FsImage} {m m' : Machine} {s : Tasks}

/-- A spawned process keeps the invariant, and makes the displayed terminal a started one. -/
theorem Started.spawn (htop : ∀ t, 0 ≤ s.sched.scheduleTop t)
    (hnonempty : ∀ t, s.running t = true → 1 ≤ s.sched.scheduleTop t) (q : Pid) :
    Started (s.spawn q) := by
  have hself := htop s.currentTerminal
  constructor
  · intro t
    rcases eq_or_ne t s.currentTerminal with rfl | hne
    · simp only [Tasks.spawn, Function.update_self]
      omega
    · simp only [Tasks.spawn, Function.update_of_ne hne]
      exact htop t
  · intro t ht
    rcases eq_or_ne t s.currentTerminal with rfl | hne
    · simp only [Tasks.spawn, Function.update_self]
      omega
    · simp only [Tasks.spawn, Function.update_of_ne hne] at ht ⊢
      exact hnonempty t ht
  · exact ⟨s.currentTerminal, by simp [Tasks.spawn]⟩

/-- A process that is not alone on its stack may halt. -/
theorem Started.exit (h : Started s) (htwo : 2 ≤ s.sched.scheduleTop s.sched.currentProcess) :
    Started s.exit := by
  have hself : ∀ t, 0 ≤ s.exit.sched.scheduleTop t ∧
      (s.running t = true → 1 ≤ s.exit.sched.scheduleTop t) := by
    intro t
    rcases eq_or_ne t s.sched.currentProcess with rfl | hne
    · simp only [Tasks.exit, Function.update_self]
      exact ⟨by omega, fun _ => by omega⟩
    · simp only [Tasks.exit, Function.update_of_ne hne]
      exact ⟨h.top_nonneg t, h.nonempty t⟩
  exact ⟨fun t => (hself t).1, fun t => (hself t).2, h.some_running⟩

theorem resume_scheduleTop (s : Tasks) (t : Terminal) :
    (s.resume t).sched.scheduleTop = s.sched.scheduleTop := by
  simp only [Tasks.resume]
  split <;> rfl

theorem resume_running (s : Tasks) (t : Terminal) : (s.resume t).running = s.running := by
  simp only [Tasks.resume]
  split <;> rfl

theorem save_running (s : Tasks) (esp ebp : Word) : (s.save esp ebp).running = s.running := by
  simp only [Tasks.save]
  split <;> rfl

/-- The step lemma. -/
theorem Started.step {e : Event} (h : Started m.tasks) (hstep : step img m e = some m')
    (hfits : HaltsFit m e m') : Started m'.tasks := by
  cases effect_of_step hstep with
  | quiet _ _ htasks => exact htasks ▸ h
  | request _ _ htasks =>
      rw [htasks]
      exact ⟨h.top_nonneg, h.nonempty, h.some_running⟩
  | enterFailed _ _ _ htasks =>
      rw [htasks]
      exact ⟨h.top_nonneg, h.nonempty, h.some_running⟩
  | enter _ _ _ htasks =>
      rw [htasks]
      apply Started.spawn
      · exact h.top_nonneg
      · exact h.nonempty
  | execute _ _ _ htasks =>
      rw [htasks]
      exact Started.spawn h.top_nonneg h.nonempty _
  | respawn _ _ _ _ htasks =>
      rw [htasks]
      exact Started.spawn h.top_nonneg h.nonempty _
  | respawnFailed _ _ htasks => exact htasks ▸ h
  | halt _ htasks =>
      rw [htasks]
      exact h.exit (hfits _ rfl)
  | tick _ htasks =>
      have htop : m'.tasks.sched.scheduleTop = m.tasks.sched.scheduleTop := by
        rw [htasks, resume_scheduleTop, save_scheduleTop]
      have hrunning : m'.tasks.running = m.tasks.running := by
        rw [htasks, resume_running, save_running]
      exact ⟨htop ▸ h.top_nonneg, htop ▸ hrunning ▸ h.nonempty, hrunning ▸ h.some_running⟩

/-- The first shell starts a terminal. -/
theorem Started.of_boot {espBoot : Word} {res : Residue} {frame : ExecuteFrame}
    (hstep : Machine.step img (bootMachine espBoot) (.respawn res frame) = some m)
    (hstarted : m.cpu.owner ≠ sentinelProcess) : Started m.tasks := by
  cases effect_of_step hstep with
  | quiet _ _ _ howner => exact absurd howner hstarted
  | respawn _ _ _ _ htasks =>
      rw [htasks]
      exact Started.spawn (fun _ => le_rfl) (fun _ ht => by cases ht) _
  | respawnFailed _ hfailed =>
      have hstays : m.cpu.owner = sentinelProcess := by
        simp only [Machine.step, Machine.respawn, hfailed] at hstep
        split at hstep
        · cases hstep
          rfl
        · cases hstep
      exact absurd hstays hstarted

/-- Where the invariant holds the scheduler serves. -/
theorem Started.serves (h : Started m.tasks) : Serves m := by
  have hready : ∀ t, m.tasks.running t = true → m.tasks.sched.scheduleTop t ≠ 0 := by
    intro t ht
    have := h.nonempty t ht
    omega
  obtain ⟨u, hu⟩ := h.some_running
  refine ⟨h.nonempty, searchNext_isSome (hready u hu) _, fun esp ebp => ?_, fun t ht =>
    exists_nthChoice (hready t ht) _⟩
  have hnext : (nextProcess (savedKernel m.kernel esp ebp)).isSome := by
    rw [nextProcess_eq, tasks_savedKernel, save_next, Tasks.next]
    split
    · exact searchNext_isSome (hready u hu) _
    · rfl
  simp only [tick, Option.isSome_map]
  exact hnext

end Steps

/-- After the first shell has started, in every run in which no process halts that is alone on the
stack of the running terminal, the scheduler serves every started terminal. -/
theorem serves_of_haltsFit {img : FsImage} {espBoot : Word} {res : Residue} {frame : ExecuteFrame}
    {m₀ m : Machine}
    (hboot : step img (bootMachine espBoot) (.respawn res frame) = some m₀)
    (hstarted : m₀.cpu.owner ≠ sentinelProcess) {es : List Event}
    (hfits : AllSteps (step img) HaltsFit m₀ es) (hrun : runFrom (step img) m₀ es = some m) :
    Serves m := by
  have hinv : Started m.tasks := invariant_of_allSteps (I := fun m => Started m.tasks)
    (fun _ _ _ h hstep hQ => h.step hstep hQ) (Started.of_boot hboot hstarted) hfits hrun
  exact hinv.serves

/-! ## Two runs -/

/-- The machine in which the first shell runs. -/
def bootedMachine : Machine :=
  (step shellImage (bootMachine 0x7FFFC0) (.respawn emptyResidue ⟨0x7FFFB0, 0x7F6300⟩)).get
    (by decide +kernel)

theorem step_bootedMachine :
    step shellImage (bootMachine 0x7FFFC0) (.respawn emptyResidue ⟨0x7FFFB0, 0x7F6300⟩) =
      some bootedMachine := (Option.some_get _).symm

/-- The shell executes `ls`, and `ls` halts. -/
def lsRun : List Event := [.execute (some lsName) emptyResidue ⟨0x7F7F00, 0x7EE200⟩, .halt 0]

/-- The machine after that. -/
def afterLs : Machine := (runFrom (step shellImage) bootedMachine lsRun).get (by decide +kernel)

/-- The scheduler serves after that run. -/
theorem serves_afterLs : Serves afterLs := by
  refine serves_of_haltsFit step_bootedMachine (by decide) ?_
    (Option.some_get _).symm
  intro m₁ hexec
  refine ⟨fun _ h => (nomatch h), fun m₂ _ => ⟨fun _ _ => ?_, trivial⟩⟩
  have htop : (step shellImage bootedMachine
      (.execute (some lsName) emptyResidue ⟨0x7F7F00, 0x7EE200⟩)).map
        (fun m => m.tasks.sched.scheduleTop m.tasks.sched.currentProcess) = some 2 := by
    decide
  rw [hexec, Option.map_some] at htop
  exact (Option.some.inj htop).ge

/-- The machine after the first shell has halted. -/
def afterShell : Machine := (step shellImage bootedMachine (.halt 0)).get (by decide +kernel)

/-- The first shell halts: interrupts are enabled while the stack of its terminal is empty, and a
timer interrupt searches without end. -/
theorem not_serves_afterShell :
    step shellImage bootedMachine (.halt 0) = some afterShell ∧
      afterShell.kernel.interrupts = true ∧ (afterShell.tick 0 1).isNone ∧
      ¬ Serves afterShell := by
  refine ⟨(Option.some_get _).symm, by decide, by decide, fun h => ?_⟩
  have htop := h.nonempty 0 (by decide)
  exact absurd htop (by decide)

end Machine

end Ece391Os
