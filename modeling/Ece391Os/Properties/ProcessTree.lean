import Ece391Os.Library.StackForest
import Ece391Os.Properties.SwitchWait

/-!
# The schedule stacks and the process tree

`schedule` pushes on the stack of the displayed terminal, `deschedule` pops the stack of the
running one. `ProcessTree` says what the stacks should be: parent chains that together hold
every live process once. `Tidy` adds what the threads of control have to satisfy for that
to last: the process on the processor is the uppermost one of the running terminal, and
a saved context belongs to the process in whose slot it is. Orderly steps keep it
(`processTree_of_orderly`).
-/

set_option autoImplicit false

namespace Ece391Os

open EventRun

/-! ## The stacks -/

/-- `schedule_stack[t][0 .. schedule_top[t] - 1]`. -/
def Tasks.entries (s : Tasks) (t : Terminal) : List Pid :=
  (List.range (s.sched.scheduleTop t).toNat).map fun i : Nat => s.sched.scheduleStack t i

/-- The stacks are the process tree. -/
structure ProcessTree (s : Tasks) : Prop where
  chain : ∀ t, (sentinelProcess :: s.entries t).IsChain fun a b => s.parent b = a
  once : ∀ p, p ≠ sentinelProcess → s.alive p = true →
    ∃ t, (s.entries t).count p = 1 ∧ ∀ u, u ≠ t → p ∉ s.entries u
  live : ∀ t, ∀ p ∈ s.entries t, p ≠ sentinelProcess ∧ s.alive p = true

namespace Tasks

variable {s : Tasks}

@[simp] theorem entries_request (num : Terminal) : (s.request num).entries = s.entries := rfl

@[simp] theorem entries_enter (num : Terminal) : (s.enter num).entries = s.entries := rfl

theorem entries_eq_nil {t : Terminal} (h : s.sched.scheduleTop t ≤ 0) : s.entries t = [] := by
  rw [entries, Int.toNat_of_nonpos h]
  rfl

/-- The uppermost entry of a stack. -/
theorem entries_eq_append {t : Terminal} (h : 0 < s.sched.scheduleTop t) :
    s.entries t =
      (List.range (s.sched.topIdx t).toNat).map (fun i : Nat => s.sched.scheduleStack t i) ++
        [s.sched.scheduleStack t (s.sched.topIdx t)] := by
  have hnat : (s.sched.scheduleTop t).toNat = (s.sched.topIdx t).toNat + 1 := by
    simp only [Scheduler.topIdx]
    omega
  have hidx : (((s.sched.topIdx t).toNat : Nat) : Int) = s.sched.topIdx t := by
    simp only [Scheduler.topIdx]
    omega
  rw [entries, hnat, List.range_succ, List.map_append, List.map_singleton, hidx]

/-- A spawned process is pushed on the stack of the displayed terminal. -/
theorem entries_spawn (h : 0 ≤ s.sched.scheduleTop s.currentTerminal) (q : Pid) :
    (s.spawn q).entries = Function.update s.entries s.currentTerminal
      (s.entries s.currentTerminal ++ [q]) := by
  funext t
  rcases eq_or_ne t s.currentTerminal with rfl | hne
  · have htop : (s.spawn q).sched.scheduleTop s.currentTerminal =
        s.sched.scheduleTop s.currentTerminal + 1 := by simp [spawn]
    have hidx : (s.spawn q).sched.topIdx s.currentTerminal =
        s.sched.scheduleTop s.currentTerminal := by
      rw [Scheduler.topIdx, htop]
      omega
    rw [Function.update_self, entries_eq_append (by omega), hidx]
    simp only [spawn, setEntry_self]
    congr 1
    apply List.map_congr_left
    intro n hn
    have hlt := List.mem_range.mp hn
    exact setEntry_of_ne _ _ (Or.inr (by omega))
  · rw [Function.update_of_ne hne]
    have htop : (s.spawn q).sched.scheduleTop t = s.sched.scheduleTop t := by
      simp [spawn, Function.update_of_ne hne]
    rw [entries, htop, entries]
    apply List.map_congr_left
    intro n _
    exact setEntry_of_ne _ _ (Or.inl hne)

/-- A process that ends takes the uppermost entry of the running terminal with it. -/
theorem entries_exit {l : List Pid} {p : Pid} (h : s.entries s.sched.currentProcess = l ++ [p]) :
    s.exit.entries = Function.update s.entries s.sched.currentProcess l := by
  have hpos : 0 < s.sched.scheduleTop s.sched.currentProcess := by
    by_contra hle
    rw [entries_eq_nil (by omega)] at h
    simp at h
  rw [entries_eq_append hpos] at h
  have hl := (List.append_inj' h rfl).1
  funext t
  rcases eq_or_ne t s.sched.currentProcess with rfl | hne
  · have htop : s.exit.sched.scheduleTop s.sched.currentProcess =
        s.sched.topIdx s.sched.currentProcess := by simp [exit, Scheduler.topIdx]
    rw [Function.update_self, ← hl, entries, htop]
    apply List.map_congr_left
    intro n hn
    have hlt := List.mem_range.mp hn
    exact setEntry_of_ne _ _ (Or.inr (by omega))
  · have htop : s.exit.sched.scheduleTop t = s.sched.scheduleTop t := by
      simp [exit, Function.update_of_ne hne]
    rw [Function.update_of_ne hne, entries, htop, entries]
    apply List.map_congr_left
    intro n _
    exact setEntry_of_ne _ _ (Or.inl hne)

end Tasks

/-! ## Seats -/

/-- The processes stand on the stacks: a forest of live processes, with the one on the processor on
top of the stack of the running terminal. -/
structure Seated (s : Tasks) : Prop where
  forest : StackForest sentinelProcess s.parent s.entries
  live : ∀ t, ∀ p ∈ s.entries t, s.alive p = true
  top_nonneg : ∀ t, 0 ≤ s.sched.scheduleTop t
  tip : stackTip sentinelProcess (s.entries s.sched.currentProcess) = s.currentPid

namespace Seated

variable {s : Tasks}

/-- A process on the processor is the uppermost one of the running terminal. -/
theorem entries_eq (h : Seated s) (hpid : s.currentPid ≠ sentinelProcess) :
    ∃ l, s.entries s.sched.currentProcess = l ++ [s.currentPid] := by
  rcases List.eq_nil_or_concat (s.entries s.sched.currentProcess) with hnil | ⟨l, p, hl⟩
  · have htip := h.tip
    rw [hnil, stackTip_nil] at htip
    exact absurd htip.symm hpid
  · have htip := h.tip
    rw [hl, List.concat_eq_append, stackTip_append] at htip
    exact ⟨l, by rw [hl, List.concat_eq_append, htip]⟩

theorem top_pos (h : Seated s) (hpid : s.currentPid ≠ sentinelProcess) :
    0 < s.sched.scheduleTop s.sched.currentProcess := by
  obtain ⟨l, hl⟩ := h.entries_eq hpid
  by_contra hle
  rw [Tasks.entries_eq_nil (by omega)] at hl
  simp at hl

/-- A fresh process is on no stack. -/
theorem off (h : Seated s) {q : Pid} (hfresh : s.Fresh q) (t : Terminal) : q ∉ s.entries t := by
  intro hmem
  have halive := h.live t q hmem
  rw [hfresh.not_alive] at halive
  cases halive

theorem request (h : Seated s) (num : Terminal) : Seated (s.request num) :=
  ⟨h.forest, h.live, h.top_nonneg, h.tip⟩

/-- A process is spawned while its parent's terminal is displayed. -/
theorem spawn (h : Seated s) (hplace : s.currentTerminal = s.sched.currentProcess) {q : Pid}
    (hfresh : s.Fresh q) : Seated (s.spawn q) := by
  have hentries := Tasks.entries_spawn (h.top_nonneg s.currentTerminal) q
  have htip : stackTip sentinelProcess (s.entries s.currentTerminal) = s.currentPid := by
    rw [hplace, h.tip]
  have hself := h.top_nonneg s.currentTerminal
  constructor
  · rw [hentries]
    have hpush := h.forest.push s.currentTerminal hfresh.ne_sentinel (h.off hfresh)
    rw [htip] at hpush
    exact hpush
  · intro t p hp
    rw [hentries] at hp
    rcases StackForest.mem_push_iff.mp ⟨t, hp⟩ with rfl | ⟨u, hu⟩
    · simp [Tasks.spawn]
    · have hne : p ≠ q := by
        rintro rfl
        exact h.off hfresh u hu
      simp only [Tasks.spawn, Function.update_of_ne hne]
      exact h.live u p hu
  · intro t
    rcases eq_or_ne t s.currentTerminal with rfl | hne
    · simp only [Tasks.spawn, Function.update_self]
      omega
    · simp only [Tasks.spawn, Function.update_of_ne hne]
      exact h.top_nonneg t
  · have hcur : (s.spawn q).sched.currentProcess = s.currentTerminal := hplace.symm
    rw [hentries, hcur, Function.update_self, stackTip_append]
    rfl

/-- The uppermost process of the running terminal ends. -/
theorem exit (h : Seated s) (hpid : s.currentPid ≠ sentinelProcess) : Seated s.exit := by
  obtain ⟨l, hlast⟩ := h.entries_eq hpid
  have hpos := h.top_pos hpid
  have hentries := Tasks.entries_exit hlast
  constructor
  · rw [hentries]
    exact h.forest.pop hlast
  · intro t p hp
    rw [hentries] at hp
    obtain ⟨hne, u, hu⟩ := (h.forest.mem_pop_iff hlast).mp ⟨t, hp⟩
    simp only [Tasks.exit, Function.update_of_ne hne]
    exact h.live u p hu
  · intro t
    rcases eq_or_ne t s.sched.currentProcess with rfl | hne
    · simp only [Tasks.exit, Function.update_self]
      omega
    · simp only [Tasks.exit, Function.update_of_ne hne]
      exact h.top_nonneg t
  · have hcur : s.exit.sched.currentProcess = s.sched.currentProcess := rfl
    rw [hentries, hcur, Function.update_self]
    exact (h.forest.parent_eq_tip hlast).symm

end Seated

/-! ## Threads and stacks -/

/-- The invariant, on the scheduling state, the process on the processor, the threads behind the
slots and the callers. -/
structure Tidy (s : Tasks) (owner : Pid) (slots : Terminal → Int → Control)
    (caller : Pid → Control) : Prop where
  forest : StackForest sentinelProcess s.parent s.entries
  live_iff : ∀ p, p ≠ sentinelProcess → (s.alive p = true ↔ ∃ t, p ∈ s.entries t)
  top_nonneg : ∀ t, 0 ≤ s.sched.scheduleTop t
  started : ∀ t, s.running t = false → s.sched.scheduleTop t = 0
  current : s.currentPid = owner
  tip : stackTip sentinelProcess (s.entries s.sched.currentProcess) = owner
  slots_free : ∀ t i, s.sched.scheduleTop t ≤ i → s.sched.scheduleEbp t i = 0
  slot_owner : ∀ t i, i < s.sched.scheduleTop t → s.sched.scheduleEbp t i ≠ 0 →
    (slots t i).owner = s.sched.scheduleStack t i
  caller_owner : ∀ t, ∀ p ∈ s.entries t, (caller p).owner = s.parent p

namespace Tidy

variable {s : Tasks} {owner : Pid} {slots : Terminal → Int → Control} {caller : Pid → Control}

/-- The schedule stacks form the tree of live processes. -/
theorem processTree (h : Tidy s owner slots caller) : ProcessTree s where
  chain := h.forest.chain
  once := by
    intro p hp halive
    obtain ⟨t, ht⟩ := (h.live_iff p hp).mp halive
    exact ⟨t, h.forest.unique ht⟩
  live := by
    intro t p hp
    have hne := h.forest.ne_root hp
    exact ⟨hne, (h.live_iff p hne).mpr ⟨t, hp⟩⟩

theorem seated (h : Tidy s owner slots caller) : Seated s where
  forest := h.forest
  live := fun t p hp => (h.live_iff p (h.forest.ne_root hp)).mpr ⟨t, hp⟩
  top_nonneg := h.top_nonneg
  tip := h.tip.trans h.current.symm

theorem top_pos (h : Tidy s owner slots caller) (howner : owner ≠ sentinelProcess) :
    0 < s.sched.scheduleTop s.sched.currentProcess :=
  h.seated.top_pos (h.current ▸ howner)

theorem topPid_eq (h : Tidy s owner slots caller)
    (hpos : 0 < s.sched.scheduleTop s.sched.currentProcess) :
    s.sched.scheduleStack s.sched.currentProcess (s.sched.topIdx s.sched.currentProcess) =
      owner := by
  have htip := h.tip
  rw [Tasks.entries_eq_append hpos, stackTip_append] at htip
  exact htip

theorem request (h : Tidy s owner slots caller) (num : Terminal) :
    Tidy (s.request num) owner slots caller :=
  ⟨h.forest, h.live_iff, h.top_nonneg, h.started, h.current, h.tip, h.slots_free, h.slot_owner,
    h.caller_owner⟩

/-- The sentinel on a terminal that has not been started. -/
theorem enter (h : Tidy s owner slots caller) {num : Terminal} (hnum : s.running num = false) :
    Tidy (s.enter num) sentinelProcess slots caller where
  forest := h.forest
  live_iff := h.live_iff
  top_nonneg := h.top_nonneg
  started := h.started
  current := rfl
  tip := by
    have hnil : (s.enter num).entries num = [] := by
      rw [Tasks.entries_enter]
      exact Tasks.entries_eq_nil (h.started num hnum).le
    exact congrArg (stackTip sentinelProcess) hnil
  slots_free := h.slots_free
  slot_owner := h.slot_owner
  caller_owner := h.caller_owner

/-- A process is spawned while its parent's terminal is displayed. -/
theorem spawn (h : Tidy s owner slots caller)
    (hplace : s.currentTerminal = s.sched.currentProcess) {q : Pid} (hfresh : s.Fresh q)
    {c : Control} (hc : c.owner = owner) :
    Tidy (s.spawn q) q slots (Function.update caller q c) := by
  have hseated := h.seated.spawn hplace hfresh
  have hentries := Tasks.entries_spawn (h.top_nonneg s.currentTerminal) q
  have hself := h.top_nonneg s.currentTerminal
  constructor
  · exact hseated.forest
  · intro p hp
    -- live and on a stack: the new process is both
    rw [hentries, StackForest.mem_push_iff, ← h.live_iff p hp]
    rcases eq_or_ne p q with rfl | hne
    · simp [Tasks.spawn]
    · simp [Tasks.spawn, hne]
  · exact hseated.top_nonneg
  · intro t ht
    rcases eq_or_ne t s.currentTerminal with rfl | hne
    · simp [Tasks.spawn] at ht
    · simp only [Tasks.spawn, Function.update_of_ne hne] at ht ⊢
      exact h.started t ht
  · rfl
  · exact hseated.tip
  · intro t i hi
    rcases eq_or_ne t s.currentTerminal with rfl | hne
    · simp only [Tasks.spawn, Function.update_self] at hi
      exact h.slots_free _ i (by omega)
    · simp only [Tasks.spawn, Function.update_of_ne hne] at hi
      exact h.slots_free t i hi
  · intro t i hi hebp
    -- a slot in use lies below the new entry
    have hlt : i < s.sched.scheduleTop t := by
      by_contra hle
      exact hebp (h.slots_free t i (by omega))
    rw [h.slot_owner t i hlt hebp]
    simp only [Tasks.spawn]
    rw [setEntry_of_ne]
    rcases eq_or_ne t s.currentTerminal with rfl | hne
    · exact Or.inr (by omega)
    · exact Or.inl hne
  · intro t p hp
    rw [hentries] at hp
    -- the new process was called by the owner, and no record of another changes
    rcases StackForest.mem_push_iff.mp ⟨t, hp⟩ with rfl | ⟨u, hu⟩
    · simp only [Tasks.spawn, Function.update_self]
      rw [hc, h.current]
    · have hne : p ≠ q := by
        rintro rfl
        exact h.seated.off hfresh u hu
      simp only [Tasks.spawn, Function.update_of_ne hne]
      exact h.caller_owner u p hu

/-- The uppermost process of the running terminal ends. -/
theorem exit (h : Tidy s owner slots caller) (howner : owner ≠ sentinelProcess) :
    Tidy s.exit (s.parent owner) slots caller := by
  have hpos := h.top_pos howner
  have hlast := Tasks.entries_eq_append hpos
  rw [h.topPid_eq hpos] at hlast
  have hentries := Tasks.entries_exit hlast
  have hseated := h.seated.exit (h.current ▸ howner)
  constructor
  · exact hseated.forest
  · intro p hp
    -- live and on a stack: the process that ends is neither any more
    rw [hentries, h.forest.mem_pop_iff hlast, ← h.live_iff p hp]
    rcases eq_or_ne p owner with rfl | hne
    · simp [Tasks.exit, h.current]
    · simp [Tasks.exit, h.current, hne]
  · exact hseated.top_nonneg
  · intro t ht
    have htop := h.started t ht
    rcases eq_or_ne t s.sched.currentProcess with rfl | hne
    · omega
    · simp only [Tasks.exit, Function.update_of_ne hne]
      exact htop
  · simp only [Tasks.exit, h.current]
  · have htip := hseated.tip
    simp only [Tasks.exit, h.current] at htip
    exact htip
  · intro t i hi
    -- `halt` clears the slot of the process, so that none is in use at or above the new top
    by_cases hslot : t = s.sched.currentProcess ∧ i = s.sched.topIdx s.sched.currentProcess
    · obtain ⟨rfl, rfl⟩ := hslot
      simp [Tasks.exit]
    · have hne : t ≠ s.sched.currentProcess ∨ i ≠ s.sched.topIdx s.sched.currentProcess := by
        tauto
      simp only [Tasks.exit]
      rw [setEntry_of_ne _ _ hne]
      apply h.slots_free
      rcases eq_or_ne t s.sched.currentProcess with rfl | hne'
      · simp only [Tasks.exit, Function.update_self, Scheduler.topIdx] at hi hne
        simp only [ne_eq, not_true, false_or] at hne
        omega
      · simp only [Tasks.exit, Function.update_of_ne hne'] at hi
        exact hi
  · intro t i hi hebp
    have hne : t ≠ s.sched.currentProcess ∨ i ≠ s.sched.topIdx s.sched.currentProcess := by
      rcases eq_or_ne t s.sched.currentProcess with rfl | hne
      · simp only [Tasks.exit, Function.update_self] at hi
        exact Or.inr (by simp only [Scheduler.topIdx]; omega)
      · exact Or.inl hne
    simp only [Tasks.exit] at hebp ⊢
    rw [setEntry_of_ne _ _ hne] at hebp ⊢
    refine h.slot_owner t i ?_ hebp
    by_contra hle
    exact hebp (h.slots_free t i (by omega))
  · intro t p hp
    rw [hentries] at hp
    obtain ⟨_, u, hu⟩ := (h.forest.mem_pop_iff hlast).mp ⟨t, hp⟩
    exact h.caller_owner u p hu

/-- The context of the process on the processor is saved. -/
theorem save (h : Tidy s owner slots caller) (esp ebp : Word) {c : Control}
    (hc : c.owner = owner) :
    Tidy (s.save esp ebp) owner
      (if s.sched.scheduleTop s.sched.currentProcess ≠ 0 then
        setEntry slots s.sched.currentProcess (s.sched.topIdx s.sched.currentProcess) c
      else slots) caller := by
  have hself := h.top_nonneg s.sched.currentProcess
  by_cases htop : s.sched.scheduleTop s.sched.currentProcess = 0
  · simp only [Tasks.save, htop, ne_eq, not_true, if_false]
    exact ⟨h.forest, h.live_iff, h.top_nonneg, h.started, h.current, h.tip, h.slots_free,
      h.slot_owner, h.caller_owner⟩
  · simp only [Tasks.save, htop, ne_eq, not_false_eq_true, if_true]
    refine ⟨h.forest, h.live_iff, h.top_nonneg, h.started, h.current, h.tip, ?_, ?_,
      h.caller_owner⟩
    · intro t i hi
      have hne : t ≠ s.sched.currentProcess ∨ i ≠ s.sched.topIdx s.sched.currentProcess := by
        rcases eq_or_ne t s.sched.currentProcess with rfl | hne
        · exact Or.inr (by simp only [Scheduler.topIdx] at hi ⊢; omega)
        · exact Or.inl hne
      exact (setEntry_of_ne _ _ hne).trans (h.slots_free t i hi)
    · intro t i hi hebp
      by_cases hslot : t = s.sched.currentProcess ∧ i = s.sched.topIdx s.sched.currentProcess
      · obtain ⟨rfl, rfl⟩ := hslot
        rw [setEntry_self, hc]
        exact (h.topPid_eq (by omega)).symm
      · have hne : t ≠ s.sched.currentProcess ∨ i ≠ s.sched.topIdx s.sched.currentProcess := by
          tauto
        rw [setEntry_of_ne _ _ hne]
        exact h.slot_owner t i hi fun hzero => hebp ((setEntry_of_ne _ _ hne).trans hzero)

/-- The processor goes to another terminal. -/
theorem resume_of_restores (h : Tidy s owner slots caller) {t : Terminal} (ht : s.Restores t) :
    Tidy (s.resume t) (slots t (s.sched.topIdx t)).owner slots caller := by
  have hpos : 0 < s.sched.scheduleTop t := lt_of_le_of_ne (h.top_nonneg t) ht.1.symm
  have howner := h.slot_owner t (s.sched.topIdx t)
    (by simp only [Scheduler.topIdx]; omega) ht.2
  have htip : stackTip sentinelProcess (s.entries t) =
      s.sched.scheduleStack t (s.sched.topIdx t) := by
    rw [Tasks.entries_eq_append hpos, stackTip_append]
  rw [howner]
  simp only [Tasks.resume, ht, if_true]
  exact ⟨h.forest, h.live_iff, h.top_nonneg, h.started, rfl, htip, h.slots_free, h.slot_owner,
    h.caller_owner⟩

/-- The processor stays where it is. -/
theorem resume_of_eq (h : Tidy s owner slots caller)
    (ht : ¬ s.Restores s.sched.currentProcess) :
    Tidy (s.resume s.sched.currentProcess) owner slots caller := by
  simp only [Tasks.resume, ht, if_false]
  exact ⟨h.forest, h.live_iff, h.top_nonneg, h.started, h.current, h.tip, h.slots_free,
    h.slot_owner, h.caller_owner⟩

/-- Before the first program there is nothing to keep in order. -/
theorem boot (espBoot : Word) :
    Tidy (bootMachine espBoot).tasks sentinelProcess (bootMachine espBoot).slotControl
      (bootMachine espBoot).caller where
  forest := StackForest.empty
  live_iff := by
    intro p hp
    have hdead : (bootMachine espBoot).tasks.alive p = false := by
      simp [Machine.tasks, Kernel.tasks, bootMachine, bootKernel, initialPcb, hp]
    rw [hdead]
    constructor
    · intro h
      cases h
    · rintro ⟨t, ht⟩
      cases ht
  top_nonneg _ := le_rfl
  started _ _ := rfl
  current := rfl
  tip := rfl
  slots_free _ _ _ := rfl
  slot_owner _ _ _ h := absurd rfl h
  caller_owner _ _ h := by cases h

end Tidy

/-! ## Orderly runs -/

/-- The switch has tried to start a shell, and failed. -/
def SwitchResult.failed : SwitchResult → Bool
  | .executed (.returned _ _) => true
  | _ => false

namespace Machine

/-- What one step owes the process tree: a new process goes on the stack that has its parent as
its uppermost entry (or on an empty one, if the sentinel is the parent), and a process that
halts takes its own entry with it. -/
structure KeepsTree (m : Machine) (e : Event) (m' : Machine) : Prop where
  pushed : ∀ q, m.tasks.alive q = false → m'.tasks.alive q = true → ∃ t,
    m'.tasks.entries = Function.update m.tasks.entries t (m.tasks.entries t ++ [q]) ∧
      stackTip sentinelProcess (m.tasks.entries t) = m'.tasks.parent q
  popped : ∀ status, e = .halt status → ∃ t l, m.tasks.entries t = l ++ [m.cpu.owner] ∧
    m'.tasks.entries = Function.update m.tasks.entries t l ∧
      m'.tasks.alive m.cpu.owner = false

/-- The conditions on a step: programs are started while the running terminal is displayed, the
shell of a terminal does start, and the timer goes to a terminal whose uppermost process
has been saved, or stays. -/
structure Orderly (img : FsImage) (m : Machine) (e : Event) (_ : Machine) : Prop where
  execute : ∀ command res frame, e = .execute command res frame →
    ∀ entry k, Ece391Os.execute img res frame m.kernel.cli command = .started entry k →
      m.tasks.currentTerminal = m.tasks.sched.currentProcess
  respawn : ∀ res frame, e = .respawn res frame →
    (∀ entry k, Ece391Os.execute img res frame m.kernel.cli (some shellName) = .started entry k →
      m.tasks.currentTerminal = m.tasks.sched.currentProcess) ∧
    ∀ v k, Ece391Os.execute img res frame m.kernel.cli (some shellName) = .returned v k →
      m.interrupted m.tasks.pastPid = none
  altFn : ∀ num esp ebp res frame, e = .altFn num esp ebp res frame →
    (terminalSwitch img res frame (keyboardKernel m.kernel) num).failed = false
  tick : ∀ esp ebp, e = .tick esp ebp → ∀ t, m.tasks.next = some t →
    t = m.tasks.sched.currentProcess ∨ m.tasks.Restores t

/-- The invariant of a machine. -/
abbrev IsTidy (m : Machine) : Prop := Tidy m.tasks m.cpu.owner m.slotControl m.caller

section Steps

variable {img : FsImage} {m m' : Machine}

theorem save_restores_iff {s : Tasks} {t : Terminal} (esp ebp : Word)
    (h : t ≠ s.sched.currentProcess) : (s.save esp ebp).Restores t ↔ s.Restores t := by
  simp only [Tasks.save]
  split
  · simp only [Tasks.Restores, Scheduler.topIdx]
    rw [setEntry_of_ne _ _ (Or.inl h)]
  · rfl

/-- The timer's step. -/
theorem IsTidy.tick (h : IsTidy m) {esp ebp : Word} {t : Terminal}
    (ht : t = m.tasks.sched.currentProcess ∨ m.tasks.Restores t)
    (htasks : m'.tasks = (m.tasks.save esp ebp).resume t)
    (hcpu : m'.cpu = if (m.tasks.save esp ebp).Restores t then
      m.savedControls t (m.tasks.sched.topIdx t) else m.cpu)
    (hslots : m'.slotControl = m.savedControls) (hcaller : m'.caller = m.caller) :
    IsTidy m' := by
  have hsaved : Tidy (m.tasks.save esp ebp) m.cpu.owner m.savedControls m.caller :=
    h.save esp ebp rfl
  have hidx : (m.tasks.save esp ebp).sched.topIdx t = m.tasks.sched.topIdx t := by
    rw [Scheduler.topIdx, save_scheduleTop, Scheduler.topIdx]
  have hcur : (m.tasks.save esp ebp).sched.currentProcess = m.tasks.sched.currentProcess := by
    simp only [Tasks.save]
    split <;> rfl
  rw [IsTidy, htasks, hslots, hcaller]
  by_cases hrestores : (m.tasks.save esp ebp).Restores t
  · rw [hcpu, if_pos hrestores, ← hidx]
    exact hsaved.resume_of_restores hrestores
  · have hstay : t = m.tasks.sched.currentProcess := by
      by_contra hne
      rcases ht with heq | hold
      · exact hne heq
      · exact hrestores ((save_restores_iff esp ebp hne).mpr hold)
    rw [hcpu, if_neg hrestores]
    rw [hstay, ← hcur] at hrestores ⊢
    exact hsaved.resume_of_eq hrestores

/-- The sentinel has no user program. -/
theorem owner_ne_of_inUser (h : m.inUser = true) : m.cpu.owner ≠ sentinelProcess := by
  intro hsentinel
  simp [inUser, hsentinel] at h

theorem keepsTree_of_same {e : Event} (halive : m'.tasks.alive = m.tasks.alive)
    (hhalt : ∀ status, e ≠ .halt status) : KeepsTree m e m' where
  pushed q hdead hlive := by
    rw [halive, hdead] at hlive
    cases hlive
  popped status he := absurd he (hhalt status)

/-- A spawned process is where its parent is. -/
theorem keepsTree_of_spawn {e : Event} {s : Tasks} {owner q : Pid}
    {slots : Terminal → Int → Control} {caller : Pid → Control}
    (hs : Tidy s owner slots caller) (hplace : s.currentTerminal = s.sched.currentProcess)
    (hentries : s.entries = m.tasks.entries) (halive : s.alive = m.tasks.alive)
    (htasks : m'.tasks = s.spawn q) (hhalt : ∀ status, e ≠ .halt status) : KeepsTree m e m' where
  pushed p hdead hlive := by
    have hp : p = q := by
      by_contra hne
      rw [htasks] at hlive
      simp only [Tasks.spawn, Function.update_of_ne hne, halive, hdead] at hlive
      cases hlive
    subst hp
    refine ⟨s.currentTerminal, ?_, ?_⟩
    · rw [htasks, Tasks.entries_spawn (hs.top_nonneg _), hentries]
    · rw [htasks, ← hentries, hplace, hs.tip, ← hs.current]
      simp [Tasks.spawn]
  popped status he := absurd he (hhalt status)

/-- The step lemma. -/
theorem IsTidy.step {e : Event} (h : IsTidy m) (hstep : Machine.step img m e = some m')
    (horderly : Orderly img m e m') : IsTidy m' ∧ KeepsTree m e m' := by
  cases effect_of_step hstep with
  | quiet _ hhalt htasks howner hrecords =>
      refine ⟨?_, keepsTree_of_same (by rw [htasks]) hhalt⟩
      rw [IsTidy, htasks, howner, hrecords.slotControl, hrecords.caller]
      exact h
  | request _ _ htasks hcpu hrecords =>
      refine ⟨?_, keepsTree_of_same (by rw [htasks]; rfl) (by simp)⟩
      rw [IsTidy, htasks, hcpu, hrecords.slotControl, hrecords.caller]
      exact Tidy.request h _
  | enterFailed hfailed =>
      -- an orderly switch to a new terminal starts its shell
      have hstarts := horderly.altFn _ _ _ _ _ rfl
      rw [hfailed] at hstarts
      cases hstarts
  | enter _ hstopped hfresh htasks howner hslots hcaller =>
      have henter := Tidy.enter h hstopped
      refine ⟨?_, keepsTree_of_spawn henter rfl rfl rfl htasks (by simp)⟩
      rw [IsTidy, htasks, howner, hslots, hcaller]
      exact henter.spawn rfl ⟨hfresh.ne_sentinel, hfresh.not_alive⟩ rfl
  | execute _ hstarted hfresh htasks howner hslots hcaller =>
      have hplace := horderly.execute _ _ _ rfl _ _ hstarted
      refine ⟨?_, keepsTree_of_spawn h hplace rfl rfl htasks (by simp)⟩
      rw [IsTidy, htasks, howner, hslots, hcaller]
      exact Tidy.spawn h hplace hfresh rfl
  | respawn hsentinel _ hstarted hfresh htasks howner hslots hcaller =>
      have hplace := (horderly.respawn _ _ rfl).1 _ _ hstarted
      refine ⟨?_, keepsTree_of_spawn h hplace rfl rfl htasks (by simp)⟩
      rw [IsTidy, htasks, howner, hslots, hcaller]
      exact Tidy.spawn h hplace hfresh hsentinel.symm
  | respawnFailed _ hfailed htasks hrecords hcpu =>
      have hnone := (horderly.respawn _ _ rfl).2 _ _ hfailed
      refine ⟨?_, keepsTree_of_same (by rw [htasks]) (by simp)⟩
      rw [IsTidy, htasks, hcpu hnone, hrecords.slotControl, hrecords.caller]
      exact h
  | halt huser htasks hcpu hrecords =>
      have howner := owner_ne_of_inUser huser
      have hpos := Tidy.top_pos h howner
      have hlast := Tasks.entries_eq_append hpos
      rw [Tidy.topPid_eq h hpos] at hlast
      constructor
      · -- control goes back to the caller of the process, which is its parent
        have hback : (m.caller m.tasks.currentPid).owner = m.tasks.parent m.cpu.owner := by
          rw [h.current]
          exact h.caller_owner m.tasks.sched.currentProcess _ (by simp [hlast])
        rw [IsTidy, htasks, hcpu, hback, hrecords.slotControl, hrecords.caller]
        exact Tidy.exit h howner
      · constructor
        · intro q hdead hlive
          rw [htasks] at hlive
          rcases eq_or_ne q m.tasks.currentPid with rfl | hne
          · simp [Tasks.exit] at hlive
          · simp only [Tasks.exit, Function.update_of_ne hne, hdead] at hlive
            cases hlive
        · rintro status _
          refine ⟨m.tasks.sched.currentProcess, _, hlast, ?_, ?_⟩
          · rw [htasks]
            exact Tasks.entries_exit hlast
          · rw [htasks, ← h.current]
            simp [Tasks.exit]
  | tick hnext htasks hcpu hslots hcaller =>
      refine ⟨IsTidy.tick h (horderly.tick _ _ rfl _ hnext) htasks hcpu hslots hcaller,
        keepsTree_of_same ?_ (by simp)⟩
      rw [htasks]
      simp only [Tasks.resume, Tasks.save]
      split <;> split <;> rfl

end Steps

/-- In every run of orderly steps, the stacks are the process tree after every step, and every step
keeps them so. -/
theorem processTree_of_orderly {img : FsImage} {espBoot : Word} {es : List Event}
    (horderly : AllSteps (step img) (Orderly img) (bootMachine espBoot) es) :
    AllSteps (step img) (fun m e m' => ProcessTree m'.tasks ∧ KeepsTree m e m')
      (bootMachine espBoot) es := by
  refine allSteps_of_invariant (I := IsTidy) ?_ (Tidy.boot espBoot) horderly
  intro m e m' h hstep hQ
  obtain ⟨h', hkeeps⟩ := h.step hstep hQ
  exact ⟨h', h'.processTree, hkeeps⟩

/-! ## Two runs -/

/-- A shell is started on a second terminal, executes `ls`, and `ls` halts. -/
def orderlyRun : List Event :=
  [.respawn emptyResidue ⟨0x7FFFB0, 0x7F6300⟩, .openWindow, .tick 0x7F7E00 0x7F7E40,
    .altFn 1 0x7F7D80 0x7F7DC0 emptyResidue ⟨0x7F7D00, 0x7EE100⟩,
    .execute (some lsName) emptyResidue ⟨0x7EFF00, 0x7E6200⟩, .halt 0]

/-- The steps of that run are orderly. -/
theorem orderly_orderlyRun :
    AllSteps (step shellImage) (Orderly shellImage) (bootMachine 0x7FFFC0) orderlyRun := by
  intro m₁ h₁
  obtain rfl := Option.some.inj (h₁.symm.trans step_bootedMachine)
  refine ⟨⟨nofun, ?_, nofun, nofun⟩, ?_⟩
  · rintro _ _ ⟨⟩
    exact ⟨fun _ _ _ => by decide, fun _ _ _ => rfl⟩
  intro m₂ h₂
  obtain rfl := Option.some.inj (h₂.symm.trans step_shellInCall)
  refine ⟨⟨nofun, nofun, nofun, nofun⟩, ?_⟩
  intro m₃ h₃
  obtain rfl := Option.some.inj (h₃.symm.trans step_shellTicked)
  refine ⟨⟨nofun, nofun, nofun, ?_⟩, ?_⟩
  · rintro _ _ ⟨⟩
    decide
  intro m₄ h₄
  obtain rfl := Option.some.inj (h₄.symm.trans step_twoShells)
  refine ⟨⟨nofun, nofun, ?_, nofun⟩, ?_⟩
  · rintro _ _ _ _ _ ⟨⟩
    decide
  intro m₅ _
  refine ⟨⟨?_, nofun, nofun, nofun⟩, fun _ _ => ⟨⟨nofun, nofun, nofun, nofun⟩, trivial⟩⟩
  rintro _ _ _ ⟨⟩ _ _ _
  decide

/-- The stacks stay the process tree in that run. -/
theorem processTree_orderlyRun :
    AllSteps (step shellImage) (fun m e m' => ProcessTree m'.tasks ∧ KeepsTree m e m')
      (bootMachine 0x7FFFC0) orderlyRun :=
  processTree_of_orderly orderly_orderlyRun

/-- The first shell executes `ls` while the second terminal is displayed. -/
def backgroundRun : List Event :=
  [.openWindow, .tick 0x7EFE00 0x7EFE40, .closeWindow,
    .execute (some lsName) emptyResidue ⟨0x7F7F00, 0x7EE200⟩]

/-- The machine after that. -/
def backgroundLs : Machine :=
  (runFrom (step shellImage) twoShells backgroundRun).get (by decide +kernel)

/-- The child of the first shell stands on the stack of the second one. -/
theorem not_processTree_backgroundLs :
    runFrom (step shellImage) bootedMachine (secondShellRun ++ backgroundRun) =
        some backgroundLs ∧
      backgroundLs.tasks.entries 0 = [1] ∧ backgroundLs.tasks.entries 1 = [2, 3] ∧
      backgroundLs.tasks.parent 3 = 1 ∧ ¬ ProcessTree backgroundLs.tasks := by
  have hrun : runFrom (step shellImage) bootedMachine (secondShellRun ++ backgroundRun) =
      some backgroundLs := by
    rw [runFrom_append, run_twoShells]
    exact (Option.some_get _).symm
  refine ⟨hrun, by decide, by decide, by decide, fun h => ?_⟩
  exact absurd (h.chain 1) (by decide)

end Machine

end Ece391Os
