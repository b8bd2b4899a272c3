import Ece391Os.Properties.ProcessTree

/-!
# Context switches

What a timer interrupt saves and restores. It is faithful (`Machine.Faithful`) when the running
terminal is that of the process on the processor, and when the context it restores is the
one with which the uppermost process of the chosen terminal last stopped. `SavedContexts`
is the invariant behind it; it covers the processes that last stopped at a timer interrupt, and
not those whose processor a keyboard interrupt gave to a new shell (`Machine.parked`).
-/

set_option autoImplicit false

namespace Ece391Os

open EventRun

namespace Tasks

/-- The uppermost entry of a stack. -/
def topPid (s : Tasks) (t : Terminal) : Pid := s.sched.scheduleStack t (s.sched.topIdx t)

/-- The context that the resuming half makes of the uppermost slot of a stack. -/
def slotContext (s : Tasks) (t : Terminal) : Context :=
  ⟨s.sched.scheduleEsp t (s.sched.topIdx t), s.sched.scheduleEbp t (s.sched.topIdx t),
    { s.sched.scheduleTss t (s.sched.topIdx t) with esp0 := esp0Of (s.topPid t) }⟩

/-- The context that the timer interrupt goes on with. -/
def context (s : Tasks) : Context := ⟨s.sched.lastEsp, s.sched.lastEbp, s.sched.tss⟩

variable {s : Tasks}

theorem topPid_mem {t : Terminal} (h : 0 < s.sched.scheduleTop t) : s.topPid t ∈ s.entries t := by
  rw [entries_eq_append h]
  simp [topPid]

/-- A spawned process leaves the uppermost slots of the other terminals alone. -/
theorem spawn_others (q : Pid) {t : Terminal} (h : t ≠ s.currentTerminal) :
    (s.spawn q).topPid t = s.topPid t ∧ (s.spawn q).slotContext t = s.slotContext t ∧
      (s.spawn q).sched.scheduleTop t = s.sched.scheduleTop t := by
  have htop : (s.spawn q).sched.scheduleTop t = s.sched.scheduleTop t := by
    simp [spawn, Function.update_of_ne h]
  have hidx : (s.spawn q).sched.topIdx t = s.sched.topIdx t := by
    rw [Scheduler.topIdx, htop, Scheduler.topIdx]
  have hpid : (s.spawn q).topPid t = s.topPid t := by
    rw [topPid, hidx]
    exact setEntry_of_ne _ _ (Or.inl h)
  refine ⟨hpid, ?_, htop⟩
  rw [slotContext, hidx, hpid]
  rfl

/-- So does a process that ends. -/
theorem exit_others {t : Terminal} (h : t ≠ s.sched.currentProcess) :
    s.exit.topPid t = s.topPid t ∧ s.exit.slotContext t = s.slotContext t ∧
      s.exit.sched.scheduleTop t = s.sched.scheduleTop t := by
  have htop : s.exit.sched.scheduleTop t = s.sched.scheduleTop t := by
    simp [exit, Function.update_of_ne h]
  have hidx : s.exit.sched.topIdx t = s.sched.topIdx t := by
    rw [Scheduler.topIdx, htop, Scheduler.topIdx]
  have hpid : s.exit.topPid t = s.topPid t := by
    rw [topPid, hidx]
    exact setEntry_of_ne _ _ (Or.inl h)
  refine ⟨hpid, ?_, htop⟩
  rw [slotContext, hidx, hpid]
  simp only [exit]
  rw [setEntry_of_ne _ _ (Or.inl h), setEntry_of_ne _ _ (Or.inl h)]
  rfl

theorem save_topPid (esp ebp : Word) (t : Terminal) :
    (s.save esp ebp).topPid t = s.topPid t := by
  simp only [save]
  split <;> rfl

/-- The saving half writes one slot. -/
theorem save_others (esp ebp : Word) {t : Terminal} (h : t ≠ s.sched.currentProcess) :
    (s.save esp ebp).slotContext t = s.slotContext t := by
  rw [slotContext, save_topPid]
  simp only [save]
  split
  · simp only [Scheduler.topIdx]
    rw [setEntry_of_ne _ _ (Or.inl h), setEntry_of_ne _ _ (Or.inl h),
      setEntry_of_ne _ _ (Or.inl h)]
    rfl
  · rfl

/-- That slot holds the interrupted context, whose kernel stack is that of the process. -/
theorem save_self (esp ebp : Word) (h : s.sched.scheduleTop s.sched.currentProcess ≠ 0)
    (htss : s.sched.tss.esp0 = esp0Of (s.topPid s.sched.currentProcess)) :
    (s.save esp ebp).slotContext s.sched.currentProcess = ⟨esp, ebp, s.sched.tss⟩ := by
  rw [slotContext, save_topPid, ← htss]
  simp only [save, h, ne_eq, not_false_eq_true, if_true, Scheduler.topIdx, setEntry_self]

theorem save_context (esp ebp : Word) :
    (s.save esp ebp).context = ⟨esp, ebp, s.sched.tss⟩ := by
  simp only [save]
  split <;> rfl

theorem resume_topPid (t u : Terminal) : (s.resume t).topPid u = s.topPid u := by
  simp only [resume]
  split <;> rfl

theorem resume_slotContext (t u : Terminal) : (s.resume t).slotContext u = s.slotContext u := by
  simp only [resume]
  split <;> rfl

theorem resume_context {t : Terminal} (h : s.Restores t) :
    (s.resume t).context = s.slotContext t := by
  simp only [resume, h, if_true]
  rfl

theorem resume_context_of_not {t : Terminal} (h : ¬ s.Restores t) :
    (s.resume t).context = s.context := by
  simp only [resume, h, if_false]
  rfl

/-- A timer interrupt moves no process. -/
theorem resume_save_frame (esp ebp : Word) (t : Terminal) :
    ((s.save esp ebp).resume t).alive = s.alive ∧
      ((s.save esp ebp).resume t).stackTop = s.stackTop ∧
      ((s.save esp ebp).resume t).sched.scheduleTop = s.sched.scheduleTop := by
  simp only [resume, save]
  split <;> split <;> exact ⟨rfl, rfl, rfl⟩

end Tasks

/-- The process on the processor stands on the running terminal only. -/
theorem Tidy.topPid_ne {s : Tasks} {owner : Pid} {slots : Terminal → Int → Control}
    {caller : Pid → Control} (h : Tidy s owner slots caller) {t : Terminal}
    (hne : t ≠ s.sched.currentProcess) (htop : 0 < s.sched.scheduleTop t) :
    s.topPid t ≠ owner := by
  intro heq
  have hmem := Tasks.topPid_mem htop
  have hroot := h.forest.ne_root hmem
  rw [heq] at hmem hroot
  have hpos := h.top_pos hroot
  have hself := Tasks.topPid_mem hpos
  rw [Tasks.topPid, h.topPid_eq hpos] at hself
  exact h.forest.disjoint _ _ hne hmem hself

/-! ## The invariant -/

/-- Kernel stacks, and the contexts of the processes that wait for the timer. -/
structure SavedContexts (s : Tasks) (owner : Pid) (lastStop : Pid → Context)
    (parked : Pid → Bool) : Prop where
  stack_top : ∀ p, p ≠ sentinelProcess → s.alive p = true → s.stackTop p = esp0Of p
  tss : owner ≠ sentinelProcess → s.sched.tss.esp0 = esp0Of owner
  slot : ∀ t, t ≠ s.sched.currentProcess → 0 < s.sched.scheduleTop t →
    parked (s.topPid t) = false → s.slotContext t = lastStop (s.topPid t)

namespace SavedContexts

variable {s : Tasks} {owner : Pid} {lastStop : Pid → Context} {parked : Pid → Bool}
  {slots : Terminal → Int → Control} {caller : Pid → Control}

theorem spawn (h : SavedContexts s owner lastStop parked)
    (hplace : s.currentTerminal = s.sched.currentProcess) (q : Pid) :
    SavedContexts (s.spawn q) q lastStop parked where
  stack_top := by
    intro p hp halive
    rcases eq_or_ne p q with rfl | hne
    · simp [Tasks.spawn]
    · simp only [Tasks.spawn, Function.update_of_ne hne] at halive ⊢
      exact h.stack_top p hp halive
  tss _ := rfl
  slot := by
    intro t ht htop hparked
    have hcur : t ≠ s.sched.currentProcess := ht
    obtain ⟨hpid, hcontext, hsame⟩ := Tasks.spawn_others (s := s) q (hplace ▸ hcur)
    rw [hpid] at hparked ⊢
    rw [hcontext]
    exact h.slot t hcur (hsame ▸ htop) hparked

/-- The sentinel takes over from a process that stops with a context that nobody saves. -/
theorem enter (h : SavedContexts s owner lastStop parked) (htidy : Tidy s owner slots caller)
    (num : Terminal) (c : Context) :
    SavedContexts (s.enter num) sentinelProcess (Function.update lastStop owner c)
      (Function.update parked owner true) where
  stack_top := h.stack_top
  tss hne := absurd rfl hne
  slot := by
    intro t ht htop hparked
    have hpid : (s.enter num).topPid t = s.topPid t := rfl
    have hcontext : (s.enter num).slotContext t = s.slotContext t := rfl
    rw [hpid] at hparked ⊢
    rw [hcontext]
    have hne : s.topPid t ≠ owner := by
      rintro heq
      rw [heq, Function.update_self] at hparked
      cases hparked
    rw [Function.update_of_ne hne] at hparked ⊢
    have hcur : t ≠ s.sched.currentProcess := by
      rintro rfl
      exact hne (htidy.topPid_eq htop)
    exact h.slot t hcur htop hparked

theorem exit (h : SavedContexts s owner lastStop parked) (htidy : Tidy s owner slots caller)
    (howner : owner ≠ sentinelProcess) :
    SavedContexts s.exit (s.parent owner) lastStop parked where
  stack_top := by
    intro p hp halive
    rcases eq_or_ne p s.currentPid with rfl | hne
    · simp [Tasks.exit] at halive
    · simp only [Tasks.exit, Function.update_of_ne hne] at halive
      exact h.stack_top p hp halive
  tss := by
    intro hparent
    -- the parent is the entry below, so it is alive
    have hpos := htidy.top_pos howner
    have hlast := Tasks.entries_eq_append hpos
    rw [htidy.topPid_eq hpos] at hlast
    have htip := htidy.forest.parent_eq_tip hlast
    have halive : s.alive (s.parent owner) = true := by
      refine (htidy.live_iff _ hparent).mpr ⟨s.sched.currentProcess, ?_⟩
      rw [hlast, htip]
      rw [htip] at hparent
      exact List.mem_append_left _ (stackTip_mem hparent)
    simp only [Tasks.exit, htidy.current]
    exact h.stack_top _ hparent halive
  slot := by
    intro t ht htop hparked
    have hcur : t ≠ s.sched.currentProcess := ht
    obtain ⟨hpid, hcontext, hsame⟩ := Tasks.exit_others hcur
    rw [hpid] at hparked ⊢
    rw [hcontext]
    exact h.slot t hcur (hsame ▸ htop) hparked

/-- After the saving half, the slot of the running terminal holds the last context of its
process. -/
theorem save (h : SavedContexts s owner lastStop parked) (htidy : Tidy s owner slots caller)
    (esp ebp : Word) (htop : 0 < s.sched.scheduleTop s.sched.currentProcess) :
    (s.save esp ebp).slotContext s.sched.currentProcess = ⟨esp, ebp, s.sched.tss⟩ := by
  have hpid : s.topPid s.sched.currentProcess = owner := htidy.topPid_eq htop
  have hmem := Tasks.topPid_mem htop
  apply Tasks.save_self esp ebp htop.ne'
  rw [hpid] at hmem ⊢
  exact h.tss (htidy.forest.ne_root hmem)

end SavedContexts

/-! ## Runs -/

namespace Machine

/-- What a timer interrupt owes: the process that it interrupts is the uppermost one of the running
terminal and on no other stack, and the context it goes on with is the one with which the
uppermost process of the chosen terminal last stopped. -/
structure Faithful (m : Machine) (e : Event) (m' : Machine) : Prop where
  running : ∀ esp ebp, e = .tick esp ebp →
    m.tasks.sched.scheduleTop m.tasks.sched.currentProcess ≠ 0 →
      m.tasks.topPid m.tasks.sched.currentProcess = m.cpu.owner ∧
        ∀ t, t ≠ m.tasks.sched.currentProcess → m.cpu.owner ∉ m.tasks.entries t
  restored : ∀ esp ebp, e = .tick esp ebp → ∀ t, m'.tasks.sched.currentProcess = t →
    m'.tasks.sched.scheduleTop t ≠ 0 →
      m'.tasks.context = m'.lastStop (m'.tasks.topPid t)

/-- The timer goes to no other terminal whose uppermost process has lost the processor to a
keyboard interrupt that started a shell, unless its slot happens to hold the very context
with which it stopped. -/
def NoneParked (m : Machine) (e : Event) (_ : Machine) : Prop :=
  ∀ esp ebp, e = .tick esp ebp → ∀ t, m.tasks.next = some t →
    t ≠ m.tasks.sched.currentProcess → m.parked (m.tasks.topPid t) = true →
      m.tasks.slotContext t = m.lastStop (m.tasks.topPid t)

/-- The invariant of a machine. -/
structure Switchable (m : Machine) : Prop where
  tidy : IsTidy m
  contexts : SavedContexts m.tasks m.cpu.owner m.lastStop m.parked

section Steps

variable {img : FsImage} {m m' : Machine}

theorem faithful_iff_of_ne {e : Event} (h : ∀ esp ebp, e ≠ .tick esp ebp) :
    Faithful m e m' ↔ NoneParked m e m' := by
  constructor
  · intro _ esp ebp he
    exact absurd he (h esp ebp)
  · intro _
    exact ⟨fun esp ebp he => absurd he (h esp ebp), fun esp ebp he => absurd he (h esp ebp)⟩

section Tick

variable {esp ebp : Word} {t : Terminal}

/-- The timer stays, or restores a context from the slot of another terminal. -/
theorem Switchable.tick_cases (h : Switchable m)
    (ht : t = m.tasks.sched.currentProcess ∨ m.tasks.Restores t)
    (htasks : m'.tasks = (m.tasks.save esp ebp).resume t) :
    (t = m.tasks.sched.currentProcess ∧ (0 < m.tasks.sched.scheduleTop t →
      m'.tasks.context = ⟨esp, ebp, m.tasks.sched.tss⟩)) ∨
    (t ≠ m.tasks.sched.currentProcess ∧ 0 < m.tasks.sched.scheduleTop t ∧
      m'.tasks.context = m.tasks.slotContext t) := by
  rw [htasks]
  rcases eq_or_ne t m.tasks.sched.currentProcess with rfl | hne
  · refine Or.inl ⟨rfl, fun hpos => ?_⟩
    by_cases hrestores : (m.tasks.save esp ebp).Restores m.tasks.sched.currentProcess
    · rw [Tasks.resume_context hrestores]
      exact h.contexts.save h.tidy esp ebp hpos
    · rw [Tasks.resume_context_of_not hrestores, Tasks.save_context]
  · rcases ht with heq | hold
    · exact absurd heq hne
    · have hpos := lt_of_le_of_ne (Tidy.top_nonneg h.tidy t) hold.1.symm
      refine Or.inr ⟨hne, hpos, ?_⟩
      rw [Tasks.resume_context ((save_restores_iff esp ebp hne).mpr hold),
        Tasks.save_others esp ebp hne]

/-- The timer's step keeps the invariant. -/
theorem Switchable.tick (h : Switchable m) (hm' : IsTidy m')
    (ht : t = m.tasks.sched.currentProcess ∨ m.tasks.Restores t)
    (htasks : m'.tasks = (m.tasks.save esp ebp).resume t)
    (hstop : m'.lastStop = Function.update m.lastStop m.cpu.owner ⟨esp, ebp, m.tasks.sched.tss⟩)
    (hparked : m'.parked = Function.update m.parked m.cpu.owner false) : Switchable m' := by
  obtain ⟨halive, hstackTop, htop⟩ := Tasks.resume_save_frame (s := m.tasks) esp ebp t
  have hcur : m'.tasks.sched.currentProcess = t := by rw [htasks, resume_currentProcess]
  have hpid : ∀ u, m'.tasks.topPid u = m.tasks.topPid u := by
    intro u
    rw [htasks, Tasks.resume_topPid, Tasks.save_topPid]
  rw [← htasks] at halive hstackTop htop
  refine ⟨hm', ⟨?_, ?_, ?_⟩⟩
  · rw [halive, hstackTop]
    exact h.contexts.stack_top
  · intro howner
    have hpos := Tidy.top_pos hm' howner
    have hnew : m'.tasks.topPid m'.tasks.sched.currentProcess = m'.cpu.owner :=
      Tidy.topPid_eq hm' hpos
    rw [hcur, htop] at hpos
    rw [← hnew, hcur, hpid]
    -- either the same process goes on, or the context of another one is restored
    rcases h.tick_cases ht htasks with ⟨rfl, hstay⟩ | ⟨_, _, hgo⟩
    · have hmem := Tasks.topPid_mem hpos
      have hold : m.tasks.topPid m.tasks.sched.currentProcess = m.cpu.owner :=
        Tidy.topPid_eq h.tidy hpos
      rw [hold] at hmem ⊢
      rw [← h.contexts.tss ((Tidy.forest h.tidy).ne_root hmem)]
      exact congrArg (fun c : Context => c.tss.esp0) (hstay hpos)
    · exact congrArg (fun c : Context => c.tss.esp0) hgo
  · intro u hu hpos hfalse
    rw [hpid] at hfalse ⊢
    rw [htop] at hpos
    have hslot : m'.tasks.slotContext u = (m.tasks.save esp ebp).slotContext u := by
      rw [htasks, Tasks.resume_slotContext]
    rw [hslot, hstop]
    -- the slot of the interrupted process has just been written; the others are as they were
    rcases eq_or_ne u m.tasks.sched.currentProcess with rfl | hne
    · have hold : m.tasks.topPid m.tasks.sched.currentProcess = m.cpu.owner :=
        Tidy.topPid_eq h.tidy hpos
      rw [hold, Function.update_self]
      exact h.contexts.save h.tidy esp ebp hpos
    · have hother := Tidy.topPid_ne h.tidy hne hpos
      rw [hparked, Function.update_of_ne hother] at hfalse
      rw [Function.update_of_ne hother, Tasks.save_others esp ebp hne]
      exact h.contexts.slot u hne hpos hfalse

/-- A timer interrupt is faithful exactly if it meets no parked process. -/
theorem Switchable.faithful_iff (h : Switchable m) (hnext : m.tasks.next = some t)
    (ht : t = m.tasks.sched.currentProcess ∨ m.tasks.Restores t)
    (htasks : m'.tasks = (m.tasks.save esp ebp).resume t)
    (hstop : m'.lastStop =
      Function.update m.lastStop m.cpu.owner ⟨esp, ebp, m.tasks.sched.tss⟩) :
    Faithful m (.tick esp ebp) m' ↔ NoneParked m (.tick esp ebp) m' := by
  have htop : m'.tasks.sched.scheduleTop = m.tasks.sched.scheduleTop := by
    rw [htasks]
    exact (Tasks.resume_save_frame esp ebp t).2.2
  have hcur : m'.tasks.sched.currentProcess = t := by rw [htasks, resume_currentProcess]
  have hpid : ∀ u, m'.tasks.topPid u = m.tasks.topPid u := by
    intro u
    rw [htasks, Tasks.resume_topPid, Tasks.save_topPid]
  have hcases := h.tick_cases ht htasks
  constructor
  · rintro ⟨_, hrestored⟩ _ _ _ u hu hne _
    obtain rfl : t = u := Option.some.inj (hnext.symm.trans hu)
    rcases hcases with ⟨heq, _⟩ | ⟨_, hpos, hgo⟩
    · exact absurd heq hne
    · -- what has been restored is the slot of a process that is not the interrupted one
      have hthis := hrestored esp ebp rfl t hcur (by rw [htop]; exact hpos.ne')
      rw [hgo, hpid, hstop, Function.update_of_ne (Tidy.topPid_ne h.tidy hne hpos)] at hthis
      exact hthis
  · intro hnone
    constructor
    · rintro _ _ _ hne
      have hpos := lt_of_le_of_ne (Tidy.top_nonneg h.tidy _) hne.symm
      have hself : m.tasks.topPid m.tasks.sched.currentProcess = m.cpu.owner :=
        Tidy.topPid_eq h.tidy hpos
      have hmem := Tasks.topPid_mem hpos
      rw [hself] at hmem
      exact ⟨hself, ((Tidy.forest h.tidy).unique hmem).2⟩
    · rintro _ _ _ u hu hne
      rw [← hu, hcur, hpid, hstop]
      rw [← hu, hcur, htop] at hne
      rcases hcases with ⟨rfl, hstay⟩ | ⟨hother, hpos, hgo⟩
      · have hpos := lt_of_le_of_ne (Tidy.top_nonneg h.tidy _) hne.symm
        have hself : m.tasks.topPid m.tasks.sched.currentProcess = m.cpu.owner :=
          Tidy.topPid_eq h.tidy hpos
        rw [hstay hpos, hself, Function.update_self]
      · rw [hgo, Function.update_of_ne (Tidy.topPid_ne h.tidy hother hpos)]
        -- a slot holds the last context unless its process is parked
        cases hp : m.parked (m.tasks.topPid t) with
        | true => exact hnone esp ebp rfl t hnext hother hp
        | false => exact h.contexts.slot t hother hpos hp

end Tick

/-- The step lemma: orderly steps keep the invariant, and are faithful exactly if they meet no
parked process. -/
theorem Switchable.step {e : Event} (h : Switchable m) (hstep : Machine.step img m e = some m')
    (horderly : Orderly img m e m') :
    Switchable m' ∧ (Faithful m e m' ↔ NoneParked m e m') := by
  have hm' := (h.tidy.step hstep horderly).1
  cases effect_of_step hstep with
  | quiet htick _ htasks howner hrecords =>
      refine ⟨⟨hm', ?_⟩, faithful_iff_of_ne htick⟩
      rw [htasks, howner, hrecords.lastStop, hrecords.parked]
      exact h.contexts
  | request _ _ htasks hcpu hrecords =>
      refine ⟨⟨hm', ?_⟩, faithful_iff_of_ne (by simp)⟩
      rw [htasks, hcpu, hrecords.lastStop, hrecords.parked]
      exact ⟨h.contexts.stack_top, h.contexts.tss, h.contexts.slot⟩
  | enterFailed hfailed =>
      -- in an orderly run the shell of a new terminal is started
      have hstarts := horderly.altFn _ _ _ _ _ rfl
      rw [hfailed] at hstarts
      cases hstarts
  | enter _ _ _ htasks howner _ _ hstop hparked =>
      refine ⟨⟨hm', ?_⟩, faithful_iff_of_ne (by simp)⟩
      rw [htasks, howner, hstop, hparked]
      exact (h.contexts.enter h.tidy _ _).spawn rfl _
  | execute _ hstarted _ htasks howner _ _ hstop hparked =>
      have hplace := horderly.execute _ _ _ rfl _ _ hstarted
      refine ⟨⟨hm', ?_⟩, faithful_iff_of_ne (by simp)⟩
      rw [htasks, howner, hstop, hparked]
      exact h.contexts.spawn hplace _
  | respawn _ _ hstarted _ htasks howner _ _ hstop hparked =>
      have hplace := (horderly.respawn _ _ rfl).1 _ _ hstarted
      refine ⟨⟨hm', ?_⟩, faithful_iff_of_ne (by simp)⟩
      rw [htasks, howner, hstop, hparked]
      exact h.contexts.spawn hplace _
  | respawnFailed _ hfailed htasks hrecords hcpu =>
      have hnone := (horderly.respawn _ _ rfl).2 _ _ hfailed
      refine ⟨⟨hm', ?_⟩, faithful_iff_of_ne (by simp)⟩
      rw [htasks, hcpu hnone, hrecords.lastStop, hrecords.parked]
      exact h.contexts
  | halt huser htasks hcpu hrecords =>
      have howner : m.cpu.owner ≠ sentinelProcess := owner_ne_of_inUser huser
      refine ⟨⟨hm', ?_⟩, faithful_iff_of_ne (by simp)⟩
      -- the parent of the process goes on
      have hback : m'.cpu.owner = m.tasks.parent m.cpu.owner := by
        rw [← hm'.current, htasks]
        exact congrArg m.tasks.parent h.tidy.current
      rw [htasks, hback, hrecords.lastStop, hrecords.parked]
      exact h.contexts.exit h.tidy howner
  | tick hnext htasks _ _ _ hstop hparked =>
      have ht := horderly.tick _ _ rfl _ hnext
      exact ⟨h.tick hm' ht htasks hstop hparked, h.faithful_iff hnext ht htasks hstop⟩

end Steps

/-- In a run of orderly steps, all context switches are faithful exactly if none of them meets a
parked process. -/
theorem faithful_iff_noneParked {img : FsImage} {espBoot : Word} {es : List Event}
    (horderly : AllSteps (step img) (Orderly img) (bootMachine espBoot) es) :
    AllSteps (step img) Faithful (bootMachine espBoot) es ↔
      AllSteps (step img) NoneParked (bootMachine espBoot) es := by
  apply allSteps_congr
  refine allSteps_of_invariant (I := Switchable) ?_ ?_ horderly
  · intro m e m' h hstep hQ
    exact h.step hstep hQ
  · refine ⟨Tidy.boot espBoot, ⟨?_, fun hne => absurd rfl hne, ?_⟩⟩
    · intro p hp halive
      simp [tasks, Kernel.tasks, bootMachine, bootKernel, initialPcb, hp] at halive
    · intro t _ hpos
      exact absurd hpos (lt_irrefl _)

/-! ## Two runs -/

/-- The run with one shell ticking, and a second one started, is faithful. -/
theorem faithful_orderlyRun :
    AllSteps (step shellImage) Faithful (bootMachine 0x7FFFC0) orderlyRun := by
  apply (faithful_iff_noneParked orderly_orderlyRun).mpr
  intro m₁ h₁
  obtain rfl := Option.some.inj (h₁.symm.trans step_bootedMachine)
  refine ⟨nofun, ?_⟩
  intro m₂ h₂
  obtain rfl := Option.some.inj (h₂.symm.trans step_shellInCall)
  refine ⟨nofun, fun m₃ _ => ⟨?_, ?_⟩⟩
  · rintro _ _ ⟨⟩ t hnext hne
    have hstays : shellInCall.tasks.next = some shellInCall.tasks.sched.currentProcess := by
      decide
    exact absurd (Option.some.inj (hnext.symm.trans hstays)) hne
  · exact fun _ _ => ⟨nofun, fun _ _ => ⟨nofun, fun _ _ => ⟨nofun, trivial⟩⟩⟩

/-- The first shell has lost the processor to the second one after its last timer interrupt. The
next timer interrupt resumes it with the context of that earlier one. -/
theorem not_faithful_firstInCall :
    runFrom (step shellImage) bootedMachine (secondShellRun ++ [.openWindow]) =
        some secondInCall ∧
      step shellImage secondInCall (.tick 0x7EFE00 0x7EFE40) = some firstInCall ∧
      firstInCall.lastStop 1 = ⟨0x7F7D80, 0x7F7DC0, ⟨0x7F7FF1, 0x18⟩⟩ ∧
      firstInCall.tasks.context = ⟨0x7F7E00, 0x7F7E40, ⟨0x7F7FF1, 0x18⟩⟩ ∧
      ¬ Faithful secondInCall (.tick 0x7EFE00 0x7EFE40) firstInCall := by
  refine ⟨run_secondInCall, (Option.some_get _).symm, by decide, by decide,
    fun h => ?_⟩
  have hrestored := h.restored _ _ rfl 0 (by decide) (by decide)
  exact absurd hrestored (by decide)

end Machine

end Ece391Os
