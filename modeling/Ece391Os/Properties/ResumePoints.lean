import Ece391Os.Properties.ExitStatus
import Ece391Os.Properties.KernelStacks
import Ece391Os.Properties.ProcessTree

/-!
# Where the resume points lie

`execute` records its stack pointer in the control block of the process that it starts, and `halt`
returns there. The stack pointer is that of the stack in use, and the parent is the current process:
the two differ where a keyboard interrupt starts a shell in the name of the sentinel, on the stack
of the process that it has interrupted. The resume points of a run are right exactly if no process
is started so, and the recorded stack pointers keep off the other stacks
(`allSteps_rightAfter_iff`).
-/

set_option autoImplicit false

namespace Ece391Os

open EventRun

/-- `control_blocks[p].stack_pos`. -/
def Kernel.stackPos (k : Kernel) (p : Pid) : Nat := (k.procs.controlBlocks p).stackPos.toNat

namespace Machine

/-- The stack that was in use when `p` was started is that of its recorded parent, the boot stack
standing for that of the sentinel, and the resume point of `p` lies on the kernel stack of no other
live process. -/
structure RightResumePoint (m : Machine) (p : Pid) : Prop where
  parent : (m.caller p).stack = m.kernel.parent p
  others : ∀ q, q ≠ sentinelProcess → m.kernel.Live q → q ≠ p → q ≠ m.kernel.parent p →
    ¬ InStackSlot q (m.kernel.stackPos p)

/-- The resume points of all live processes are right. -/
def RightResumePoints (m : Machine) : Prop :=
  ∀ p, p ≠ sentinelProcess → m.kernel.Live p → m.RightResumePoint p

end Machine

/-! ## Stack tops -/

/-- The recorded stack top of the process is that of its kernel stack. -/
def Tasks.Loaded (s : Tasks) (p : Pid) : Prop := p ≠ sentinelProcess → s.stackTop p = esp0Of p

/-- Every process that can come to run has its stack top recorded, and the one that runs enters the
kernel on its own stack. -/
structure OwnStacks (s : Tasks) : Prop where
  parents : ∀ p, s.Loaded (s.parent p)
  entries : ∀ t i, s.Loaded (s.sched.scheduleStack t i)
  current : s.Loaded s.currentPid
  entry : s.currentPid ≠ sentinelProcess → s.sched.tss.esp0 = esp0Of s.currentPid

namespace OwnStacks

variable {s : Tasks}

theorem of_same {s' : Tasks} (h : OwnStacks s) (hparent : s'.parent = s.parent)
    (htop : s'.stackTop = s.stackTop) (hstack : s'.sched.scheduleStack = s.sched.scheduleStack)
    (hpid : s'.currentPid = s.currentPid) (htss : s'.sched.tss = s.sched.tss) : OwnStacks s' where
  parents := by
    intro p
    rw [Tasks.Loaded, hparent, htop]
    exact h.parents p
  entries := by
    intro t i
    rw [Tasks.Loaded, hstack, htop]
    exact h.entries t i
  current := by
    rw [Tasks.Loaded, hpid, htop]
    exact h.current
  entry := by
    rw [hpid, htss]
    exact h.entry

theorem request (h : OwnStacks s) (num : Terminal) : OwnStacks (s.request num) :=
  h.of_same rfl rfl rfl rfl rfl

/-- The sentinel has no stack of its own. -/
theorem enter (h : OwnStacks s) (num : Terminal) : OwnStacks (s.enter num) where
  parents := h.parents
  entries := h.entries
  current := fun hne => absurd rfl hne
  entry := fun hne => absurd rfl hne

theorem spawn (h : OwnStacks s) (q : Pid) : OwnStacks (s.spawn q) := by
  have hloaded : ∀ p, s.Loaded p → (s.spawn q).Loaded p := by
    intro p hp hne
    simp only [Tasks.spawn]
    rcases eq_or_ne p q with rfl | hpq
    · rw [Function.update_self]
    · rw [Function.update_of_ne hpq]
      exact hp hne
  have hself : (s.spawn q).Loaded q := fun _ => Function.update_self _ _ _
  refine ⟨fun p => ?_, fun t i => ?_, hself, fun _ => rfl⟩
  · rcases eq_or_ne p q with rfl | hne
    · have hparent : (s.spawn p).parent p = s.currentPid := Function.update_self _ _ _
      rw [hparent]
      exact hloaded _ h.current
    · have hparent : (s.spawn q).parent p = s.parent p := Function.update_of_ne hne _ _
      rw [hparent]
      exact hloaded _ (h.parents p)
  · by_cases hslot : t = s.currentTerminal ∧ i = s.sched.scheduleTop s.currentTerminal
    · obtain ⟨rfl, rfl⟩ := hslot
      have hentry : (s.spawn q).sched.scheduleStack s.currentTerminal
          (s.sched.scheduleTop s.currentTerminal) = q := setEntry_self _ _ _ _
      rw [hentry]
      exact hself
    · have hentry : (s.spawn q).sched.scheduleStack t i = s.sched.scheduleStack t i :=
        setEntry_of_ne _ _ (not_and_or.mp hslot)
      rw [hentry]
      exact hloaded _ (h.entries t i)

theorem exit (h : OwnStacks s) : OwnStacks s.exit where
  parents := h.parents
  entries := by
    intro t i
    by_cases hslot : t = s.sched.currentProcess ∧ i = s.sched.topIdx s.sched.currentProcess
    · obtain ⟨rfl, rfl⟩ := hslot
      have hentry : s.exit.sched.scheduleStack s.sched.currentProcess
          (s.sched.topIdx s.sched.currentProcess) = 0 := setEntry_self _ _ _ _
      rw [hentry]
      exact fun hne => absurd rfl hne
    · have hentry : s.exit.sched.scheduleStack t i = s.sched.scheduleStack t i :=
        setEntry_of_ne _ _ (not_and_or.mp hslot)
      rw [hentry]
      exact h.entries t i
  current := h.parents s.currentPid
  entry := h.parents s.currentPid

theorem save (h : OwnStacks s) (esp ebp : Word) : OwnStacks (s.save esp ebp) := by
  simp only [Tasks.save]
  split
  · exact h.of_same rfl rfl rfl rfl rfl
  · exact h.of_same rfl rfl rfl rfl rfl

theorem resume (h : OwnStacks s) (t : Terminal) : OwnStacks (s.resume t) := by
  simp only [Tasks.resume]
  split
  · exact ⟨h.parents, h.entries, h.entries _ _, fun _ => rfl⟩
  · exact h.of_same rfl rfl rfl rfl rfl

/-- The step lemma. -/
theorem effect {img : FsImage} {m m' : Machine} {e : Event} (h : OwnStacks m.tasks)
    (heffect : Machine.Effect img m e m') : OwnStacks m'.tasks := by
  cases heffect with
  | quiet _ _ htasks => rw [htasks]; exact h
  | request _ _ htasks => rw [htasks]; exact h.request _
  | enterFailed _ _ _ htasks => rw [htasks]; exact h.enter _
  | enter _ _ _ htasks => rw [htasks]; exact (h.enter _).spawn _
  | execute _ _ _ htasks => rw [htasks]; exact h.spawn _
  | respawn _ _ _ _ htasks => rw [htasks]; exact h.spawn _
  | respawnFailed _ _ htasks => rw [htasks]; exact h
  | halt _ htasks => rw [htasks]; exact h.exit
  | tick _ htasks => rw [htasks]; exact (h.save _ _).resume _

theorem boot (espBoot : Word) : OwnStacks (bootKernel espBoot).tasks where
  parents := fun _ hne => absurd rfl hne
  entries := fun _ _ hne => absurd rfl hne
  current := fun hne => absurd rfl hne
  entry := fun hne => absurd rfl hne

end OwnStacks

/-! ## Records -/

section Records

variable {img : FsImage} {res : Residue} {frame : ExecuteFrame} {k k' : Kernel}

theorem live_iff_alive {p : Pid} : k.Live p ↔ k.tasks.alive p = true := decide_eq_true_iff.symm

theorem originOf_execute_returned {command : Option CString} {v : Int}
    (h : execute img res frame k command = .returned v k') : k'.originOf = k.originOf :=
  callFrame_originOf.executeLoad.1 v (executeLoad_of_returned h)

/-- No process has appeared, and the parents and stack pointers on record are as they were. -/
structure RecordsKept (k k' : Kernel) : Prop where
  origin : k'.originOf = k.originOf
  live : ∀ p, k'.Live p → k.Live p

theorem RecordsKept.of_alive (horigin : k'.originOf = k.originOf)
    (halive : k'.tasks.alive = k.tasks.alive) : RecordsKept k k' := by
  refine ⟨horigin, fun p hlive => ?_⟩
  rw [live_iff_alive, halive] at hlive
  exact live_iff_alive.mpr hlive

theorem RecordsKept.of_procs (hprocs : k'.procs = k.procs) : RecordsKept k k' := by
  apply RecordsKept.of_alive (originOf_of_procs hprocs)
  simp only [Kernel.tasks, hprocs]

/-- A failed call of `execute`. -/
theorem RecordsKept.returned {command : Option CString} {v : Int}
    (hexec : execute img res frame k command = .returned v k') : RecordsKept k k' :=
  .of_alive (originOf_execute_returned hexec) (congrArg Tasks.alive (tasks_execute_returned hexec))

/-- `halt` only removes a process. -/
theorem RecordsKept.halted (k : Kernel) : RecordsKept k (Ece391Os.halted (halt k)) := by
  refine ⟨(originOf_halt k).1, fun p hlive => ?_⟩
  rw [live_iff_alive, tasks_halt] at hlive
  have halive : (Function.update k.tasks.alive k.tasks.currentPid false) p = true := hlive
  rcases eq_or_ne p k.tasks.currentPid with rfl | hne
  · rw [Function.update_self] at halive
    cases halive
  · rw [Function.update_of_ne hne] at halive
    exact live_iff_alive.mpr halive

/-- A timer interrupt. -/
theorem RecordsKept.continueWith (k : Kernel) (esp ebp : Word) (t : Terminal) :
    RecordsKept k (Ece391Os.continueWith (Machine.savedKernel k esp ebp) t) := by
  obtain ⟨pid, sched, video, hcontinue⟩ :=
    continueWith_frame (Machine.savedKernel k esp ebp) t
  obtain ⟨tss, esps, ebps, hsave⟩ := Machine.savedKernel_frame k esp ebp
  rw [hcontinue, hsave]
  exact .of_alive rfl rfl

theorem originOf_execute_started {command : Option CString} {entry : Word}
    (h : execute img res frame k command = .started entry k') :
    k'.originOf = Function.update k.originOf k'.procs.currentPid
      (k.procs.currentPid, frame.esp) := by
  obtain ⟨buf, k₁, hload, hspawn, -⟩ := executeSpawn_of_started h
  have hpid : k₁.procs.currentPid = k.procs.currentPid :=
    congrArg Tasks.currentPid (tasks_executeLoad.2 buf hload)
  rw [originOf_executeSpawn hspawn, callFrame_originOf.executeLoad.2 buf hload, hpid]

/-- A new process runs, and `parent` and `esp` are on record for it. -/
structure RecordStarted (k k' : Kernel) (parent : Pid) (esp : Word) : Prop where
  fresh : ¬ k.Live k'.procs.currentPid
  ne_sentinel : k'.procs.currentPid ≠ sentinelProcess
  origin : k'.originOf = Function.update k.originOf k'.procs.currentPid (parent, esp)
  live : ∀ p, k'.Live p ↔ p = k'.procs.currentPid ∨ k.Live p

/-- A call of `execute` that starts a process. -/
theorem RecordStarted.of_execute {command : Option CString} {entry : Word}
    (hexec : execute img res frame k command = .started entry k') :
    RecordStarted k k' k.procs.currentPid frame.esp := by
  obtain ⟨q, hfresh, htasks⟩ := tasks_execute_started hexec
  have hpid : k'.procs.currentPid = q := congrArg Tasks.currentPid htasks
  have halive : k'.tasks.alive = Function.update k.tasks.alive q true :=
    congrArg Tasks.alive htasks
  refine ⟨?_, hpid.trans_ne hfresh.ne_sentinel, originOf_execute_started hexec, fun p => ?_⟩
  · rw [hpid, live_iff_alive, hfresh.not_alive]
    exact Bool.false_ne_true
  · rw [live_iff_alive, halive, hpid]
    rcases eq_or_ne p q with rfl | hne
    · simp
    · simp [hne, live_iff_alive]

/-- Whether the call is made in this state or in one with the same records. -/
theorem RecordStarted.of_kept {k₀ : Kernel} {parent : Pid} {esp : Word}
    (h : RecordStarted k₀ k' parent esp) (horigin : k₀.originOf = k.originOf)
    (hlive : ∀ p, k₀.Live p ↔ k.Live p) : RecordStarted k k' parent esp := by
  refine ⟨?_, h.ne_sentinel, ?_, fun p => ?_⟩
  · rw [← hlive]
    exact h.fresh
  · rw [← horigin]
    exact h.origin
  · rw [← hlive]
    exact h.live p

theorem procs_terminalSwitch_waiting {num : Terminal} {ticked : Bool}
    (h : terminalSwitch img res frame k num = .waiting ticked k') : k'.procs = k.procs := by
  obtain ⟨-, -, -, rfl⟩ := terminalSwitch_waiting h
  rfl

/-- In a switch that calls `execute` the sentinel is the current process. -/
theorem procs_terminalSwitch_executed {num : Terminal} {r : ExecuteResult}
    (h : terminalSwitch img res frame k num = .executed r) :
    ∃ k₀, k₀.procs = { k.procs with currentPid := sentinelProcess } ∧
      r = execute img res frame k₀ (some shellName) := by
  obtain ⟨-, -, rfl⟩ := terminalSwitch_executed h
  exact ⟨k.entering num, rfl, rfl⟩

end Records

/-! ## Steps -/

namespace Machine

/-- The stack frame of the call of `execute` in an event. -/
def callFrame : Event → Option ExecuteFrame
  | .execute _ _ frame => some frame
  | .altFn _ _ _ _ frame => some frame
  | .respawn _ frame => some frame
  | _ => none

/-- The process in whose name an event calls `execute`: only programs call it in their own. -/
def callerOf (m : Machine) : Event → Pid
  | .execute _ _ _ => m.kernel.procs.currentPid
  | _ => sentinelProcess

/-- The process that runs after the step is a new one. -/
def Starts (m m' : Machine) : Prop :=
  ¬ m.kernel.Live m'.kernel.procs.currentPid ∧ m'.kernel.Live m'.kernel.procs.currentPid

instance (m m' : Machine) : Decidable (Starts m m') := inferInstanceAs (Decidable (_ ∧ _))

/-- What a step does to the records of the processes. -/
inductive RecordEffect (m : Machine) (e : Event) (m' : Machine) : Prop
  | kept (hkept : RecordsKept m.kernel m'.kernel) (hcaller : m'.caller = m.caller)
  | started (frame : ExecuteFrame) {c : Control} (hframe : callFrame e = some frame)
      (hstarted : RecordStarted m.kernel m'.kernel (m.callerOf e) frame.esp)
      (hcaller : m'.caller = Function.update m.caller m'.kernel.procs.currentPid c)
      (hstack : c.stack = m.stackInUse)

/-- A process `p` is started in the name of `parent`, on the stack of that process. The stack
pointer lies on the kernel stack of no other live process, and that of `p` has the resume points of
none but the children of `p` on it. -/
structure StartFits (m : Machine) (parent p : Pid) (esp : Nat) : Prop where
  stack : m.stackInUse = parent
  apart : ∀ q, q ≠ sentinelProcess → m.kernel.Live q → q ≠ parent → ¬ InStackSlot q esp
  clear : ∀ q, q ≠ sentinelProcess → m.kernel.Live q → p ≠ m.kernel.parent q →
    ¬ InStackSlot p (m.kernel.stackPos q)

instance (m : Machine) (parent p : Pid) (esp : Nat) : Decidable (m.StartFits parent p esp) :=
  decidable_of_iff
    (m.stackInUse = parent ∧
      (∀ q, q ≠ sentinelProcess → m.kernel.Live q → q ≠ parent → ¬ InStackSlot q esp) ∧
      ∀ q, q ≠ sentinelProcess → m.kernel.Live q → p ≠ m.kernel.parent q →
        ¬ InStackSlot p (m.kernel.stackPos q))
    ⟨fun h => ⟨h.1, h.2.1, h.2.2⟩, fun h => ⟨h.stack, h.apart, h.clear⟩⟩

/-- A step that starts a process starts it so. -/
def StartsRight (m : Machine) (e : Event) (m' : Machine) : Prop :=
  match callFrame e with
  | none => True
  | some frame =>
      Starts m m' → m.StartFits (m.callerOf e) m'.kernel.procs.currentPid frame.esp.toNat

instance (m : Machine) (e : Event) (m' : Machine) : Decidable (StartsRight m e m') := by
  unfold StartsRight
  split <;> infer_instance

/-- The resume points are right behind the step. -/
def RightAfter (_ : Machine) (_ : Event) (m' : Machine) : Prop := m'.RightResumePoints

section Steps

variable {img : FsImage} {m m' : Machine} {e : Event}

theorem recordEffect_altFn {num : Terminal} {esp ebp : Word} {res : Residue}
    {frame : ExecuteFrame} (hstep : altFn img m num esp ebp res frame = some m') :
    RecordEffect m (.altFn num esp ebp res frame) m' := by
  -- `terminal_switch` calls `execute` in the name of the sentinel: only `current_pid` differs
  have hsentinel : ∀ k₀ : Kernel,
      k₀.procs = { (keyboardKernel m.kernel).procs with currentPid := sentinelProcess } →
      k₀.originOf = m.kernel.originOf ∧ ∀ p, k₀.Live p ↔ m.kernel.Live p := by
    intro k₀ hprocs
    have hblocks : k₀.procs.controlBlocks = m.kernel.procs.controlBlocks := by
      rw [hprocs]
      rfl
    refine ⟨funext fun p => ?_, fun p => ?_⟩
    · rw [Kernel.originOf, Kernel.originOf, Kernel.parent, Kernel.parent, hblocks]
    · rw [Kernel.Live, Kernel.Live, hblocks]
  simp only [altFn] at hstep
  split at hstep
  next =>
    cases hstep
    exact .kept (.of_procs rfl) rfl
  next hswitch =>
    have hprocs := procs_terminalSwitch_waiting hswitch
    cases hstep
    exact .kept (.of_procs hprocs) rfl
  next hswitch =>
    obtain ⟨k₀, hprocs, hexec⟩ := procs_terminalSwitch_executed hswitch
    obtain ⟨horigin, hlive⟩ := hsentinel k₀ hprocs
    have hreturned := RecordsKept.returned hexec.symm
    cases hstep
    exact .kept ⟨hreturned.origin.trans horigin, fun p hp => (hlive p).mp (hreturned.live p hp)⟩ rfl
  next => cases hstep
  next hswitch =>
    obtain ⟨k₀, hprocs, hexec⟩ := procs_terminalSwitch_executed hswitch
    obtain ⟨horigin, hlive⟩ := hsentinel k₀ hprocs
    have hstarted := RecordStarted.of_execute hexec.symm
    rw [hprocs] at hstarted
    cases hstep
    exact .started frame rfl (hstarted.of_kept horigin hlive) rfl rfl

theorem recordEffect_respawn {res : Residue} {frame : ExecuteFrame}
    (hpid : m.kernel.procs.currentPid = sentinelProcess)
    (hstep : respawn img m res frame = some m') : RecordEffect m (.respawn res frame) m' := by
  simp only [respawn] at hstep
  split at hstep
  next hexec =>
    have hreturned := RecordsKept.returned hexec
    split at hstep
    · cases hstep
      exact .kept ⟨hreturned.origin, hreturned.live⟩ rfl
    · cases hstep
      exact .kept ⟨hreturned.origin, hreturned.live⟩ rfl
  next => cases hstep
  next hexec =>
    have hstarted := RecordStarted.of_execute hexec
    have hpid' : m.kernel.cli.procs.currentPid = sentinelProcess := hpid
    rw [hpid'] at hstarted
    cases hstep
    exact .started frame rfl (hstarted.of_kept rfl fun _ => Iff.rfl) rfl rfl

/-- One case for each way in which a step can change the records. -/
theorem recordEffect_of_step (hstep : step img m e = some m') : RecordEffect m e m' := by
  cases e with
  | openWindow =>
      simp only [step] at hstep
      split at hstep
      · cases hstep
        exact .kept (.of_procs rfl) rfl
      · cases hstep
  | closeWindow =>
      simp only [step] at hstep
      split at hstep
      · cases hstep
        exact .kept (.of_procs rfl) rfl
      · cases hstep
  | leaveSwitch =>
      simp only [step, leaveSwitch] at hstep
      split at hstep
      · split at hstep
        · cases hstep
        · split at hstep
          · cases hstep
            exact .kept (.of_procs rfl) rfl
          · cases hstep
      · cases hstep
  | tick esp ebp =>
      simp only [step] at hstep
      split at hstep
      · obtain ⟨t, -, rfl⟩ := Option.map_eq_some_iff.mp hstep
        -- the scheduler stores stack pointers in its own slots, not in the records
        have hkept := RecordsKept.continueWith m.kernel esp ebp t
        exact .kept ⟨hkept.origin, hkept.live⟩ rfl
      · cases hstep
  | halt status =>
      simp only [step] at hstep
      split at hstep
      · cases hstep
        -- the records of the processes that remain are as they were
        have hkept := RecordsKept.halted m.kernel.cli
        exact .kept ⟨hkept.origin, hkept.live⟩ rfl
      · cases hstep
  | execute command res frame =>
      simp only [step] at hstep
      split at hstep
      · simp only [execute] at hstep
        split at hstep
        next hexec =>
          have hreturned := RecordsKept.returned hexec
          cases hstep
          exact .kept ⟨hreturned.origin, hreturned.live⟩ rfl
        next => cases hstep
        next hexec =>
          have hstarted := RecordStarted.of_execute hexec
          cases hstep
          exact .started frame rfl (hstarted.of_kept rfl fun _ => Iff.rfl) rfl rfl
      · cases hstep
  | respawn res frame =>
      simp only [step] at hstep
      split at hstep
      next hcond => exact recordEffect_respawn hcond.2.2 hstep
      · cases hstep
  | altFn num esp ebp res frame =>
      simp only [step] at hstep
      split at hstep
      · exact recordEffect_altFn hstep
      · cases hstep

theorem stackPos_of_origin {k k' : Kernel} {p q : Pid}
    (h : k'.originOf p = k.originOf q) : k'.stackPos p = k.stackPos q :=
  congrArg (fun origin : Pid × Word => origin.2.toNat) h

theorem parent_of_origin {k k' : Kernel} {p q : Pid} (h : k'.originOf p = k.originOf q) :
    k'.parent p = k.parent q := congrArg Prod.fst h

/-- Nobody new. -/
theorem RightResumePoints.of_kept (h : m.RightResumePoints)
    (hkept : RecordsKept m.kernel m'.kernel) (hcaller : m'.caller = m.caller) :
    m'.RightResumePoints := by
  intro p hp hlive
  have hright := h p hp (hkept.live p hlive)
  have horigin : m'.kernel.originOf p = m.kernel.originOf p := congrFun hkept.origin p
  constructor
  · rw [hcaller, parent_of_origin horigin]
    exact hright.parent
  · intro q hq hqlive hne hparent
    rw [stackPos_of_origin horigin]
    rw [parent_of_origin horigin] at hparent
    exact hright.others q hq (hkept.live q hqlive) hne hparent

/-- A new process: what was right stays right exactly if it is started right. -/
theorem RightResumePoints.started_iff (h : m.RightResumePoints) {parent : Pid} {esp : Word}
    {c : Control} (hstarted : RecordStarted m.kernel m'.kernel parent esp)
    (hcaller : m'.caller = Function.update m.caller m'.kernel.procs.currentPid c)
    (hstack : c.stack = m.stackInUse) :
    m'.RightResumePoints ↔ m.StartFits parent m'.kernel.procs.currentPid esp.toNat := by
  have hne := hstarted.ne_sentinel
  generalize hp : m'.kernel.procs.currentPid = p at hstarted hcaller hne
  have hfresh : ¬ m.kernel.Live p := hp ▸ hstarted.fresh
  have hlive : ∀ q, m'.kernel.Live q ↔ q = p ∨ m.kernel.Live q := hp ▸ hstarted.live
  have horigin : m'.kernel.originOf = Function.update m.kernel.originOf p (parent, esp) :=
    hp ▸ hstarted.origin
  -- the records of the new process, and those of the others
  have hself : m'.kernel.originOf p = (parent, esp) := by rw [horigin, Function.update_self]
  have hparent : m'.kernel.parent p = parent := congrArg Prod.fst hself
  have hesp : m'.kernel.stackPos p = esp.toNat :=
    congrArg (fun origin : Pid × Word => origin.2.toNat) hself
  have hother : ∀ q, m.kernel.Live q → q ≠ p ∧ m'.kernel.originOf q = m.kernel.originOf q := by
    intro q hq
    have hqp : q ≠ p := fun heq => hfresh (heq ▸ hq)
    exact ⟨hqp, by rw [horigin, Function.update_of_ne hqp]⟩
  constructor
  · -- the new process is right, and the others are right next to it
    intro hright
    have hnew := hright p hne ((hlive p).mpr (.inl rfl))
    refine ⟨?_, fun q hq hqlive hqparent => ?_, fun q hq hqlive hqparent => ?_⟩
    · rw [← hstack, ← hparent, ← hnew.parent, hcaller, Function.update_self]
    · rw [← hesp]
      exact hnew.others q hq ((hlive q).mpr (.inr hqlive)) (hother q hqlive).1
        (hparent.symm ▸ hqparent)
    · obtain ⟨hqp, hqorigin⟩ := hother q hqlive
      rw [← stackPos_of_origin hqorigin]
      apply (hright q hq ((hlive q).mpr (.inr hqlive))).others p hne ((hlive p).mpr (.inl rfl))
        (Ne.symm hqp)
      rw [parent_of_origin hqorigin]
      exact hqparent
  · intro hfits q hq hqlive
    rcases (hlive q).mp hqlive with rfl | hold
    · -- the new process, against each of the others
      constructor
      · rw [hcaller, Function.update_self, hstack, hfits.stack, hparent]
      · intro r hr hrlive hrq hrparent
        rw [hesp]
        rw [hparent] at hrparent
        rcases (hlive r).mp hrlive with rfl | hrold
        · exact absurd rfl hrq
        · exact hfits.apart r hr hrold hrparent
    · -- an old one, against the new one and the others
      obtain ⟨hqp, hqorigin⟩ := hother q hold
      have hright := h q hq hold
      constructor
      · rw [hcaller, Function.update_of_ne hqp, parent_of_origin hqorigin]
        exact hright.parent
      · intro r hr hrlive hrq hrparent
        rw [stackPos_of_origin hqorigin]
        rw [parent_of_origin hqorigin] at hrparent
        rcases (hlive r).mp hrlive with rfl | hrold
        · exact hfits.clear q hq hold hrparent
        · exact hright.others r hr hrold hrq hrparent

/-- The step lemma. -/
theorem RightResumePoints.after_iff (h : m.RightResumePoints) (hstep : step img m e = some m') :
    RightAfter m e m' ↔ StartsRight m e m' := by
  rw [RightAfter, StartsRight]
  cases recordEffect_of_step hstep with
  | kept hkept hcaller =>
      refine iff_of_true (h.of_kept hkept hcaller) ?_
      split
      · trivial
      · exact fun hstarts => absurd (hkept.live _ hstarts.2) hstarts.1
  | started frame hframe hstarted hcaller hstack =>
      have hstarts : Starts m m' := ⟨hstarted.fresh, (hstarted.live _).mpr (.inl rfl)⟩
      simp only [hframe]
      rw [h.started_iff hstarted hcaller hstack]
      exact ⟨fun hfits _ => hfits, fun hfits => hfits hstarts⟩

end Steps

/-! ## Runs -/

theorem rightResumePoints_boot (espBoot : Word) : (bootMachine espBoot).RightResumePoints := by
  intro p hp hlive
  have hfree : ((bootKernel espBoot).procs.controlBlocks p).pid = -1 := if_neg hp
  exact absurd hfree hlive

/-- In every run from boot, the resume points are right behind each step exactly if every process
is started on the stack of its parent, and away from the other stacks. -/
theorem allSteps_rightAfter_iff (img : FsImage) (espBoot : Word) (es : List Event) :
    AllSteps (step img) RightAfter (bootMachine espBoot) es ↔
      AllSteps (step img) StartsRight (bootMachine espBoot) es :=
  allSteps_iff_of_invariant (I := RightResumePoints) (P := RightAfter) (Q := StartsRight)
    (fun _ _ _ h hstep => h.after_iff hstep)
    (fun _ _ _ h hstep hstarts => (h.after_iff hstep).mpr hstarts) es
    (rightResumePoints_boot espBoot)

theorem entryStack_of_esp0 {tss : Tss} {p : Pid} (h : tss.esp0 = esp0Of p) :
    entryStack tss = p := by
  have htops : ∀ q : Pid,
      ((List.finRange 7).find? fun r => esp0Of r = esp0Of q).getD sentinelProcess = q := by
    decide
  rw [entryStack, h]
  exact htops p

/-- In every run from boot, a program that is the current process calls `execute` on its own
stack. -/
theorem stackInUse_of_run {img : FsImage} {espBoot : Word} {es : List Event} {m : Machine}
    (hrun : runFrom (step img) (bootMachine espBoot) es = some m) (huser : m.inUser = true)
    (hpid : m.kernel.procs.currentPid ≠ sentinelProcess) :
    m.stackInUse = m.kernel.procs.currentPid := by
  have hboot : OwnStacks (bootMachine espBoot).tasks := OwnStacks.boot espBoot
  have hown : OwnStacks m.tasks :=
    invariant_of_runFrom (I := fun m : Machine => OwnStacks m.tasks)
      (fun _ _ _ h hstep => h.effect (effect_of_step hstep)) hboot hrun
  rw [stackInUse, if_pos huser]
  exact entryStack_of_esp0 (hown.entry hpid)

/-- The shell is started at boot, and it starts `ls`: each on the stack of its parent. -/
example : AllSteps (step shellImage) StartsRight (bootMachine 0x7FFFC0)
    [.respawn emptyResidue ⟨0x7F6280, 0x7F6300⟩,
      .execute (some lsName) emptyResidue ⟨0x7EE080, 0x7EE100⟩] := by
  decide +kernel

/-- The first shell is started at boot, and a keyboard interrupt starts a second one on top of
it. -/
def shellOnShell : List Event :=
  [.respawn emptyResidue ⟨0x7F6280, 0x7F6300⟩, .openWindow,
    .altFn 1 0x7F7D80 0x7F7DC0 emptyResidue ⟨0x7EE080, 0x7EE100⟩]

/-- The machine after that. -/
def secondOnFirst : Machine :=
  (runFrom (step shellImage) (bootMachine 0x7FFFC0) shellOnShell).get (by decide +kernel)

/-- The parent of the second shell is the sentinel, and it was started on the stack of the first
shell. -/
theorem not_allSteps_rightAfter_shellOnShell :
    runFrom (step shellImage) (bootMachine 0x7FFFC0) shellOnShell = some secondOnFirst ∧
      secondOnFirst.kernel.Live 2 ∧ secondOnFirst.kernel.parent 2 = sentinelProcess ∧
      (secondOnFirst.caller 2).stack = 1 ∧
      ¬ AllSteps (step shellImage) RightAfter (bootMachine 0x7FFFC0) shellOnShell := by
  have hrun : runFrom (step shellImage) (bootMachine 0x7FFFC0) shellOnShell =
      some secondOnFirst := (Option.some_get _).symm
  have hlive : secondOnFirst.kernel.Live 2 := by decide
  have hparent : secondOnFirst.kernel.parent 2 = sentinelProcess := by decide
  have hstack : (secondOnFirst.caller 2).stack = 1 := by decide
  refine ⟨hrun, hlive, hparent, hstack, fun hright => ?_⟩
  have hpoints : secondOnFirst.RightResumePoints :=
    invariant_of_allSteps (I := RightResumePoints) (fun _ _ _ _ _ hafter => hafter)
      (rightResumePoints_boot 0x7FFFC0) hright hrun
  have hon := (hpoints 2 (by decide) hlive).parent
  rw [hstack, hparent] at hon
  exact absurd hon (by decide)

end Machine

end Ece391Os
