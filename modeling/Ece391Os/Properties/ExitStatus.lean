import Ece391Os.Model.Exceptions
import Ece391Os.Properties.Arguments

/-!
# Exit status

A program ends by its own `halt` or by an exception, and the `execute` that had started it returns
a value. The control goes back to the right call at every depth of nesting, since nothing changes
the parent and the saved stack pointer of a control block while its process lives. The value is
what AL holds behind the assembly of `halt`: the low byte of the status, or `0` where the compiler
has put the status into AL; the 256 that the exception handlers pass arrives as `0`.
-/

set_option autoImplicit false

namespace Ece391Os

open EventRun

/-! ## What the parent is to receive -/

/-- The value that stands for an end of a program: the low byte of its status, or 256. -/
def Ending.value : Ending → Int
  | .halt status => (status.toNat % 256 : Nat)
  | .exception _ => 256

/-- `execute` returns in the call that had started the program, with the value that stands for its
end. -/
structure ProgramExit.Right (x : ProgramExit) : Prop where
  origin : (x.parent, x.esp) = x.origin
  value : x.value = x.ending.value

/-- Every return of `execute` that a step brings is right. -/
def ExitMeets (m : ExitMachine) (_ : ExitEvent) (m' : ExitMachine) : Prop :=
  ∀ x, m'.exits = m.exits ++ [x] → x.Right

/-- The program has called `halt` itself, and its status is not in AL or has a low byte of zero. -/
def Ending.Fits (reg : ByteRegister) (ending : Ending) : Prop :=
  ∃ status, ending = .halt status ∧ (reg = .al → status.toNat % 256 = 0)

/-- A program that ends and whose parent is a program ends so. -/
def ExitFits (m : ExitMachine) (e : ExitEvent) (_ : ExitMachine) : Prop :=
  match e with
  | .step .halt =>
      m.calls.kernel.parent m.calls.running ≠ sentinelProcess →
        (m.ending m.calls.running).Fits m.calls.statusReg
  | _ => True

/-! ## Who started a process -/

/-- The parent and the saved stack pointer in a control block. -/
def Kernel.originOf (k : Kernel) (p : Pid) : Pid × Word :=
  (k.parent p, (k.procs.controlBlocks p).stackPos)

section Origins

variable {img : FsImage} {res : Residue} {frame : ExecuteFrame} {k k' : Kernel}

theorem originOf_setPcb (k : Kernel) (p : Pid) (b : Pcb) :
    (k.setPcb p b).originOf = Function.update k.originOf p (b.parent, b.stackPos) := by
  funext q
  rcases eq_or_ne q p with rfl | hne
  · simp [Kernel.originOf, Kernel.setPcb, Kernel.parent]
  · simp [Kernel.originOf, Kernel.setPcb, Kernel.parent, Function.update_of_ne hne]

theorem originOf_setPcb_same (k : Kernel) (p : Pid) {b : Pcb} (hparent : b.parent = k.parent p)
    (hstack : b.stackPos = (k.procs.controlBlocks p).stackPos) :
    (k.setPcb p b).originOf = k.originOf := by
  rw [originOf_setPcb, hparent, hstack]
  exact Function.update_eq_self p k.originOf

theorem originOf_of_procs (h : k'.procs = k.procs) : k'.originOf = k.originOf := by
  funext p
  rw [Kernel.originOf, Kernel.originOf, Kernel.parent, Kernel.parent, h]

/-- No `open`, `read` or `close` touches these fields. -/
theorem callFrame_originOf : CallFrame Kernel.originOf where
  fds := fun k p _ => originOf_setPcb_same k p rfl rfl
  interrupts := fun _ _ => rfl
  rtc := fun _ _ => rfl
  output := fun _ _ _ => rfl
  reader := fun _ _ _ => rfl

theorem originOf_clearArgs (k : Kernel) : (clearArgs k).originOf = k.originOf :=
  originOf_setPcb_same k k.procs.currentPid rfl rfl

/-- A handler that returns leaves these fields alone. -/
theorem originOf_serve {call : Call} {v : Int} (h : serve img res k call = some (v, k')) :
    k'.originOf = k.originOf :=
  callFrame_originOf.serve (fun _ _ _ _ _ => rfl) originOf_clearArgs h

/-- The second part of `execute` records the caller and the stack pointer that it has saved. -/
theorem originOf_executeSpawn {command : CString} {buf : Nat → UInt8}
    (h : executeSpawn frame k command buf = some k') :
    k'.originOf = Function.update k.originOf k'.procs.currentPid
      (k.procs.currentPid, frame.esp) := by
  obtain ⟨q, hs⟩ := spawns_of_executeSpawn h
  rw [hs.current]
  exact hs.field (fun b => (b.parent, b.stackPos)) fun _ _ => rfl

/-- `halt` changes neither field, and `past_pid` is then the process that has ended. -/
theorem originOf_halt (k : Kernel) : (halted (halt k)).originOf = k.originOf ∧
    (halted (halt k)).procs.pastPid = k.procs.currentPid ∧
      (halted (halt k)).procs.currentPid = k.parent k.procs.currentPid :=
  ⟨halt_field k (fun b => (b.parent, b.stackPos)) fun _ _ => rfl, rfl, rfl⟩

/-- A timer interrupt writes to no control block. -/
theorem originOf_scheduleWrapper {esp ebp : Word} (h : scheduleWrapper k esp ebp = some k') :
    k'.originOf = k.originOf := by
  obtain ⟨pid, sched, video, rfl⟩ := scheduleWrapper_frame h
  rfl

end Origins

/-! ## Steps -/

/-- Every control block names the `execute` that started its process, and a process that is in
`halt` has passed the byte that its ending comes to. -/
structure ExitMachine.Tracked (m : ExitMachine) : Prop where
  origin : m.origin = m.calls.kernel.originOf
  ending : ∀ p status, m.calls.phase p = .handler (.halt status) →
    ∃ arg, (m.ending p).arg = some arg ∧ status = haltParam arg

namespace ExitMachine

variable {img : FsImage} {m m' : ExitMachine}

/-- The handlers that call `SYS_HALT` pass 256. -/
theorem arg_exception {vector : Fin 32} {arg : Word}
    (h : (Ending.exception vector).arg = some arg) : arg = 256 := by
  have hall : ∀ v : Fin 32, (idt v).status = none ∨ (idt v).status = some 256 := by decide
  rcases hall vector with hnone | hsome
  · rw [Ending.arg, hnone] at h
    cases h
  · rw [Ending.arg, hsome] at h
    exact (Option.some.inj h).symm

/-- The value that comes through the parameter of `halt` and AL is right exactly if the ending
fits. -/
theorem value_iff {reg : ByteRegister} {ending : Ending} {arg : Word} (h : ending.arg = some arg) :
    ((statusInAl reg (haltParam arg)).toNat : Int) = ending.value ↔ ending.Fits reg := by
  cases ending with
  | halt status =>
      obtain rfl := Option.some.inj h
      have hbyte : (haltParam status).toNat = status.toNat % 256 := by
        rw [haltParam, UInt8.toNat_ofNat']
      have hfits : (Ending.halt status).Fits reg ↔ (reg = .al → status.toNat % 256 = 0) :=
        ⟨fun ⟨_, heq, hzero⟩ => Ending.halt.inj heq ▸ hzero, fun hzero => ⟨status, rfl, hzero⟩⟩
      rw [hfits, Ending.value, Nat.cast_inj]
      by_cases hreg : reg = .al
      · subst hreg
        exact ⟨fun hvalue _ => hvalue.symm, fun hzero => (hzero rfl).symm⟩
      · rw [statusInAl_of_ne hreg, hbyte]
        exact iff_of_true rfl fun heq => absurd heq hreg
  | exception vector =>
      obtain rfl := arg_exception h
      refine iff_of_false (fun hvalue => ?_) fun ⟨_, heq, _⟩ => nomatch heq
      have hlt := (statusInAl reg (haltParam 256)).toNat_lt
      rw [Ending.value] at hvalue
      omega

/-- A step to another instruction enters `halt` only if it says so. -/
theorem goto_halt {c : CallMachine} {phase : Phase} {p : Pid} {status : UInt8}
    (h : (c.goto phase).phase p = .handler (.halt status))
    (hphase : phase ≠ .handler (.halt status)) : c.phase p = .handler (.halt status) := by
  rw [CallMachine.goto] at h
  rcases eq_or_ne p c.running with rfl | hne
  · simp only [Function.update_self] at h
    exact absurd h hphase
  · simp only [Function.update_of_ne hne] at h
    exact h

/-- A step of a call that neither starts nor ends a process. -/
theorem calls_step_keeps {c c' : CallMachine} {e : CallEvent} (h : c.step img e = some c')
    (hspawn : ∀ res, e ≠ .spawn res) (hhalt : e ≠ .halt)
    (hcall : ∀ status, e ≠ .call (.halt status)) :
    c'.kernel.originOf = c.kernel.originOf ∧ ∀ p status,
      c'.phase p = .handler (.halt status) → c.phase p = .handler (.halt status) := by
  cases CallMachine.effect_of_step h with
  | call =>
      refine ⟨rfl, fun p status hp => goto_halt hp ?_⟩
      rintro ⟨⟩
      exact hcall status rfl
  | window => exact ⟨rfl, fun _ _ hp => hp⟩
  | serve _ hserve =>
      exact ⟨(originOf_serve hserve).trans rfl, fun p status hp => goto_halt hp (by simp)⟩
  | spawn => exact absurd rfl (hspawn _)
  | haltFirst => exact absurd rfl hhalt
  | haltChild => exact absurd rfl hhalt
  | tick _ hswitch => exact ⟨originOf_scheduleWrapper hswitch, fun _ _ hp => hp⟩
  | _ => exact ⟨rfl, fun p status hp => goto_halt hp (by simp)⟩

/-- The step in which a process starts. -/
theorem Tracked.spawned {c : CallMachine} {res : Residue} (h : m.Tracked)
    (hstep : m.calls.step img (.spawn res) = some c) :
    (m.spawned c).Tracked ∧ (m.spawned c).exits = m.exits := by
  cases CallMachine.effect_of_step hstep with
  | @spawn _ command frame entry k hphase hexec =>
      obtain ⟨buf, k₁, hload, hspawn, -⟩ := executeSpawn_of_started hexec
      have horigin : k₁.originOf = m.calls.kernel.originOf :=
        (callFrame_originOf.executeLoad.2 buf hload).trans rfl
      have hcurrent : k₁.procs.currentPid = m.calls.running :=
        (callFrame_currentPid.executeLoad.2 buf hload).trans rfl
      have hnew := originOf_executeSpawn hspawn
      rw [horigin, hcurrent, ← h.origin] at hnew
      simp only [ExitMachine.spawned, hphase]
      refine ⟨⟨hnew.symm, fun p status hp => ?_⟩, trivial⟩
      apply h.ending p status
      -- neither the new process nor its parent is in `halt`
      rcases eq_or_ne p k.procs.currentPid with rfl | hpq
      · simp only [Function.update_self, reduceCtorEq] at hp
      · simp only [Function.update_of_ne hpq] at hp
        rcases eq_or_ne p m.calls.running with rfl | hpr
        · simp only [Function.update_self, reduceCtorEq] at hp
        · simp only [Function.update_of_ne hpr] at hp
          exact hp

theorem exited_of_returned {c : CallMachine} {value : Int} {enabled : Bool}
    (h : c.phase c.running = .returned value enabled) : m.exited c = { m with
      calls := c
      exits := m.exits ++ [⟨m.calls.running, m.ending m.calls.running, m.origin m.calls.running,
        c.running, (c.kernel.procs.controlBlocks c.kernel.procs.pastPid).stackPos, value⟩] } := by
  simp only [ExitMachine.exited, h]

theorem exited_of_user {c : CallMachine} (h : c.phase c.running = .user) :
    m.exited c = { m with calls := c } := by
  simp only [ExitMachine.exited, h]

/-- The step in which a process ends: what the machine is afterwards. -/
theorem exited_cases {c : CallMachine} (hstep : m.calls.step img .halt = some c) :
    ∃ status, m.calls.phase m.calls.running = .handler (.halt status) ∧
      c.kernel.originOf = m.calls.kernel.originOf ∧
      (∀ p status, c.phase p = .handler (.halt status) →
        m.calls.phase p = .handler (.halt status)) ∧
      (m.exited c).calls = c ∧ (m.exited c).ending = m.ending ∧ (m.exited c).origin = m.origin ∧
      (if m.calls.kernel.parent m.calls.running = sentinelProcess then
          (m.exited c).exits = m.exits
        else (m.exited c).exits = m.exits ++ [⟨m.calls.running, m.ending m.calls.running,
          m.origin m.calls.running, m.calls.kernel.parent m.calls.running,
          (c.kernel.originOf m.calls.running).2,
          (statusInAl m.calls.statusReg status).toNat⟩]) := by
  obtain ⟨horigin, hpast, hparent⟩ := originOf_halt m.calls.kernel.cli
  -- the two phases that change are no longer in `halt`
  have hphases : ∀ (q p : Pid) (phase : Phase) (status : UInt8),
      (∀ s, phase ≠ .handler (.halt s)) →
      Function.update (Function.update m.calls.phase m.calls.running .user) q phase p =
        .handler (.halt status) → m.calls.phase p = .handler (.halt status) := by
    intro q p phase status hne hp
    rcases eq_or_ne p q with rfl | hpq
    · rw [Function.update_self] at hp
      exact absurd hp (hne status)
    · rw [Function.update_of_ne hpq] at hp
      rcases eq_or_ne p m.calls.running with rfl | hpr
      · rw [Function.update_self] at hp
        cases hp
      · rw [Function.update_of_ne hpr] at hp
        exact hp
  cases CallMachine.effect_of_step hstep with
  | @haltFirst status k hphase hk hsentinel =>
      subst hk
      have hparent' : m.calls.kernel.parent m.calls.running = sentinelProcess :=
        hparent.symm.trans hsentinel
      refine ⟨status, hphase, ?_⟩
      rw [exited_of_user (Function.update_self _ _ _), if_pos hparent']
      exact ⟨horigin, fun p s hp => hphases _ p .user s (by simp) hp, rfl, rfl, rfl, rfl⟩
  | @haltChild status k hphase hk hne =>
      subst hk
      have hparent' : m.calls.kernel.parent m.calls.running ≠ sentinelProcess :=
        fun heq => hne (hparent.trans heq)
      refine ⟨status, hphase, ?_⟩
      rw [exited_of_returned (Function.update_self _ _ _), if_neg hparent']
      exact ⟨horigin, fun p s hp => hphases _ p (.returned _ _) s (by simp) hp, rfl, rfl, rfl, rfl⟩

/-- The steps of a call other than those are passed on. -/
theorem step_other {e : CallEvent} (hspawn : ∀ res, e ≠ .spawn res) (hhalt : e ≠ .halt)
    (hcall : ∀ status, e ≠ .call (.halt status)) :
    m.step img (.step e) = (m.calls.step img e).map fun c => { m with calls := c } := by
  cases e with
  | call call =>
      cases call with
      | halt status => exact absurd rfl (hcall status)
      | _ => rfl
  | spawn res => exact absurd rfl (hspawn res)
  | halt => exact absurd rfl hhalt
  | _ => rfl

/-- A program enters `halt`. -/
theorem Tracked.finish {ending : Ending} (h : m.Tracked) (hstep : m.finish ending = some m') :
    m'.Tracked ∧ m'.exits = m.exits := by
  -- whatever brought it there, the handler is entered with the byte of its argument
  have hentered : ∀ arg, ending.arg = some arg → m' =
      { m with
        calls := { m.calls.goto (.handler (.halt (haltParam arg))) with
          kernel := m.calls.kernel.cli }
        ending := Function.update m.ending m.calls.running ending } →
      m'.Tracked ∧ m'.exits = m.exits := by
    rintro arg harg rfl
    refine ⟨⟨h.origin, fun p status hp => ?_⟩, rfl⟩
    rcases eq_or_ne p m.calls.running with rfl | hne
    · simp only [CallMachine.goto, Function.update_self] at hp ⊢
      obtain rfl : haltParam arg = status := by simpa using hp
      exact ⟨arg, harg, rfl⟩
    · simp only [CallMachine.goto, Function.update_of_ne hne] at hp ⊢
      exact h.ending p status hp
  simp only [ExitMachine.finish] at hstep
  split at hstep
  · exact hentered _ rfl (Option.some.inj hstep).symm
  · obtain ⟨arg, harg, heq⟩ := Option.map_eq_some_iff.mp hstep
    exact hentered arg harg heq.symm
  · obtain ⟨arg, harg, heq⟩ := Option.map_eq_some_iff.mp hstep
    exact hentered arg harg heq.symm
  · cases hstep

/-- A step brings no return of `execute`, or it ends a process. -/
theorem Tracked.step {e : ExitEvent} (h : m.Tracked) (hstep : m.step img e = some m') :
    m'.Tracked ∧ (e ≠ .step .halt → m'.exits = m.exits) := by
  cases e with
  | finish ending =>
      obtain ⟨htracked, hexits⟩ := h.finish hstep
      exact ⟨htracked, fun _ => hexits⟩
  | devices terms kbd video =>
      cases hstep
      exact ⟨⟨h.origin, h.ending⟩, fun _ => rfl⟩
  | step e =>
      -- only `execute` and `halt` write to the records; `halt` is called through `finish`
      by_cases hspawn : ∃ res, e = .spawn res
      · obtain ⟨res, rfl⟩ := hspawn
        obtain ⟨c, hc, rfl⟩ := Option.map_eq_some_iff.mp hstep
        obtain ⟨htracked, hexits⟩ := h.spawned hc
        exact ⟨htracked, fun _ => hexits⟩
      · by_cases hhalt : e = .halt
        · subst hhalt
          obtain ⟨c, hc, rfl⟩ := Option.map_eq_some_iff.mp hstep
          obtain ⟨status, hphase, horigin, hphases, hcalls, hending, horigins, -⟩ :=
            exited_cases hc
          refine ⟨⟨?_, fun p s hp => ?_⟩, fun hne => absurd rfl hne⟩
          · rw [horigins, hcalls, horigin]
            exact h.origin
          · rw [hcalls] at hp
            rw [hending]
            exact h.ending p s (hphases p s hp)
        · by_cases hcall : ∃ status, e = .call (.halt status)
          · obtain ⟨status, rfl⟩ := hcall
            cases hstep
          · rw [step_other (fun res heq => hspawn ⟨res, heq⟩) hhalt
              fun status heq => hcall ⟨status, heq⟩] at hstep
            obtain ⟨c, hc, rfl⟩ := Option.map_eq_some_iff.mp hstep
            obtain ⟨horigin, hphases⟩ := calls_step_keeps hc (fun res heq => hspawn ⟨res, heq⟩)
              hhalt fun status heq => hcall ⟨status, heq⟩
            exact ⟨⟨h.origin.trans horigin.symm, fun p s hp => h.ending p s (hphases p s hp)⟩,
              fun _ => rfl⟩

/-- The returns of `execute` in a step are right exactly if the step fits. -/
theorem Tracked.meets_iff {e : ExitEvent} (h : m.Tracked) (hstep : m.step img e = some m') :
    ExitMeets m e m' ↔ ExitFits m e m' := by
  by_cases hhalt : e = .step .halt
  · subst hhalt
    obtain ⟨c, hc, rfl⟩ := Option.map_eq_some_iff.mp hstep
    obtain ⟨status, hphase, horigin, -, -, -, -, hexits⟩ := exited_cases hc
    obtain ⟨arg, harg, rfl⟩ := h.ending _ _ hphase
    rw [ExitMeets, ExitFits]
    split at hexits
    -- nobody collects the status of a first process
    next hsentinel =>
      refine iff_of_true (fun x hx => ?_) fun hne => absurd hsentinel hne
      exact absurd (hexits.symm.trans hx).symm (by simp)
    next hne =>
      constructor
      · intro hright _
        exact (value_iff harg).mp (hright _ hexits).value
      · intro hfits x hx
        obtain rfl := List.singleton_inj.mp (List.append_cancel_left (hexits.symm.trans hx))
        refine ⟨?_, (value_iff harg).mpr (hfits hne)⟩
        rw [h.origin, horigin]
        rfl
  · -- no other step ends a process
    have hnone := (h.step hstep).2 hhalt
    have hfits : ExitFits m e m' := by
      cases e with
      | finish ending => trivial
      | devices terms kbd video => trivial
      | step e =>
          cases e with
          | halt => exact absurd rfl hhalt
          | _ => trivial
    refine iff_of_true (fun x hx => ?_) hfits
    exact absurd (hnone.symm.trans hx).symm (by simp)

end ExitMachine

/-! ## Runs -/

/-- Before the first program: the sentinel is about to call `execute`. -/
def bootExits (reg : ByteRegister) (espBoot : Word) : ExitMachine where
  calls :=
    { kernel := bootKernel espBoot
      statusReg := reg
      returnVal := 0
      phase := fun _ => .user
      userFlag := fun _ => false
      delivered := [] }
  ending := fun _ => .halt 0
  origin := (bootKernel espBoot).originOf
  exits := []

/-- The shell runs `ls`, which raises a page fault. -/
def pageFaultRun : List ExitEvent :=
  [.step (.call (.execute (some shellName) ⟨0x7FFFB0, 0x7F6300⟩)), .step (.spawn emptyResidue),
    .step (.call (.execute (some lsName) ⟨0x7F7F00, 0x7EE200⟩)), .step (.spawn emptyResidue),
    .finish (.exception 0x0E)]

/-- The shell runs `ls`, which calls `halt(5)`. -/
def haltFiveRun : List ExitEvent := pageFaultRun.take 4 ++ [.finish (.halt 5)]

/-- A run whose last step brings a wrong value. -/
theorem not_allSteps_of_value {img : FsImage} {m m' c : ExitMachine} {events : List ExitEvent}
    {x : ProgramExit} (hrun : runFrom (ExitMachine.step img) m events = some m')
    (hstep : m'.step img (.step .halt) = some c) (hexits : c.exits = m'.exits ++ [x])
    (hvalue : x.value ≠ x.ending.value) :
    ¬ AllSteps (ExitMachine.step img) ExitMeets m (events ++ [.step .halt]) := by
  intro h
  obtain ⟨hmeets, -⟩ := allSteps_of_append h hrun c hstep
  exact hvalue (hmeets x hexits).value

end Ece391Os
