import Ece391Os.Model.SystemCall
import Ece391Os.Properties.SwitchWait

/-!
# The values that system calls return

`system_call` parks the value of a handler in one global word until `popal` is done. A call
whose handler returns with interrupts disabled cannot be interrupted there (`Guarded`); for
the others the word survives as long as nobody stores another value in it (`Unshared`).
-/

set_option autoImplicit false

namespace Ece391Os

open EventRun

/-! ## Handlers stay with their process -/

section Handlers

variable {img : FsImage} {res : Residue} {k k' : Kernel}

/-- A handler that returns leaves the scheduling state alone. -/
theorem tasks_serve {call : Call} {v : Int} (h : serve img res k call = some (v, k')) :
    k'.tasks = k.tasks :=
  callFrame_tasks.serve (fun _ _ _ _ _ => rfl) tasks_clearArgs h

end Handlers

/-! ## The two invariants -/

/-- The process stands behind a handler that returned with interrupts disabled. -/
def Phase.closed : Phase → Prop
  | .returned _ enabled => enabled = false
  | .stored _ enabled => enabled = false
  | .popped _ enabled => enabled = false
  | .reloaded _ _ enabled => enabled = false
  | .user => False
  | .handler _ => False
  | .waiting => False

/-- The value that the process has stored and not yet reloaded. -/
def Phase.parked : Phase → Option Int
  | .stored own _ => some own
  | .popped own _ => some own
  | _ => none

namespace CallMachine

/-- No call stands between the return of its handler and its own return. -/
def Settled (m : CallMachine) : Prop :=
  (∀ p, ¬ (m.phase p).closed ∧ (m.phase p).parked = none ∧
    ∀ own eax enabled, m.phase p ≠ .reloaded own eax enabled) ∧ m.delivered = []

/-- Calls that return with interrupts disabled keep the processor until they are back. -/
structure Guarded (m : CallMachine) : Prop where
  disabled : (m.phase m.running).closed → m.kernel.interrupts = false
  others : ∀ q, q ≠ m.running → ¬ (m.phase q).closed
  parked : ∀ own, (m.phase m.running).closed → (m.phase m.running).parked = some own →
    m.returnVal = own
  reloaded : ∀ own eax, m.phase m.running = .reloaded own eax false → eax = own
  delivered : ∀ d ∈ m.delivered, d.enabled = false → d.eax = d.own

/-- Every stored value is still there. -/
structure Unshared (m : CallMachine) : Prop where
  parked : ∀ p own, (m.phase p).parked = some own → m.returnVal = own
  reloaded : ∀ p own eax enabled, m.phase p = .reloaded own eax enabled → eax = own
  delivered : ∀ d ∈ m.delivered, d.eax = d.own

/-- No process stores a value while another one has stored a different one and not reloaded it. -/
def NoClash (m : CallMachine) (e : CallEvent) (_ : CallMachine) : Prop :=
  e = .store → ∀ own enabled, m.phase m.running = .returned own enabled →
    ∀ q, q ≠ m.running → ∀ other, (m.phase q).parked = some other → other = own

section Steps

variable {img : FsImage} {m m' : CallMachine}

/-- A step of the running process to another instruction: what remains to be shown. -/
theorem Guarded.goto (h : Guarded m) {p : Phase} (hrunning : m'.running = m.running)
    (hphase : m'.phase = Function.update m.phase m.running p)
    (hdisabled : p.closed → m'.kernel.interrupts = false)
    (hparked : ∀ own, p.closed → p.parked = some own → m'.returnVal = own)
    (hreloaded : ∀ own eax, p = .reloaded own eax false → eax = own)
    (hdelivered : ∀ d ∈ m'.delivered, d.enabled = false → d.eax = d.own) : Guarded m' := by
  have hself : m'.phase m'.running = p := by rw [hphase, hrunning, Function.update_self]
  constructor
  · rw [hself]
    exact hdisabled
  · intro q hq
    rw [hrunning] at hq
    rw [hphase, Function.update_of_ne hq]
    exact h.others q hq
  · rw [hself]
    exact hparked
  · rw [hself]
    exact hreloaded
  · exact hdelivered

/-- The process on the processor changes while no call that came back disabled is under way. -/
theorem Guarded.handOver (hclosed : ∀ q, ¬ (m'.phase q).closed)
    (hdelivered : ∀ d ∈ m'.delivered, d.enabled = false → d.eax = d.own) : Guarded m' where
  disabled h := absurd h (hclosed _)
  others q _ := hclosed q
  parked own h := absurd h (hclosed _)
  reloaded own eax h := absurd (by rw [h]; rfl) (hclosed m'.running)
  delivered := hdelivered

/-- With interrupts enabled no call that came back disabled is under way. -/
theorem Guarded.not_closed (h : Guarded m) (hopen : ¬ (m.phase m.running).closed) (q : Pid) :
    ¬ (m.phase q).closed := by
  rcases eq_or_ne q m.running with rfl | hne
  · exact hopen
  · exact h.others q hne

/-- Parent and child: the running process and another one change their phase. -/
theorem Guarded.not_closed_update (h : Guarded m) {p₁ p₂ : Phase} (c : Pid) (h₁ : ¬ p₁.closed)
    (h₂ : ¬ p₂.closed) (q : Pid) :
    ¬ (Function.update (Function.update m.phase m.running p₁) c p₂ q).closed := by
  rcases eq_or_ne q c with rfl | hne
  · rw [Function.update_self]
    exact h₂
  · rw [Function.update_of_ne hne]
    rcases eq_or_ne q m.running with rfl | hrunning
    · rw [Function.update_self]
      exact h₁
    · rw [Function.update_of_ne hrunning]
      exact h.others q hrunning

/-- The step lemma, without any condition. -/
theorem Guarded.step {e : CallEvent} (h : Guarded m) (hstep : step img m e = some m') :
    Guarded m' := by
  cases effect_of_step hstep with
  | call =>
      refine h.goto rfl rfl False.elim (fun _ => False.elim) ?_ h.delivered
      rintro own eax ⟨⟩
  | reject =>
      refine h.goto rfl rfl (fun _ => rfl) ?_ ?_ h.delivered
      · rintro own - ⟨⟩
      · rintro own eax ⟨⟩
        rfl
  | window hphase =>
      refine handOver (h.not_closed ?_) h.delivered
      rw [hphase]
      exact id
  | serve _ hserve =>
      have hpid := congrArg Tasks.currentPid (tasks_serve hserve)
      refine h.goto hpid rfl id ?_ ?_ h.delivered
      · rintro own - ⟨⟩
      · rintro own eax ⟨⟩
  | spawn => exact handOver (h.not_closed_update _ id id) h.delivered
  | haltFirst => exact handOver (h.not_closed_update _ id id) h.delivered
  | haltChild _ hk =>
      -- the `sti` in front of the return of `execute`
      subst hk
      exact handOver (h.not_closed_update _ id (by simp [Phase.closed, halted])) h.delivered
  | store hphase =>
      refine h.goto rfl rfl (fun hclosed => h.disabled (by rw [hphase]; exact hclosed)) ?_ ?_
        h.delivered
      · rintro _ _ ⟨⟩
        rfl
      · rintro own eax ⟨⟩
  | popal hphase =>
      refine h.goto rfl rfl (fun hclosed => h.disabled (by rw [hphase]; exact hclosed)) ?_ ?_
        h.delivered
      · intro own' hclosed hown
        exact h.parked own' (by rw [hphase]; exact hclosed) (by rw [hphase]; exact hown)
      · rintro own eax ⟨⟩
  | @reload own _ hphase =>
      -- nobody has stored a value since: interrupts are disabled
      refine h.goto rfl rfl (fun hclosed => h.disabled (by rw [hphase]; exact hclosed)) ?_ ?_
        h.delivered
      · rintro own' - ⟨⟩
      · rintro _ _ ⟨⟩
        exact h.parked own (by rw [hphase]; rfl) (by rw [hphase]; rfl)
  | @iret own eax enabled hphase =>
      refine h.goto rfl rfl False.elim (fun _ => False.elim) ?_ ?_
      · rintro own' eax' ⟨⟩
      · intro d hd hfalse
        rcases List.mem_append.mp hd with hold | hnew
        · exact h.delivered d hold hfalse
        · obtain rfl := List.mem_singleton.mp hnew
          obtain rfl : enabled = false := hfalse
          exact h.reloaded own eax hphase
  | tick henabled =>
      refine handOver (h.not_closed fun hclosed => ?_) h.delivered
      rw [h.disabled hclosed] at henabled
      cases henabled

/-- The same step for the other invariant. -/
theorem Unshared.goto (h : Unshared m) {p : Phase}
    (hphase : m'.phase = Function.update m.phase m.running p)
    (hreturnVal : m'.returnVal = m.returnVal) (hparked : ∀ own, p.parked = some own →
      m.returnVal = own)
    (hreloaded : ∀ own eax enabled, p = .reloaded own eax enabled → eax = own)
    (hdelivered : ∀ d ∈ m'.delivered, d.eax = d.own) : Unshared m' := by
  constructor
  · intro q own hq
    rw [hphase] at hq
    rw [hreturnVal]
    rcases eq_or_ne q m.running with rfl | hne
    · rw [Function.update_self] at hq
      exact hparked own hq
    · rw [Function.update_of_ne hne] at hq
      exact h.parked q own hq
  · intro q own eax enabled hq
    rw [hphase] at hq
    rcases eq_or_ne q m.running with rfl | hne
    · rw [Function.update_self] at hq
      exact hreloaded own eax enabled hq
    · rw [Function.update_of_ne hne] at hq
      exact h.reloaded q own eax enabled hq
  · exact hdelivered

/-- A process whose call is elsewhere in the wrapper. -/
theorem Unshared.update (h : Unshared m) {p : Phase} (c : Pid) (hparked : p.parked = none)
    (hreloaded : ∀ own eax enabled, p ≠ .reloaded own eax enabled)
    (hreturnVal : m'.returnVal = m.returnVal) (hdelivered : m'.delivered = m.delivered)
    (hphase : m'.phase = Function.update m.phase c p) : Unshared m' := by
  constructor
  · intro q own hq
    rw [hphase] at hq
    rw [hreturnVal]
    rcases eq_or_ne q c with rfl | hne
    · rw [Function.update_self, hparked] at hq
      cases hq
    · rw [Function.update_of_ne hne] at hq
      exact h.parked q own hq
  · intro q own eax enabled hq
    rw [hphase] at hq
    rcases eq_or_ne q c with rfl | hne
    · rw [Function.update_self] at hq
      exact absurd hq (hreloaded own eax enabled)
    · rw [Function.update_of_ne hne] at hq
      exact h.reloaded q own eax enabled hq
  · rw [hdelivered]
    exact h.delivered

/-- The step lemma, for steps without a clash. -/
theorem Unshared.step {e : CallEvent} (h : Unshared m) (hstep : step img m e = some m')
    (hclash : NoClash m e m') : Unshared m' := by
  cases effect_of_step hstep with
  | call => exact h.update _ rfl (by simp) rfl rfl rfl
  | reject =>
      refine h.goto rfl rfl nofun ?_ h.delivered
      rintro _ _ _ ⟨⟩
      rfl
  | window => exact ⟨h.parked, h.reloaded, h.delivered⟩
  | serve => exact h.update _ rfl (by simp) rfl rfl rfl
  | spawn =>
      have hwaiting : Unshared (m.goto .waiting) := h.update _ rfl (by simp) rfl rfl rfl
      exact hwaiting.update _ rfl (by simp) rfl rfl rfl
  | haltFirst =>
      have hdead : Unshared (m.goto .user) := h.update _ rfl (by simp) rfl rfl rfl
      exact hdead.update _ rfl (by simp) rfl rfl rfl
  | haltChild =>
      have hdead : Unshared (m.goto .user) := h.update _ rfl (by simp) rfl rfl rfl
      exact hdead.update _ rfl (by simp) rfl rfl rfl
  | @store own enabled hphase =>
      constructor
      · intro q other hq
        simp only [CallMachine.goto] at hq ⊢
        rcases eq_or_ne q m.running with rfl | hne
        · rw [Function.update_self] at hq
          exact Option.some.inj hq
        · -- what others have stored is the value that is stored again
          rw [Function.update_of_ne hne] at hq
          exact (hclash rfl own enabled hphase q hne other hq).symm
      · intro q own' eax enabled' hq
        simp only [CallMachine.goto] at hq
        rcases eq_or_ne q m.running with rfl | hne
        · rw [Function.update_self] at hq
          cases hq
        · rw [Function.update_of_ne hne] at hq
          exact h.reloaded q own' eax enabled' hq
      · exact h.delivered
  | popal hphase =>
      refine h.goto rfl rfl ?_ nofun h.delivered
      intro own' hown
      exact h.parked m.running own' (by rw [hphase]; exact hown)
  | @reload own _ hphase =>
      refine h.goto rfl rfl nofun ?_ h.delivered
      rintro _ _ _ ⟨⟩
      exact h.parked m.running own (by rw [hphase]; rfl)
  | @iret own eax enabled hphase =>
      refine h.goto rfl rfl nofun nofun ?_
      intro d hd
      rcases List.mem_append.mp hd with hold | hnew
      · exact h.delivered d hold
      · obtain rfl := List.mem_singleton.mp hnew
        exact h.reloaded m.running own eax enabled hphase
  | tick => exact ⟨h.parked, h.reloaded, h.delivered⟩

end Steps

/-- In every run from a settled state, a call whose handler returned with interrupts disabled
delivers the value of its handler; if no two processes clash, so does every call. -/
theorem delivered_own {img : FsImage} {m m' : CallMachine} {es : List CallEvent}
    (hsettled : Settled m) (hrun : runFrom (step img) m es = some m') :
    (∀ d ∈ m'.delivered, d.enabled = false → d.eax = d.own) ∧
      (AllSteps (step img) NoClash m es → ∀ d ∈ m'.delivered, d.eax = d.own) := by
  obtain ⟨hphase, hnone⟩ := hsettled
  constructor
  · have hstart : Guarded m := by
      refine ⟨fun h => absurd h (hphase _).1, fun q _ => (hphase q).1,
        fun _ h => absurd h (hphase _).1, fun own eax h => absurd h ((hphase _).2.2 _ _ _), ?_⟩
      rw [hnone]
      intro d hd
      cases hd
    exact (invariant_of_runFrom (fun _ _ _ h hstep => h.step hstep) hstart
      hrun).delivered
  · intro hclash
    have hstart : Unshared m := by
      refine ⟨fun q own h => ?_, fun q own eax enabled h => absurd h ((hphase q).2.2 _ _ _), ?_⟩
      · rw [(hphase q).2.1] at h
        cases h
      · rw [hnone]
        intro d hd
        cases hd
    exact (invariant_of_allSteps (fun _ _ _ h hstep hQ => h.step hstep hQ)
      hstart hclash hrun).delivered

/-! ## Two runs -/

/-- The first shell waits for a line; the second one runs. -/
def twoCallers : CallMachine where
  kernel := Machine.twoShells.kernel
  statusReg := .al
  returnVal := 0
  phase := fun p => if p = 1 then .handler (.read 0 (some 0x8048000) 128) else .user
  userFlag := fun _ => false
  delivered := []

theorem settled_twoCallers : Settled twoCallers := by
  refine ⟨fun p => ?_, rfl⟩
  by_cases hp : p = 1
  · simp [twoCallers, hp, Phase.closed, Phase.parked]
  · simp [twoCallers, hp, Phase.closed, Phase.parked]

/-- `write(1, "hi", 2)`. -/
def writeHi : Call := .write 1 (some fun i => [104, 105].getD i 0) 2

/-- The call up to the return of its handler. -/
def writeRun : List CallEvent := [.call writeHi, .serve emptyResidue]

/-- The rest of the wrapper. -/
def returnRun : List CallEvent := [.store, .popal, .reload, .iret]

/-- The machine after both. -/
def afterWrite : CallMachine :=
  (runFrom (step shellImage) twoCallers (writeRun ++ returnRun)).get (by decide +kernel)

/-- Without a timer interrupt in between the call delivers the number of bytes. -/
theorem delivered_own_afterWrite :
    runFrom (step shellImage) twoCallers (writeRun ++ returnRun) = some afterWrite ∧
      ∀ d ∈ afterWrite.delivered, d.eax = d.own := by
  have hrun : runFrom (step shellImage) twoCallers (writeRun ++ returnRun) = some afterWrite :=
    (Option.some_get _).symm
  refine ⟨hrun, (delivered_own settled_twoCallers hrun).2 ?_⟩
  intro m₁ h₁
  refine ⟨nofun, fun m₂ h₂ => ⟨nofun, fun m₃ _ => ⟨?_, fun m₄ _ => ⟨nofun, fun m₅ _ =>
    ⟨nofun, fun m₆ _ => ⟨nofun, trivial⟩⟩⟩⟩⟩⟩
  -- when the value is stored, no other process has stored one
  have hparked : ((step shellImage twoCallers (.call writeHi)).bind fun m =>
      (step shellImage m (.serve emptyResidue)).map fun m =>
        decide (∀ q, (m.phase q).parked = none)) = some true := by decide
  rw [h₁, Option.bind_some, h₂, Option.map_some, Option.some.injEq, decide_eq_true_iff] at hparked
  rintro _ own enabled _ q _ other hother
  rw [hparked q] at hother
  cases hother

/-- The line `ls` in `read_buffer`. -/
def lineResidue : Residue := { emptyResidue with line := fun i => [108, 115, 10].getD i 0 }

/-- A timer interrupt comes between the store of the second shell and its reload. The first shell
returns from its `read`, stores its own value, and is interrupted in turn. -/
def clashRun : List CallEvent :=
  writeRun ++ [.store, .tick 0x7EFE00 0x7EFE40, .serve lineResidue, .store,
    .tick 0x7F7E00 0x7F7E40, .popal, .reload, .iret]

/-- The machine after that. -/
def afterClash : CallMachine :=
  (runFrom (step shellImage) twoCallers clashRun).get (by decide +kernel)

/-- The `write` of two bytes returns 3 to its caller: the value of the other call. -/
theorem not_delivered_own_afterClash :
    Settled twoCallers ∧ runFrom (step shellImage) twoCallers clashRun = some afterClash ∧
      afterClash.delivered = [⟨2, 2, 3, true⟩] ∧
      ¬ ∀ d ∈ afterClash.delivered, d.eax = d.own := by
  have hdelivered : afterClash.delivered = [⟨2, 2, 3, true⟩] := by decide
  refine ⟨settled_twoCallers, (Option.some_get _).symm, hdelivered, fun h => ?_⟩
  rw [hdelivered] at h
  exact absurd (h _ (List.mem_singleton_self _)) (by decide)

end CallMachine

end Ece391Os
