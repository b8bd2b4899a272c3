import Ece391Os.Properties.Rotation
import Mathlib.Algebra.Group.Nat.Even

/-!
# Leaving the wait loop of `terminal_switch`

`terminal_switch` samples the one-bit `schedule_tick` and waits until it differs. Each timer
interrupt toggles the bit, so whether the loop is left when the terminal is resumed depends
on the parity of the number of timer interrupts in between: `scheduleTick_eq_iff` for any
run. Between two switches that parity follows from the terminals that have something to run
(`odd_chosen_iff`). `waitOver_iff` puts the two together.
-/

set_option autoImplicit false

namespace Ece391Os

open EventRun

/-- The event is a timer interrupt. -/
def Event.isTick : Event → Bool
  | .tick _ _ => true
  | _ => false

/-- The event is a terminal switch. -/
def Event.isSwitch : Event → Bool
  | .altFn _ _ _ _ _ => true
  | _ => false

namespace Machine

/-- The terminals that the timer interrupts of a run choose. -/
def chosen (img : FsImage) : Machine → List Event → List Terminal
  | _, [] => []
  | m, e :: es =>
      match step img m e with
      | none => []
      | some m' =>
          if e.isTick then m'.tasks.sched.currentProcess :: chosen img m' es
          else chosen img m' es

/-- The run ends with the first timer interrupt that chooses terminal `c`. -/
structure FirstResume (img : FsImage) (c : Terminal) (m : Machine) (es : List Event)
    (m' : Machine) : Prop where
  run : runFrom (step img) m es = some m'
  last : ∃ esp ebp, es.getLast? = some (.tick esp ebp)
  first : ∃ pre, chosen img m es = pre ++ [c] ∧ c ∉ pre

/-- The condition of the innermost wait loop in `m₁` has come to hold in `m₂`. -/
def WaitOver (m₁ m₂ : Machine) : Prop :=
  ∃ w, m₁.cpu.waits.head? = some w ∧ w.ticked ≠ m₂.tasks.sched.scheduleTick

/-- The step is no terminal switch, and the same terminals have something to run after it. -/
def Steady (m : Machine) (e : Event) (m' : Machine) : Prop :=
  e.isSwitch = false ∧ ready m'.tasks.sched.scheduleTop = ready m.tasks.sched.scheduleTop

section Parity

variable {img : FsImage} {m m' : Machine}

theorem resume_scheduleTick (s : Tasks) (t : Terminal) :
    (s.resume t).sched.scheduleTick = !s.sched.scheduleTick := by
  simp only [Tasks.resume]
  split <;> rfl

theorem save_scheduleTick (s : Tasks) (esp ebp : Word) :
    (s.save esp ebp).sched.scheduleTick = s.sched.scheduleTick := by
  simp only [Tasks.save]
  split <;> rfl

/-- The bit is toggled by timer interrupts, and by nothing else. -/
theorem scheduleTick_step {e : Event} (h : step img m e = some m') :
    m'.tasks.sched.scheduleTick = (m.tasks.sched.scheduleTick ^^ e.isTick) := by
  cases effect_of_step h with
  | quiet htick _ htasks =>
      cases e with
      | tick esp ebp => exact absurd rfl (htick esp ebp)
      | _ => simp [htasks, Event.isTick]
  | request _ _ htasks => simp [htasks, Tasks.request, Event.isTick]
  | enterFailed _ _ _ htasks => simp [htasks, Tasks.enter, Event.isTick]
  | enter _ _ _ htasks => simp [htasks, Tasks.enter, Tasks.spawn, Event.isTick]
  | execute _ _ _ htasks => simp [htasks, Tasks.spawn, Event.isTick]
  | respawn _ _ _ _ htasks => simp [htasks, Tasks.spawn, Event.isTick]
  | respawnFailed _ _ htasks => simp [htasks, Event.isTick]
  | halt _ htasks => simp [htasks, Tasks.exit, Event.isTick]
  | tick _ htasks =>
      rw [htasks, resume_scheduleTick, save_scheduleTick]
      simp [Event.isTick]

/-- Over a run the bit comes back to its value exactly if the number of timer interrupts is
even. -/
theorem scheduleTick_eq_iff {es : List Event} (h : runFrom (step img) m es = some m') :
    m'.tasks.sched.scheduleTick = m.tasks.sched.scheduleTick ↔
      Even (es.countP Event.isTick) := by
  induction es generalizing m with
  | nil =>
      cases h
      simp
  | cons e es ih =>
      obtain ⟨m₁, hstep, htail⟩ := Option.bind_eq_some_iff.mp h
      have hbit := scheduleTick_step hstep
      have hrest := ih htail
      cases hkind : e.isTick with
      | false =>
          rw [hkind, Bool.xor_false] at hbit
          rw [← hbit, hrest, List.countP_cons_of_neg (by simp [hkind])]
      | true =>
          rw [hkind, Bool.xor_true] at hbit
          rw [List.countP_cons_of_pos hkind, Nat.even_add_one, ← hrest, hbit]
          cases m'.tasks.sched.scheduleTick <;> cases m.tasks.sched.scheduleTick <;> simp

/-- Each timer interrupt makes one choice. -/
theorem length_chosen {es : List Event} (h : runFrom (step img) m es = some m') :
    (chosen img m es).length = es.countP Event.isTick := by
  induction es generalizing m with
  | nil => rfl
  | cons e es ih =>
      obtain ⟨m₁, hstep, htail⟩ := Option.bind_eq_some_iff.mp h
      have hrest := ih htail
      cases hkind : e.isTick with
      | false =>
          rw [List.countP_cons_of_neg (by simp [hkind]), ← hrest]
          simp only [chosen, hstep, hkind, Bool.false_eq_true, if_false]
      | true =>
          rw [List.countP_cons_of_pos hkind, ← hrest]
          simp only [chosen, hstep, hkind, if_true, List.length_cons]

end Parity

/-! ## Between two switches -/

section Steady

variable {img : FsImage} {m m' : Machine}

theorem resume_currentProcess (s : Tasks) (t : Terminal) :
    (s.resume t).sched.currentProcess = t := by
  simp only [Tasks.resume]
  split <;> rfl

theorem resume_terminalRequest (s : Tasks) (t : Terminal) :
    (s.resume t).sched.terminalRequest = none := by
  simp only [Tasks.resume]
  split <;> rfl

/-- A timer interrupt goes to the terminal that `next` names and takes the request back. -/
theorem tick_choice {e : Event} (he : e.isTick = true) (h : step img m e = some m') :
    m.tasks.next = some m'.tasks.sched.currentProcess ∧
      m'.tasks.sched.terminalRequest = none := by
  cases effect_of_step h with
  | quiet htick =>
      cases e with
      | tick esp ebp => exact absurd rfl (htick esp ebp)
      | _ => cases he
  | tick hnext htasks =>
      rw [htasks, resume_currentProcess, resume_terminalRequest]
      exact ⟨hnext, rfl⟩
  | _ => cases he

/-- Running terminal and request change at timer interrupts and switches only. -/
theorem choice_kept {e : Event} (htick : e.isTick = false) (hswitch : e.isSwitch = false)
    (h : step img m e = some m') :
    m'.tasks.sched.currentProcess = m.tasks.sched.currentProcess ∧
      m'.tasks.sched.terminalRequest = m.tasks.sched.terminalRequest := by
  cases effect_of_step h with
  | quiet _ _ htasks => exact ⟨by rw [htasks], by rw [htasks]⟩
  | execute _ _ _ htasks => exact ⟨by rw [htasks]; rfl, by rw [htasks]; rfl⟩
  | respawn _ _ _ _ htasks => exact ⟨by rw [htasks]; rfl, by rw [htasks]; rfl⟩
  | respawnFailed _ _ htasks => exact ⟨by rw [htasks], by rw [htasks]⟩
  | halt _ htasks => exact ⟨by rw [htasks]; rfl, by rw [htasks]; rfl⟩
  | tick => cases htick
  | _ => cases hswitch

/-- Arithmetic on the three terminals. -/
theorem terminal_add (t : Terminal) :
    t + 1 + 1 = t + 2 ∧ t + 1 + 2 = t ∧ t + 2 + 1 = t ∧ t + 2 + 2 = t + 1 ∧ t + 1 ≠ t ∧
      t + 2 ≠ t := by
  revert t
  decide

theorem eq_add_of_ne {t u : Terminal} (h : t ≠ u) : t = u + 1 ∨ t = u + 2 := by
  revert t u
  decide

theorem ready_eq_true {top : Terminal → Int} {t : Terminal} : ready top t = true ↔ top t ≠ 0 := by
  simp [ready]

/-- The successor of a choice: the next terminal with something to run. -/
theorem searchNext_cases {top : Terminal → Int} {t u : Terminal}
    (h : searchNext top t = some u) :
    (u = t + 1 ∧ ready top (t + 1) = true) ∨ (u = t + 2 ∧ ready top (t + 1) = false) ∨
      (u = t ∧ ready top (t + 1) = false ∧ ready top (t + 2) = false) := by
  obtain ⟨h2, _, h3, _⟩ := terminal_add t
  rw [searchNext, searchLoop_eq] at h
  simp only [CyclicSearch.search, h2, h3] at h
  split_ifs at h with h1 h2' h3'
  · exact Or.inl ⟨(Option.some.inj h).symm, h1⟩
  · exact Or.inr (Or.inl ⟨(Option.some.inj h).symm, Bool.eq_false_iff.mpr h1⟩)
  · exact Or.inr (Or.inr ⟨(Option.some.inj h).symm, Bool.eq_false_iff.mpr h1,
      Bool.eq_false_iff.mpr h2'⟩)

/-- The search reads which terminals have something to run, and nothing else. -/
theorem searchNext_congr {top top' : Terminal → Int} (h : ready top' = ready top) :
    searchNext top' = searchNext top := by
  funext t
  rw [searchNext, searchNext, searchLoop_eq, searchLoop_eq, h]

/-- Without a request, the choices of a steady run follow each other as in the search. -/
theorem isChain_chosen {es : List Event} (hsteady : AllSteps (step img) Steady m es)
    (hrequest : m.tasks.sched.terminalRequest = none) :
    (m.tasks.sched.currentProcess :: chosen img m es).IsChain
      (fun t u => searchNext m.tasks.sched.scheduleTop t = some u) := by
  induction es generalizing m with
  | nil => exact List.IsChain.singleton _
  | cons e es ih =>
      cases hstep : step img m e with
      | none =>
          simp only [chosen, hstep]
          exact List.IsChain.singleton _
      | some m' =>
          obtain ⟨⟨hswitch, hready⟩, hrest⟩ := hsteady m' hstep
          have hsame := searchNext_congr hready
          cases hkind : e.isTick with
          | true =>
              obtain ⟨hnext, hnone⟩ := tick_choice hkind hstep
              rw [Tasks.next, hrequest] at hnext
              simp only [chosen, hstep, hkind, if_true]
              refine List.isChain_cons_cons.mpr ⟨hnext, ?_⟩
              rw [← hsame]
              exact ih hrest hnone
          | false =>
              obtain ⟨hcur, hkept⟩ := choice_kept hkind hswitch hstep
              simp only [chosen, hstep, hkind, Bool.false_eq_true, if_false]
              rw [← hcur, ← hsame]
              exact ih hrest (hkept.trans hrequest)

/-- With a request, the first choice is the requested terminal, and the others follow it as in
the search. -/
theorem isChain_chosen_of_request {es : List Event} {num t : Terminal} {ts : List Terminal}
    (hsteady : AllSteps (step img) Steady m es)
    (hrequest : m.tasks.sched.terminalRequest = some num) (h : chosen img m es = t :: ts) :
    t = num ∧
      (t :: ts).IsChain (fun t u => searchNext m.tasks.sched.scheduleTop t = some u) := by
  -- over the steps before the first tick, which keep the request
  induction es generalizing m with
  | nil => simp [chosen] at h
  | cons e es ih =>
      cases hstep : step img m e with
      | none => simp [chosen, hstep] at h
      | some m' =>
          obtain ⟨⟨hswitch, hready⟩, hrest⟩ := hsteady m' hstep
          rw [← searchNext_congr hready]
          cases hkind : e.isTick with
          | true =>
              obtain ⟨hnext, hnone⟩ := tick_choice hkind hstep
              rw [Tasks.next, hrequest] at hnext
              simp only [chosen, hstep, hkind, if_true] at h
              rw [← h]
              obtain ⟨rfl, _⟩ := List.cons.inj h
              exact ⟨(Option.some.inj hnext).symm, isChain_chosen hrest hnone⟩
          | false =>
              obtain ⟨_, hkept⟩ := choice_kept hkind hswitch hstep
              simp only [chosen, hstep, hkind, Bool.false_eq_true, if_false] at h
              exact ih hrest (hkept.trans hrequest) h

/-- Every terminal of a chain of the search, its first apart, has something to run. -/
theorem ready_of_mem_chain {top : Terminal → Int} {t : Terminal} {ts : List Terminal}
    (h : (t :: ts).IsChain (fun t u => searchNext top t = some u)) :
    ∀ u ∈ ts, ready top u = true := by
  induction ts generalizing t with
  | nil => simp
  | cons v ts ih =>
      obtain ⟨hnext, htail⟩ := List.isChain_cons_cons.mp h
      intro u hu
      rcases List.mem_cons.mp hu with rfl | hu
      · exact ready_eq_true.mpr (top_ne_zero_of_searchNext hnext)
      · exact ih htail u hu

/-- The predecessor of `c` is followed by `c`, if `c` has something to run. -/
theorem searchNext_pred {top : Terminal → Int} {c u : Terminal} (hready : ready top c = true)
    (h : searchNext top (c + 2) = some u) : u = c := by
  have hcases := searchNext_cases h
  rw [(terminal_add c).2.2.1, hready] at hcases
  rcases hcases with ⟨heq, _⟩ | ⟨_, hfalse⟩ | ⟨_, hfalse, _⟩
  · exact heq
  · cases hfalse
  · cases hfalse

/-- The successor of `c` is followed by `c` or by the third terminal, which then has something to
run. -/
theorem searchNext_succ {top : Terminal → Int} {c u : Terminal} (hready : ready top c = true)
    (h : searchNext top (c + 1) = some u) :
    u = c ∧ ready top (c + 2) = false ∨ u = c + 2 ∧ ready top (c + 2) = true := by
  obtain ⟨h11, h12, _⟩ := terminal_add c
  have hcases := searchNext_cases h
  rw [h11, h12, hready] at hcases
  rcases hcases with ⟨heq, htrue⟩ | ⟨heq, hfalse⟩ | ⟨_, _, hfalse⟩
  · exact Or.inr ⟨heq, htrue⟩
  · exact Or.inl ⟨heq, hfalse⟩
  · cases hfalse

/-- A chain of the search comes to `c` for the first time at its first terminal `num` (`num = c`),
at its third (`num` is the successor of `c` and the remaining terminal has something to run)
or at its second. -/
theorem odd_length_chain_iff {top : Terminal → Int} {num c : Terminal} {pre : List Terminal}
    (hchain : (num :: pre ++ [c]).IsChain (fun t u => searchNext top t = some u))
    (hnum : num ≠ c) (hfirst : c ∉ pre) :
    Odd (num :: pre ++ [c]).length ↔ num = c + 1 ∧ ready top (c + 2) = true := by
  have hready : ready top c = true := ready_of_mem_chain hchain c (by simp)
  have hne := (terminal_add c).2.2.2.2
  cases pre with
  | nil =>
      -- two choices: the search behind `num` came to `c` at once
      have hnext := (List.isChain_cons_cons.mp hchain).1
      constructor
      · intro hodd
        exact absurd hodd (Nat.not_odd_iff_even.mpr ⟨1, rfl⟩)
      · rintro ⟨rfl, hthird⟩
        rcases searchNext_succ hready hnext with ⟨_, hfalse⟩ | ⟨heq, _⟩
        · rw [hthird] at hfalse
          cases hfalse
        · exact absurd heq.symm hne.2
  | cons u pre =>
      obtain ⟨hnext, htail⟩ := List.isChain_cons_cons.mp hchain
      have huc : u ≠ c := fun h => hfirst (h ▸ List.mem_cons_self)
      -- the search passed over `c`, so `num` is its successor and `u` the third terminal
      obtain rfl | rfl := eq_add_of_ne hnum
      · obtain ⟨heq, _⟩ | ⟨rfl, htrue⟩ := searchNext_succ hready hnext
        · exact absurd heq huc
        cases pre with
        | nil => exact ⟨fun _ => ⟨rfl, htrue⟩, fun _ => ⟨1, rfl⟩⟩
        | cons v pre =>
            -- a fourth choice would be behind `c`
            have heq := searchNext_pred hready (List.isChain_cons_cons.mp htail).1
            exact absurd (by simp [heq]) hfirst
      · exact absurd (searchNext_pred hready hnext) huc

/-- From a request for `num` on, a steady run comes to `c` for the first time at the first choice
(`num = c`), at the third (`num` is the successor of `c` and the remaining terminal has
something to run) or at the second. -/
theorem odd_chosen_iff {es : List Event} {num c : Terminal} {pre : List Terminal}
    (hsteady : AllSteps (step img) Steady m es)
    (hrequest : m.tasks.sched.terminalRequest = some num)
    (hchosen : chosen img m es = pre ++ [c]) (hfirst : c ∉ pre) :
    Odd (pre ++ [c]).length ↔
      num = c ∨ num = c + 1 ∧ m.tasks.sched.scheduleTop (c + 2) ≠ 0 := by
  rw [← ready_eq_true]
  cases pre with
  | nil =>
      obtain ⟨hc, _⟩ := isChain_chosen_of_request hsteady hrequest hchosen
      exact ⟨fun _ => Or.inl hc.symm, fun _ => ⟨0, rfl⟩⟩
  | cons t pre =>
      obtain ⟨rfl, hchain⟩ := isChain_chosen_of_request hsteady hrequest hchosen
      have hne : t ≠ c := fun h => hfirst (h ▸ List.mem_cons_self)
      rw [odd_length_chain_iff hchain hne fun h => hfirst (List.mem_cons_of_mem t h)]
      exact (or_iff_right hne).symm

end Steady

/-! ## The wait loop -/

section WaitLoop

variable {img : FsImage} {m m₁ m₂ : Machine} {num : Terminal} {esp ebp : Word} {res : Residue}
  {frame : ExecuteFrame}

/-- A switch to a running terminal waits, with the current bit as its sample. -/
theorem waiting_of_running (hswitch : step img m (.altFn num esp ebp res frame) = some m₁)
    (hnum : num ≠ m.tasks.currentTerminal) (hrunning : m.tasks.running num = true) :
    m₁.tasks = m.tasks.request num ∧
      m₁.cpu.waits =
        ⟨m.tasks.sched.scheduleTick, m.kernel.video.videoMem⟩ :: m.cpu.waits := by
  cases effect_of_step hswitch with
  | quiet _ _ _ _ _ hunchanged =>
      rcases hunchanged num esp ebp res frame rfl with h | h
      · exact absurd h hnum
      · rw [hrunning] at h
        cases h
  | request _ _ htasks hcpu => exact ⟨htasks, by rw [hcpu]⟩
  | enterFailed _ _ hstopped =>
      rw [hrunning] at hstopped
      cases hstopped
  | enter _ hstopped =>
      rw [hrunning] at hstopped
      cases hstopped

/-- A switch from the running terminal to the running terminal `num`, and a run up to the first
timer interrupt that chooses the interrupted terminal again. The wait loop is left exactly
if the number of timer interrupts of the run is odd. If the run has no further switch and no
stack becomes empty or ceases to be empty, that is so exactly if `num` is the interrupted terminal
itself, or its successor while the third terminal has something to run. -/
theorem waitOver_iff {es : List Event}
    (hswitch : step img m (.altFn num esp ebp res frame) = some m₁)
    (hnum : num ≠ m.tasks.currentTerminal) (hrunning : m.tasks.running num = true)
    (hresume : FirstResume img m.tasks.sched.currentProcess m₁ es m₂) :
    (WaitOver m₁ m₂ ↔ Odd (es.countP Event.isTick)) ∧
      (AllSteps (step img) Steady m₁ es →
        (WaitOver m₁ m₂ ↔
          num = m.tasks.sched.currentProcess ∨
            num = m.tasks.sched.currentProcess + 1 ∧
              m.tasks.sched.scheduleTop (m.tasks.sched.currentProcess + 2) ≠ 0)) := by
  obtain ⟨htasks, hwaits⟩ := waiting_of_running hswitch hnum hrunning
  obtain ⟨hrun, _, pre, hchosen, hfirst⟩ := hresume
  have hsample : m₁.tasks.sched.scheduleTick = m.tasks.sched.scheduleTick := by
    rw [htasks]
    rfl
  have hodd : WaitOver m₁ m₂ ↔ Odd (es.countP Event.isTick) := by
    rw [← Nat.not_even_iff_odd, ← scheduleTick_eq_iff hrun, hsample]
    simp only [WaitOver, hwaits, List.head?_cons, Option.some.injEq, exists_eq_left']
    exact not_congr eq_comm
  refine ⟨hodd, fun hsteady => ?_⟩
  have hrequest : m₁.tasks.sched.terminalRequest = some num := by
    rw [htasks]
    rfl
  have htop : m₁.tasks.sched.scheduleTop = m.tasks.sched.scheduleTop := by
    rw [htasks]
    rfl
  rw [hodd, ← length_chosen hrun, hchosen, ← htop]
  exact odd_chosen_iff hsteady hrequest hchosen hfirst

end WaitLoop

/-! ## Two runs -/

/-- The first shell is in a system call. -/
def shellInCall : Machine := (step shellImage bootedMachine .openWindow).get (by decide +kernel)

theorem step_shellInCall : step shellImage bootedMachine .openWindow = some shellInCall :=
  (Option.some_get _).symm

/-- A timer interrupt has saved it and goes on with it. -/
def shellTicked : Machine :=
  (step shellImage shellInCall (.tick 0x7F7E00 0x7F7E40)).get (by decide +kernel)

theorem step_shellTicked :
    step shellImage shellInCall (.tick 0x7F7E00 0x7F7E40) = some shellTicked :=
  (Option.some_get _).symm

/-- It is interrupted by the key that starts a shell on the second terminal. -/
def twoShells : Machine :=
  (step shellImage shellTicked
    (.altFn 1 0x7F7D80 0x7F7DC0 emptyResidue ⟨0x7F7D00, 0x7EE100⟩)).get (by decide +kernel)

theorem step_twoShells : step shellImage shellTicked
    (.altFn 1 0x7F7D80 0x7F7DC0 emptyResidue ⟨0x7F7D00, 0x7EE100⟩) = some twoShells :=
  (Option.some_get _).symm

/-- From the first shell to the second. -/
def secondShellRun : List Event :=
  [.openWindow, .tick 0x7F7E00 0x7F7E40,
    .altFn 1 0x7F7D80 0x7F7DC0 emptyResidue ⟨0x7F7D00, 0x7EE100⟩]

theorem run_twoShells :
    runFrom (step shellImage) bootedMachine secondShellRun = some twoShells := by
  simp only [secondShellRun, runFrom_cons, step_shellInCall, step_shellTicked, step_twoShells,
    Option.bind_some, runFrom_nil]

/-- The second shell is in a system call. -/
def secondInCall : Machine := (step shellImage twoShells .openWindow).get (by decide +kernel)

theorem run_secondInCall :
    runFrom (step shellImage) bootedMachine (secondShellRun ++ [.openWindow]) =
      some secondInCall := by
  rw [runFrom_append, run_twoShells, Option.bind_some, runFrom_cons, Option.bind_eq_some_iff]
  exact ⟨secondInCall, (Option.some_get _).symm, rfl⟩

/-- It is interrupted by a switch to the first terminal. -/
def secondWaits : Machine :=
  (step shellImage secondInCall
    (.altFn 0 0x7EFE00 0x7EFE40 emptyResidue ⟨0x7EFD00, 0x7E6100⟩)).get (by decide +kernel)

/-- Two timer interrupts later it is resumed. -/
def secondResumed : Machine :=
  (runFrom (step shellImage) secondWaits
    [.tick 0x7EFD80 0x7EFDC0, .tick 0x7F7E00 0x7F7E40]).get (by decide +kernel)

/-- With two terminals, a switch from the second to the first: the second terminal is resumed by
the second timer interrupt, and its loop is not left. -/
theorem not_waitOver_secondResumed :
    runFrom (step shellImage) bootedMachine (secondShellRun ++ [.openWindow]) =
        some secondInCall ∧
      step shellImage secondInCall
        (.altFn 0 0x7EFE00 0x7EFE40 emptyResidue ⟨0x7EFD00, 0x7E6100⟩) = some secondWaits ∧
      (0 : Terminal) ≠ secondInCall.tasks.currentTerminal ∧
      secondInCall.tasks.running 0 = true ∧
      FirstResume shellImage secondInCall.tasks.sched.currentProcess secondWaits
        [.tick 0x7EFD80 0x7EFDC0, .tick 0x7F7E00 0x7F7E40] secondResumed ∧
      secondResumed.cpu = secondWaits.cpu ∧ ¬ WaitOver secondWaits secondResumed := by
  refine ⟨run_secondInCall, (Option.some_get _).symm, by decide, by decide, ?_,
    by decide, ?_⟩
  · refine ⟨(Option.some_get _).symm, ⟨_, _, rfl⟩, [0], by decide, by decide⟩
  · rintro ⟨w, hw, hne⟩
    have hticked : secondWaits.cpu.waits.head?.map Wait.ticked =
        some secondResumed.tasks.sched.scheduleTick := by decide
    rw [hw] at hticked
    exact hne (Option.some.inj hticked)

/-- A timer interrupt takes the processor from the second shell to the first, which is in a system
call of its own. -/
def firstInCall : Machine :=
  (step shellImage secondInCall (.tick 0x7EFE00 0x7EFE40)).get (by decide +kernel)

/-- It is interrupted by a switch to its own terminal. -/
def firstWaits : Machine :=
  (step shellImage firstInCall
    (.altFn 0 0x7F7E00 0x7F7E40 emptyResidue ⟨0x7F7D00, 0x7EE100⟩)).get (by decide +kernel)

/-- It is resumed at once. -/
def firstResumed : Machine :=
  (runFrom (step shellImage) firstWaits [.tick 0x7F7D80 0x7F7DC0]).get (by decide +kernel)

/-- A switch to the terminal of the interrupted process: the loop is left. -/
theorem waitOver_firstResumed : WaitOver firstWaits firstResumed := by
  have hresume : FirstResume shellImage firstInCall.tasks.sched.currentProcess firstWaits
      [.tick 0x7F7D80 0x7F7DC0] firstResumed :=
    ⟨(Option.some_get _).symm, ⟨_, _, rfl⟩, [], by decide, by decide⟩
  have hiff := waitOver_iff (Option.some_get _).symm (by decide) (by decide) hresume
  exact hiff.1.mpr (by decide)

end Machine

end Ece391Os
