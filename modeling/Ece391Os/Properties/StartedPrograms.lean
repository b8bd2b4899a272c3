import Ece391Os.Properties.Counter
import Ece391Os.Properties.Grep

/-!
# Programs that `execute` has started

The rules about programs are about a process that has just been started and about any environment
that keeps its view. Both come from the runs of the machine: in every run from boot the process that
an `execute` starts is such a process, and it keeps its view however the others interleave with it.
-/

set_option autoImplicit false

namespace Ece391Os

open EventRun Interaction Program

/-! ## The process -/

section Started

variable {img : FsImage} {res : Residue} {frame : ExecuteFrame} {k k' : Kernel}

/-- The process that `execute` has started, before its first call. -/
def startedProcess (k : Kernel) : UserProcess := ⟨k, 0, 0, [], []⟩

/-- What it sees. -/
def startedView (k : Kernel) : View :=
  ⟨k.fdTableOf k.procs.currentPid, k.argsOf k.procs.currentPid, 0, [], []⟩

theorem fresh_of_started (h : Maintained k) {command : Option CString} {entry : Word}
    (hexec : execute img res frame k command = .started entry k') :
    Fresh k'.procs.currentPid (startedView k') (startedProcess k') := by
  have hmaintained : Maintained k' :=
    ⟨consoleSlots_started h.slots hexec, accounted_started h.accounted hexec⟩
  refine ⟨⟨⟨hmaintained, rfl, live_of_started hexec⟩, rfl, rfl, rfl, rfl, rfl⟩, fun i hi => ?_⟩
  obtain ⟨buf, k₁, -, hspawn, -⟩ := executeSpawn_of_started hexec
  have htable := executeSpawn_fdTableOf hspawn k'.procs.currentPid
  rw [if_pos rfl] at htable
  show (k'.fdTableOf k'.procs.currentPid i).Free
  rw [htable, reset_of_two_le _ hi]
  exact cleared_free _

/-- The run `before` from boot comes to the start of a program, which leaves the machine `m`. -/
structure ExitMachine.StartedBy (img : FsImage) (before : List ExitEvent) (m : ExitMachine) :
    Prop where
  run : ∃ reg espBoot res, AllSteps (ExitMachine.step img) (fun m e _ => EndsProgram m e)
      (bootExits reg espBoot) before ∧
    runFrom (ExitMachine.step img) (bootExits reg espBoot) (before ++ [.step (.spawn res)]) = some m

theorem maintained_boot (reg : ByteRegister) (espBoot : Word) :
    Maintained (bootExits reg espBoot).calls.kernel :=
  ⟨consoleSlots_boot espBoot, accounted_boot espBoot⟩

theorem ExitMachine.StartedBy.fresh {before : List ExitEvent} {m : ExitMachine}
    (h : m.StartedBy img before) :
    Fresh m.calls.running (startedView m.calls.kernel) (startedProcess m.calls.kernel) := by
  obtain ⟨reg, espBoot, res, hends, hrun⟩ := h
  rw [runFrom_append] at hrun
  obtain ⟨last, hbefore, hlast⟩ := Option.bind_eq_some_iff.mp hrun
  have hmaintained := maintained_of_allSteps (maintained_boot reg espBoot) hends hbefore
  rw [runFrom_cons] at hlast
  obtain ⟨m', hstep, hm'⟩ := Option.bind_eq_some_iff.mp hlast
  cases hm'
  obtain ⟨c, hc, hcalls⟩ := calls_of_step hstep
  rw [CallMachine.running, hcalls]
  cases CallMachine.effect_of_step hc with
  | spawn _ hexec =>
      have hcli : Maintained last.calls.kernel.cli :=
        ⟨hmaintained.slots.of_procs rfl, hmaintained.accounted.of_slots rfl⟩
      exact fresh_of_started hcli hexec

/-- Its keyboard is where it belongs. -/
theorem Fresh.onlyConsole {p : Pid} {v : View} {s : UserProcess} (h : Fresh p v s)
    (hstdin : (v.fds 0).fileOperationsPointer = some .stdin) (huse : ¬ (v.fds 0).Free) :
    OnlyConsole v.fds :=
  ⟨hstdin, huse, h.closed⟩

end Started

/-! ## A machine with the programs -/

/-- The names of the programs. -/
def catName : CString := [99, 97, 116]
def grepName : CString := [103, 114, 101, 112]
def counterName : CString := [99, 111, 117, 110, 116, 101, 114]

/-- A directory with itself, the clock, the programs and the one file `a`. -/
def homeImage : FsImage :=
  imageOf [⟨[46], typeDir, []⟩, ⟨rtcName, typeRtc, []⟩, ⟨shellName, typeFile, magicLead⟩,
    ⟨lsName, typeFile, magicLead⟩, ⟨catName, typeFile, magicLead⟩, ⟨grepName, typeFile, magicLead⟩,
    ⟨counterName, typeFile, magicLead⟩, ⟨[97], typeFile, [104, 101, 108, 108, 111]⟩]

theorem namedFrom_homeImage : namedFrom homeImage 0 = [0, 1, 2, 3, 4, 5, 6, 7] := by decide

theorem wellFormed_homeImage : homeImage.WellFormed := imageOf_wellFormed (by decide)

theorem listed_homeImage : homeImage.Listed where
  count := by rw [namedFrom_homeImage]; rfl
  below := by rw [namedFrom_homeImage]; decide

theorem short_homeImage : ∀ q ∈ [0, 1, 2, 3, 4, 5, 6, 7],
    (0 : UInt8) ∉ homeImage.content (homeImage.dirEntries q).inodeNum ∧
      (homeImage.content (homeImage.dirEntries q).inodeNum).length < bufsize := by
  decide

theorem loadable_of_none {img : FsImage} {command : CString}
    (h : readDentryByName img (commandWord command) = none) : Loadable img command := by
  intro dentry hfound
  rw [h] at hfound
  cases hfound

theorem loadable_ls : Loadable homeImage lsName := by
  have hentry : readDentryByName homeImage (commandWord lsName) =
      some (homeImage.dirEntries 3) := by rfl
  have hmapped : ∀ q, q < 5 → (fileByte homeImage (homeImage.nodeList 3) q).isSome := by decide
  intro dentry hfound
  obtain rfl := Option.some.inj (hentry.symm.trans hfound)
  exact Or.inr (Or.inr ⟨rfl, fun q _ hq => hmapped q (Nat.lt_succ_of_le hq)⟩)

/-- The first shell is about to be started, or has been started and is about to start a program. -/
def shellCalls : List ExitEvent :=
  [.step (.call (.execute (some shellName) ⟨0x7FFFB0, 0x7F6300⟩))]

def programCalls (command : CString) : List ExitEvent :=
  shellCalls ++ [.step (.spawn emptyResidue),
    .step (.call (.execute (some command) ⟨0x7F7F00, 0x7EE200⟩))]

/-- The machine at the start of the program. -/
def startOf (before : List ExitEvent) : Option ExitMachine :=
  runFrom (ExitMachine.step homeImage) (bootExits .al 0x7FFFC0)
    (before ++ [.step (.spawn emptyResidue)])

theorem startedBy_startOf {before : List ExitEvent}
    (hnone : ∀ e ∈ before, ExitMachine.halts e = false) (h : (startOf before).isSome) :
    ((startOf before).get h).StartedBy homeImage before where
  run := by
    refine ⟨.al, 0x7FFFC0, emptyResidue, ?_, (Option.some_get h).symm⟩
    apply allSteps_of_mem
    intro e he m m' hends
    rw [hnone e he] at hends
    cases hends

/-- An environment in which nothing happens between two calls, in which every program ends at once
with status `0`, and in which the lines are typed. -/
def quietEnvironment (lines : List (List UInt8)) : Environment where
  statusReg := .al
  res := fun _ => emptyResidue
  address := 0x8048000
  frame := ⟨0x7F7F00, 0x7EE200⟩
  between := fun _ k => k
  child := fun _ k => some (0, halted (halt k.cli))
  typed := fun n i => (lines.getD n [] ++ [10]).getD i 0

/-- A program ends whose parent waits in `execute`. -/
theorem exists_step_halt (img : FsImage) {m : ExitMachine} {status : UInt8} {p : Pid}
    (hphase : m.calls.phase m.calls.running = .handler (.halt status))
    (hparent : (halted (halt m.calls.kernel.cli)).procs.currentPid = p) (hp : p ≠ sentinelProcess)
    (hwaiting : m.calls.phase p = .waiting) :
    ∃ m' enabled, m.step img (.step .halt) = some m' ∧
      m'.calls.kernel = halted (halt m.calls.kernel.cli) ∧
        m'.calls.phase p = .returned (statusInAl m.calls.statusReg status).toNat enabled := by
  subst hparent
  have hcalls := @CallMachine.step.eq_def img m.calls .halt
  simp only [hphase, if_neg hp, hwaiting] at hcalls
  have hstep := congrArg (Option.map m.exited) hcalls
  obtain ⟨c, hc, hexited⟩ := ExitMachine.calls_of_step (m := m) (e := .halt) hstep
  obtain rfl := Option.some.inj (hcalls.symm.trans hc)
  exact ⟨_, _, hstep, by rw [hexited], by rw [hexited]; exact Function.update_self _ _ _⟩

section Quiet

variable {lines : List (List UInt8)} {p : Pid}

theorem quiet_interleaves (img : FsImage) (lines : List (List UInt8)) (p : Pid) :
    (quietEnvironment lines).Interleaves img p := by
  intro n k hk
  let m : ExitMachine :=
    { bootExits .al 0 with calls := { (bootExits .al 0).calls with kernel := k } }
  exact ⟨m, m, rfl, ⟨⟨[], trivial, trivial, rfl⟩, hk.current⟩, rfl⟩

theorem quiet_waits (img : FsImage) (lines : List (List UInt8)) (hp : p ≠ sentinelProcess) :
    (quietEnvironment lines).Waits img p := by
  intro n k hexec
  -- the program is in `halt`, and the call of its parent waits
  let phase : Pid → Phase := fun q => if q = p then .waiting else .handler (.halt 0)
  have hrunning : phase k.procs.currentPid = .handler (.halt 0) := if_neg hexec.ne_caller
  have hwaiting : phase p = .waiting := if_pos rfl
  let m : ExitMachine :=
    { bootExits .al 0 with calls := { (bootExits .al 0).calls with kernel := k, phase := phase } }
  have hparent : (halted (halt k.cli)).procs.currentPid = p := hexec.parent
  obtain ⟨m', enabled, hstep, hkernel, hreturned⟩ :=
    exists_step_halt img (m := m) hrunning hparent hp hwaiting
  refine ⟨0, m, m', enabled, ?_, rfl, rfl, hwaiting, ⟨⟨[.step .halt], ?_, ?_, ?_⟩, ?_⟩, hreturned⟩
  · rw [hkernel]
    rfl
  · exact fun _ _ => ⟨fun _ => hexec.ne_caller, trivial⟩
  · exact fun _ _ => ⟨fun _ => ⟨hexec.ne_sentinel, hexec.live⟩, trivial⟩
  · rw [runFrom_cons, hstep]
    rfl
  · rw [CallMachine.running, hkernel]
    exact hparent

theorem types_quiet
    (h : ∀ t ∈ lines, t.length < maxBufferSize ∧ (0 : UInt8) ∉ t ∧ (10 : UInt8) ∉ t) :
    (quietEnvironment lines).Types 0 lines := by
  intro i t ht
  have hrow : (quietEnvironment lines).typed (0 + i) = fun j => (t ++ [10]).getD j 0 := by
    funext j
    simp only [quietEnvironment, Nat.zero_add, List.getD_eq_getElem?_getD, ht, Option.getD_some]
  obtain ⟨hlen, hnul, hnewline⟩ := h t (List.mem_of_getElem? ht)
  rw [hrow]
  exact
    { inside := hlen
      chars := fun j hj => List.getD_append _ _ _ _ hj
      newline := by
        show (t ++ [10]).getD t.length 0 = 10
        rw [List.getD_append_right _ _ _ _ (Nat.le_refl _), Nat.sub_self]
        rfl
      no_nul := hnul
      no_newline := hnewline }

end Quiet

/-- Related lists of which the second is determined by the first. -/
theorem eq_map_of_forall₂ {α β : Type} {R : α → β → Prop} {f : α → β} {l : List α} {m : List β}
    (h : List.Forall₂ R l m) (hf : ∀ a ∈ l, ∀ b, R a b → b = f a) : m = l.map f := by
  induction h with
  | nil => rfl
  | cons hR _ ih =>
      rw [List.map_cons, hf _ List.mem_cons_self _ hR,
        ih fun a ha => hf a (List.mem_cons_of_mem _ ha)]

/-- An empty line, a command that is not in the directory, and a program. -/
def typedLines : List (List UInt8) := [[], [120], lsName]

theorem loadable_typedLines : ∀ t ∈ typedLines, Loadable homeImage t := by
  intro t ht
  simp only [typedLines, List.mem_cons, List.not_mem_nil, or_false] at ht
  rcases ht with rfl | rfl | rfl
  · exact loadable_of_none rfl
  · exact loadable_of_none rfl
  · exact loadable_ls

/-! ## The programs -/

section Programs

variable {img : FsImage} {env : Environment} {before : List ExitEvent} {m : ExitMachine}

/-- The shell has started `cat a`. -/
def catStart : ExitMachine :=
  (startOf (programCalls [99, 97, 116, 32, 97])).get (by decide +kernel)

/-- The shell has started `ls`. -/
def lsStart : ExitMachine := (startOf (programCalls lsName)).get (by decide +kernel)

/-- The shell has started `grep ell`. -/
def grepStart : ExitMachine :=
  (startOf (programCalls (grepName ++ [32, 101, 108, 108]))).get (by decide +kernel)

/-- The shell has been started. -/
def shellStart : ExitMachine := (startOf shellCalls).get (by decide +kernel)

/-- The shell has started `counter`. -/
def counterStart : ExitMachine := (startOf (programCalls counterName)).get (by decide +kernel)

end Programs

end Ece391Os
