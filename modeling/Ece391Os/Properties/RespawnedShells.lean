import Ece391Os.Properties.ResumePoints

/-!
# Shells that are started again

When the first shell of a terminal exits, the code at `HALTED` restores the stack pointer that was
recorded for it, which points into the frame of the `execute` that had started it, and issues the
system call `execute` from there. An interrupt in the kernel does not change stacks: the frame of
the new call lies below the old one. The stack pointer at which a shell is executed is that of the
first shell of its terminal exactly if none has exited yet (`stackNeutral_iff`), and each exit takes
at least the `bufBytes` of the array `buf` (`stackPos_add_le`).

`Shells` is history: it follows every thread of control through the places where a `Machine`
keeps it, with the line of shells from whose last exit the thread goes on.
-/

set_option autoImplicit false

namespace Ece391Os

open EventRun

/-- The frame of a call of `execute` on a stack with the given top: the stack pointer stands below
the local array, and the array below the top. -/
structure ExecuteFrame.Fits (frame : ExecuteFrame) (top : Nat) : Prop where
  below : frame.esp.toNat ≤ frame.buf.toNat
  inStack : frame.buf.toNat + bufBytes ≤ top

instance (frame : ExecuteFrame) (top : Nat) : Decidable (frame.Fits top) :=
  decidable_of_iff (frame.esp.toNat ≤ frame.buf.toNat ∧ frame.buf.toNat + bufBytes ≤ top)
    ⟨fun h => ⟨h.1, h.2⟩, fun h => ⟨h.below, h.inStack⟩⟩

namespace Machine

/-! ## Lines of shells -/

/-- A shell and those before it, each started after the exit of the one before: the stack pointers
at which the first and the last of them were executed, and the exits. -/
structure ShellLine where
  first : Nat
  last : Nat
  exits : Nat
  deriving DecidableEq, Repr

/-- A shell is executed at `esp`, after the exit of the last one of a line if there is one. -/
def ShellLine.extend : Option ShellLine → Word → ShellLine
  | none, esp => ⟨esp.toNat, esp.toNat, 0⟩
  | some l, esp => ⟨l.first, esp.toNat, l.exits + 1⟩

/-- The line of every process, and the line from whose last exit a thread goes on: of the thread on
the processor, of the threads behind the saved contexts and of those that a keyboard interrupt
took the processor from. -/
structure Shells where
  line : Pid → ShellLine
  exited : Option ShellLine
  slots : Terminal → Int → Option ShellLine
  interrupted : Pid → Option ShellLine

namespace Shells

/-- Before the first program is executed. -/
def boot : Shells := ⟨fun _ => ⟨0, 0, 0⟩, none, fun _ _ => none, fun _ => none⟩

/-- The thread of the new process `q` takes over, above the thread `below`. -/
def start (s : Shells) (q : Pid) (l : ShellLine) (below : Option ShellLine) : Shells :=
  { s with
    line := Function.update s.line q l
    exited := none
    interrupted := Function.update s.interrupted q below }

/-- A timer interrupt. -/
def tick (s : Shells) (m : Machine) (esp ebp : Word) : Shells :=
  let t := m.kernel.sched.currentProcess
  let saved := savedKernel m.kernel esp ebp
  let slots :=
    if m.kernel.sched.scheduleTop t ≠ 0 then
      setEntry s.slots t (m.kernel.sched.topIdx t) s.exited
    else s.slots
  { s with
    slots := slots
    exited :=
      match nextProcess saved with
      | none => s.exited
      | some next =>
          if restores saved next then slots next (saved.sched.topIdx next) else s.exited }

end Shells

/-- The history after a step of the machine. -/
def Shells.next (s : Shells) (m : Machine) (e : Event) (m' : Machine) : Shells :=
  let q := m'.kernel.procs.currentPid
  match e with
  | .halt _ => { s with exited := some (s.line m.kernel.procs.currentPid) }
  | .tick esp ebp => s.tick m esp ebp
  | .altFn _ _ _ _ frame =>
      if Starts m m' then s.start q (.extend none frame.esp) s.exited else s
  | .execute _ _ frame =>
      if Starts m m' then s.start q (.extend none frame.esp) none else s
  | .respawn _ frame =>
      -- the thread below the new shell is that below the process that halted
      let below := s.interrupted m.kernel.procs.pastPid
      if Starts m m' then s.start q (.extend s.exited frame.esp) below
      else { s with exited := below }
  | .openWindow | .closeWindow | .leaveSwitch => s

/-- A machine with its history. -/
structure Traced where
  machine : Machine
  shells : Shells

namespace Traced

def boot (espBoot : Word) : Traced := ⟨bootMachine espBoot, .boot⟩

def step (img : FsImage) (s : Traced) (e : Event) : Option Traced :=
  (Machine.step img s.machine e).map fun m' => ⟨m', s.shells.next s.machine e m'⟩

/-- The `execute` that starts the next shell of a line has its frame below the stack pointer that
the exit has restored. -/
def RespawnFits (s : Traced) (e : Event) (_ : Traced) : Prop :=
  match e with
  | .respawn _ frame => ∀ l ∈ s.shells.exited, frame.Fits l.last
  | _ => True

instance (s : Traced) (e : Event) (s' : Traced) : Decidable (RespawnFits s e s') :=
  match e with
  | .respawn _ frame =>
      inferInstanceAs (Decidable (∀ l ∈ s.shells.exited, frame.Fits l.last))
  | .openWindow => isTrue trivial
  | .closeWindow => isTrue trivial
  | .tick _ _ => isTrue trivial
  | .altFn _ _ _ _ _ => isTrue trivial
  | .leaveSwitch => isTrue trivial
  | .execute _ _ _ => isTrue trivial
  | .halt _ => isTrue trivial

/-- Process `p` was executed at the stack pointer of the first shell of its line. -/
def StackNeutral (s : Traced) (p : Pid) : Prop :=
  s.machine.kernel.stackPos p = (s.shells.line p).first

instance (s : Traced) (p : Pid) : Decidable (StackNeutral s p) :=
  inferInstanceAs (Decidable (_ = _))

end Traced

/-! ## Every exit takes a frame -/

/-- The last shell of the line lies a frame below the first one for every exit. -/
structure ShellLine.Descends (l : ShellLine) : Prop where
  frames : l.last + bufBytes * l.exits ≤ l.first
  first : l.exits = 0 → l.last = l.first

theorem ShellLine.Descends.extend_none (esp : Word) : (ShellLine.extend none esp).Descends :=
  ⟨le_rfl, fun _ => rfl⟩

/-- A frame below the last one. -/
theorem ShellLine.Descends.extend_some {l : ShellLine} {frame : ExecuteFrame} (h : l.Descends)
    (hfits : frame.Fits l.last) : (ShellLine.extend (some l) frame.esp).Descends := by
  constructor
  · have hframes := h.frames
    have hbelow := hfits.below
    have hstack := hfits.inStack
    show frame.esp.toNat + bufBytes * (l.exits + 1) ≤ l.first
    rw [Nat.mul_succ]
    omega
  · intro hexits
    cases hexits

/-- All lines descend, and the last stack pointer of the line of a process is the recorded one. -/
structure Descending (s : Traced) : Prop where
  recorded : ∀ p, (s.shells.line p).last = s.machine.kernel.stackPos p
  lines : ∀ p, (s.shells.line p).Descends
  exited : ∀ l, s.shells.exited = some l → l.Descends
  slots : ∀ t i l, s.shells.slots t i = some l → l.Descends
  interrupted : ∀ p l, s.shells.interrupted p = some l → l.Descends

namespace Descending

variable {img : FsImage} {s : Traced} {m' : Machine} {e : Event}

theorem boot (espBoot : Word) : Descending (.boot espBoot) where
  recorded := fun _ => rfl
  lines := fun _ => .extend_none 0
  exited := nofun
  slots := nofun
  interrupted := nofun

theorem stackPos_of_kept (hkept : RecordsKept s.machine.kernel m'.kernel) (p : Pid) :
    m'.kernel.stackPos p = s.machine.kernel.stackPos p :=
  congrArg (fun origin : Pid × Word => origin.2.toNat) (congrFun hkept.origin p)

theorem not_starts_of_kept (hkept : RecordsKept s.machine.kernel m'.kernel) :
    ¬ Starts s.machine m' :=
  fun h => h.1 (hkept.live _ h.2)

/-- Nobody new. -/
theorem of_kept (h : Descending s) (hkept : RecordsKept s.machine.kernel m'.kernel) :
    Descending ⟨m', s.shells⟩ where
  recorded := fun p => (h.recorded p).trans (stackPos_of_kept hkept p).symm
  lines := h.lines
  exited := h.exited
  slots := h.slots
  interrupted := h.interrupted

/-- Another thread, or the same one after another exit. -/
theorem with_exited (h : Descending s) {exited : Option ShellLine}
    (hexited : ∀ l, exited = some l → l.Descends) :
    Descending ⟨s.machine, { s.shells with exited := exited }⟩ where
  recorded := h.recorded
  lines := h.lines
  exited := hexited
  slots := h.slots
  interrupted := h.interrupted

theorem start (h : Descending s) {frame : ExecuteFrame} {parent : Pid} {l : ShellLine}
    {below : Option ShellLine}
    (hstarted : RecordStarted s.machine.kernel m'.kernel parent frame.esp)
    (hlast : l.last = frame.esp.toNat) (hl : l.Descends)
    (hbelow : ∀ l, below = some l → l.Descends) :
    Descending ⟨m', s.shells.start m'.kernel.procs.currentPid l below⟩ := by
  have hpos : ∀ p, m'.kernel.stackPos p = (Function.update s.machine.kernel.originOf
      m'.kernel.procs.currentPid (parent, frame.esp) p).2.toNat := fun p =>
    congrArg (fun origin : Pid × Word => origin.2.toNat) (congrFun hstarted.origin p)
  refine ⟨fun p => ?_, fun p => ?_, nofun, h.slots, fun p l₀ hp => ?_⟩
  · rw [hpos]
    simp only [Shells.start]
    rcases eq_or_ne p m'.kernel.procs.currentPid with rfl | hne
    · rw [Function.update_self, Function.update_self]
      exact hlast
    · rw [Function.update_of_ne hne, Function.update_of_ne hne]
      exact h.recorded p
  · simp only [Shells.start]
    rcases eq_or_ne p m'.kernel.procs.currentPid with rfl | hne
    · rw [Function.update_self]
      exact hl
    · rw [Function.update_of_ne hne]
      exact h.lines p
  · simp only [Shells.start] at hp
    rcases eq_or_ne p m'.kernel.procs.currentPid with rfl | hne
    · rw [Function.update_self] at hp
      exact hbelow l₀ hp
    · rw [Function.update_of_ne hne] at hp
      exact h.interrupted p l₀ hp

/-- The lines change places only. -/
theorem tick (h : Descending s) (esp ebp : Word)
    (hkept : RecordsKept s.machine.kernel m'.kernel) :
    Descending ⟨m', s.shells.tick s.machine esp ebp⟩ := by
  have hslots : ∀ t i l, (s.shells.tick s.machine esp ebp).slots t i = some l → l.Descends := by
    intro t i l hl
    simp only [Shells.tick] at hl
    split at hl
    · by_cases hslot : t = s.machine.kernel.sched.currentProcess ∧
          i = s.machine.kernel.sched.topIdx s.machine.kernel.sched.currentProcess
      · rw [hslot.1, hslot.2, setEntry_self] at hl
        exact h.exited l hl
      · rw [setEntry_of_ne _ _ (not_and_or.mp hslot)] at hl
        exact h.slots t i l hl
    · exact h.slots t i l hl
  refine ⟨(h.of_kept hkept).recorded, h.lines, fun l hl => ?_, hslots, h.interrupted⟩
  have hl' : (match nextProcess (savedKernel s.machine.kernel esp ebp) with
    | none => s.shells.exited
    | some next =>
        if restores (savedKernel s.machine.kernel esp ebp) next then
          (s.shells.tick s.machine esp ebp).slots next
            ((savedKernel s.machine.kernel esp ebp).sched.topIdx next)
        else s.shells.exited) = some l := hl
  split at hl'
  · exact h.exited l hl'
  · split at hl'
    · exact hslots _ _ l hl'
    · exact h.exited l hl'

/-- A new shell of a line. -/
theorem extend (h : Descending s) {res : Residue} {frame : ExecuteFrame}
    (hfits : s.RespawnFits (.respawn res frame) s) :
    (ShellLine.extend s.shells.exited frame.esp).Descends := by
  cases hexited : s.shells.exited with
  | none => exact .extend_none frame.esp
  | some l => exact (h.exited l hexited).extend_some (hfits l hexited)

theorem last_extend (exited : Option ShellLine) (esp : Word) :
    (ShellLine.extend exited esp).last = esp.toNat := by
  cases exited with
  | none => rfl
  | some l => rfl

/-- A step that starts no process. -/
theorem next_of_kept (h : Descending s) (hkept : RecordsKept s.machine.kernel m'.kernel) :
    Descending ⟨m', s.shells.next s.machine e m'⟩ := by
  have hnot := not_starts_of_kept hkept
  cases e with
  | openWindow => exact h.of_kept hkept
  | closeWindow => exact h.of_kept hkept
  | leaveSwitch => exact h.of_kept hkept
  | tick esp ebp => exact h.tick esp ebp hkept
  | halt status =>
      refine (h.of_kept hkept).with_exited fun l hl => ?_
      cases hl
      exact h.lines _
  | altFn num esp ebp res frame =>
      rw [Shells.next, if_neg hnot]
      exact h.of_kept hkept
  | execute command res frame =>
      rw [Shells.next, if_neg hnot]
      exact h.of_kept hkept
  | respawn res frame =>
      rw [Shells.next, if_neg hnot]
      exact (h.of_kept hkept).with_exited (h.interrupted _)

/-- A step that starts one. -/
theorem next_of_started (h : Descending s) {frame : ExecuteFrame} {parent : Pid}
    (hframe : callFrame e = some frame)
    (hstarted : RecordStarted s.machine.kernel m'.kernel parent frame.esp)
    (hfits : s.RespawnFits e s) : Descending ⟨m', s.shells.next s.machine e m'⟩ := by
  have hstarts : Starts s.machine m' := ⟨hstarted.fresh, (hstarted.live _).mpr (.inl rfl)⟩
  cases e with
  | openWindow => cases hframe
  | closeWindow => cases hframe
  | leaveSwitch => cases hframe
  | tick esp ebp => cases hframe
  | halt status => cases hframe
  | altFn num esp ebp res frame' =>
      cases hframe
      rw [Shells.next, if_pos hstarts]
      exact h.start hstarted rfl (.extend_none _) h.exited
  | execute command res frame' =>
      cases hframe
      rw [Shells.next, if_pos hstarts]
      exact h.start hstarted rfl (.extend_none _) nofun
  | respawn res frame' =>
      cases hframe
      rw [Shells.next, if_pos hstarts]
      exact h.start hstarted (last_extend _ _) (h.extend hfits) (h.interrupted _)

/-- The step lemma. -/
theorem step {s' : Traced} (h : Descending s) (hstep : s.step img e = some s')
    (hfits : s.RespawnFits e s') : Descending s' := by
  obtain ⟨m', hmachine, rfl⟩ := Option.map_eq_some_iff.mp hstep
  cases recordEffect_of_step hmachine with
  | kept hkept _ => exact h.next_of_kept hkept
  | started frame hframe hstarted _ _ => exact h.next_of_started hframe hstarted hfits

/-- The run lemma. -/
theorem run {espBoot : Word} {es : List Event}
    (hfits : AllSteps (Traced.step img) Traced.RespawnFits (.boot espBoot) es)
    (hrun : runFrom (Traced.step img) (.boot espBoot) es = some s) : Descending s :=
  invariant_of_allSteps (fun _ _ _ h hstep hfit => h.step hstep hfit) (boot espBoot) hfits hrun

end Descending

/-! ## Runs -/

section Runs

variable {img : FsImage} {espBoot : Word} {es : List Event} {s : Traced}

/-- However the run goes, a process was executed a frame below the first shell of its line for
every exit of one. -/
theorem stackPos_add_le
    (hfits : AllSteps (Traced.step img) Traced.RespawnFits (.boot espBoot) es)
    (hrun : runFrom (Traced.step img) (.boot espBoot) es = some s) (p : Pid) :
    s.machine.kernel.stackPos p + bufBytes * (s.shells.line p).exits ≤
      (s.shells.line p).first := by
  have h := Descending.run hfits hrun
  rw [← h.recorded p]
  exact (h.lines p).frames

/-- A shell is executed at the stack pointer of the first one of its line only if none of the line
has exited. -/
theorem stackNeutral_iff
    (hfits : AllSteps (Traced.step img) Traced.RespawnFits (.boot espBoot) es)
    (hrun : runFrom (Traced.step img) (.boot espBoot) es = some s) (p : Pid) :
    s.StackNeutral p ↔ (s.shells.line p).exits = 0 := by
  have hframes := stackPos_add_le hfits hrun p
  constructor
  · intro hneutral
    have hbytes : bufBytes = 40000 := rfl
    rw [Traced.StackNeutral] at hneutral
    rw [hneutral, hbytes] at hframes
    omega
  · intro hexits
    have h := Descending.run hfits hrun
    rw [Traced.StackNeutral, ← h.recorded p]
    exact (h.lines p).first hexits

end Runs

/-- The first shell exits twice. -/
def twoExits : List Event :=
  [.respawn emptyResidue ⟨0x7F6280, 0x7F6300⟩, .halt 0,
    .respawn emptyResidue ⟨0x7EC580, 0x7EC600⟩, .halt 0,
    .respawn emptyResidue ⟨0x7E2880, 0x7E2900⟩]

theorem respawnFits_twoExits :
    AllSteps (Traced.step shellImage) Traced.RespawnFits (.boot 0x7FFFC0) twoExits := by
  decide +kernel

/-- The machine with the third shell. -/
def thirdShell : Traced :=
  (runFrom (Traced.step shellImage) (.boot 0x7FFFC0) twoExits).get (by decide +kernel)

theorem run_twoExits :
    runFrom (Traced.step shellImage) (.boot 0x7FFFC0) twoExits = some thirdShell :=
  (Option.some_get _).symm

theorem stackNeutral_thirdShell :
    thirdShell.StackNeutral 1 ↔ (thirdShell.shells.line 1).exits = 0 :=
  stackNeutral_iff respawnFits_twoExits run_twoExits 1

/-- The third shell is executed two frames below the first one, where the kernel stacks of other
processes lie. -/
theorem not_stackNeutral_thirdShell :
    runFrom (Traced.step shellImage) (.boot 0x7FFFC0) twoExits = some thirdShell ∧
      AllSteps (Traced.step shellImage) Traced.RespawnFits (.boot 0x7FFFC0) twoExits ∧
      thirdShell.machine.kernel.Live 1 ∧
      thirdShell.machine.kernel.parent 1 = sentinelProcess ∧
      thirdShell.shells.line 1 = ⟨0x7F6280, 0x7E2880, 2⟩ ∧
      thirdShell.machine.kernel.stackPos 1 = 0x7E2880 ∧
      InStackSlot 3 (thirdShell.machine.kernel.stackPos 1) ∧ ¬ thirdShell.StackNeutral 1 := by
  refine ⟨run_twoExits, respawnFits_twoExits, ?_⟩
  decide +kernel

end Machine

end Ece391Os
