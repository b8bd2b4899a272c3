import Ece391Os.Model.Console
import Ece391Os.Properties.CallFrames
import Ece391Os.Properties.Executables
import Ece391Os.Properties.KeyCases

/-!
# Where text goes

`video_mem` and the page-table entry of `VIDMAP` are set by the timer, by `execute` and by the
keyboard interrupt. `Kernel.routing` is what these look at and what they set; text output and
the other system calls leave it alone.
-/

set_option autoImplicit false

namespace Ece391Os

open EventRun

/-! ## Routing -/

/-- What decides where text goes, and the toggle of the timer. -/
structure Routing where
  currentProcess : Terminal
  currentTerminal : Terminal
  scheduleTick : Bool
  videoMem : VideoPtr
  vidEntry : FrameRef

namespace Kernel

/-- The part of the kernel that decides where text goes. -/
def routing (k : Kernel) : Routing where
  currentProcess := k.sched.currentProcess
  currentTerminal := k.terms.currentTerminal
  scheduleTick := k.sched.scheduleTick
  videoMem := k.video.videoMem
  vidEntry := k.video.vidEntry

/-- The page of the running terminal: the screen if it is displayed, else its backing page. -/
def rightPage (k : Kernel) : FrameRef :=
  if k.sched.currentProcess = k.terms.currentTerminal then .screen
  else .backing k.sched.currentProcess

/-- The page-table entry leads to the page of the running terminal. -/
def Mapped (k : Kernel) : Prop := k.video.vidEntry = k.rightPage

/-- Both the entry and `video_mem` lead to the page of the running terminal. -/
def Routed (k : Kernel) : Prop := k.video.target = k.rightPage ∧ k.video.vidEntry = k.rightPage

/-- A saved value of `video_mem` that leads to the page of the running terminal when the entry
does. -/
def Leads (k : Kernel) : VideoPtr → Prop
  | .video => k.sched.currentProcess = k.terms.currentTerminal
  | .vidmap => True
  | .backing t =>
      t = k.sched.currentProcess ∧ k.sched.currentProcess ≠ k.terms.currentTerminal

instance (k : Kernel) (ptr : VideoPtr) : Decidable (k.Leads ptr) := by
  cases ptr <;> unfold Leads <;> infer_instance

end Kernel

section Frames

variable {img : FsImage} {res : Residue} {frame : ExecuteFrame} {k k' : Kernel}

theorem Kernel.Mapped.of_routing (h : k.Mapped) {ptr : VideoPtr} {tick : Bool}
    (hk' : k'.routing = { k.routing with videoMem := ptr, scheduleTick := tick }) :
    k'.Mapped := by
  have hprocess : k'.sched.currentProcess = k.sched.currentProcess :=
    congrArg Routing.currentProcess hk'
  have hterminal : k'.terms.currentTerminal = k.terms.currentTerminal :=
    congrArg Routing.currentTerminal hk'
  have hentry : k'.video.vidEntry = k.video.vidEntry := congrArg Routing.vidEntry hk'
  rw [Kernel.Mapped, Kernel.rightPage, hprocess, hterminal, hentry]
  exact h

theorem Kernel.Routed.of_routing (h : k.Routed) {tick : Bool}
    (hk' : k'.routing = { k.routing with scheduleTick := tick }) : k'.Routed := by
  have hmapped : k'.Mapped := Kernel.Mapped.of_routing h.2 hk'
  have hpage : k'.rightPage = k.rightPage := by
    have hentry : k'.video.vidEntry = k.video.vidEntry := congrArg Routing.vidEntry hk'
    rw [← hmapped, hentry]
    exact h.2
  refine ⟨?_, hmapped⟩
  have hpointer : k'.video.videoMem = k.video.videoMem := congrArg Routing.videoMem hk'
  have hentry : k'.video.vidEntry = k.video.vidEntry := congrArg Routing.vidEntry hk'
  rw [hpage, Video.target, hpointer, hentry]
  exact h.1

/-- A pointer that leads to the page of the running terminal, behind a right entry. -/
theorem Kernel.Mapped.routed (h : k.Mapped) (hleads : k.Leads k.video.videoMem) : k.Routed := by
  refine ⟨?_, h⟩
  unfold Video.target Kernel.rightPage
  cases hptr : k.video.videoMem with
  | video =>
      rw [hptr] at hleads
      exact (if_pos hleads).symm
  | vidmap => exact h
  | backing t =>
      rw [hptr] at hleads
      obtain ⟨rfl, hne⟩ := hleads
      exact (if_neg hne).symm

/-! ## What keys and calls leave alone -/

theorem keyStable_routing : KeyStable Kernel.routing where
  kbd := fun _ _ => rfl
  output := fun k video h => by
    simp only [Kernel.routing, h.videoMem, h.vidEntry]
  interrupts := fun _ _ => rfl

theorem callFrame_routing : CallFrame Kernel.routing where
  fds := fun _ _ _ => rfl
  interrupts := fun _ _ => rfl
  rtc := fun _ _ => rfl
  output := keyStable_routing.output
  reader := fun _ _ _ => rfl

/-- A typed key up to the end of `terminal_write`. -/
theorem KeyStable.beginKey {α : Type} {f : Kernel → α} (h : KeyStable f) {key : Nat}
    {rest : List KeyStatement} (hrun : beginKey k key = some (k', rest)) : f k' = f k := by
  simp only [Ece391Os.beginKey] at hrun
  split at hrun
  · split at hrun
    · cases hrun
      rfl
    · obtain ⟨row, text, moves, hr⟩ := startBackspace_eq_some hrun
      obtain ⟨rfl, -⟩ := Prod.mk.inj hr
      refine (h.terminalWrite _ text).trans ?_
      exact (h.output _ _ (Video.Output.backspace _)).trans (h.kbd k _)
  · split at hrun
    · cases hrun
      rfl
    · obtain ⟨row, text, moves, hr⟩ := startInsert_eq_some hrun
      obtain ⟨rfl, -⟩ := Prod.mk.inj hr
      exact (h.terminalWrite _ text).trans (h.kbd k _)

/-- Up to where a key can be interrupted. -/
theorem KeyStable.startKey {α : Type} {f : Kernel → α} (h : KeyStable f)
    (hreader : ∀ (k : Kernel) (switch : Terminal → Switch) (rows : Terminal → Row),
      f { k with terms := { k.terms with returnSwitch := switch, readBuffer := rows } } = f k)
    {key : Nat} {rest : List KeyStatement} (hrun : startKey k key = some (.running k' rest)) :
    f k' = f k := by
  simp only [Ece391Os.startKey] at hrun
  split at hrun
  · obtain ⟨r, hbegin, hr⟩ := Option.map_eq_some_iff.mp hrun
    obtain ⟨rfl, rfl⟩ := KeyStart.running.inj hr
    exact h.beginKey hbegin
  · obtain ⟨o, hhandle, ho⟩ := Option.map_eq_some_iff.mp hrun
    cases o with
    | done k₁ =>
        obtain ⟨rfl, -⟩ := KeyStart.running.inj ho
        exact h.handles hreader (handles_of_handleKeyboardInput hhandle)
    | switch num k₁ => cases ho

/-- A key that switches terminals does nothing else. -/
theorem startKey_switch {key : Nat} {num : Terminal}
    (hrun : startKey k key = some (.switch num k')) : k' = k := by
  simp only [startKey] at hrun
  split at hrun
  · obtain ⟨r, -, hr⟩ := Option.map_eq_some_iff.mp hrun
    cases hr
  · obtain ⟨o, hhandle, ho⟩ := Option.map_eq_some_iff.mp hrun
    cases handles_of_handleKeyboardInput hhandle with
    | switch num' =>
        obtain ⟨-, rfl⟩ := KeyStart.switch.inj ho
        rfl
    | _ => cases ho

/-- A statement behind `terminal_write` moves at most the pointer. -/
theorem routing_exec (k : Kernel) (st : KeyStatement) :
    ∃ ptr, (st.exec k).routing = { k.routing with videoMem := ptr } := by
  cases st with
  | leave past flag => exact ⟨past, rfl⟩
  | _ => exact ⟨k.video.videoMem, rfl⟩

/-! ## `execute`, `halt` and the timer -/

/-- A call of `execute` that returns. -/
theorem routing_execute_returned {command : Option CString} {v : Int}
    (h : execute img res frame k command = .returned v k') : k'.routing = k.routing :=
  callFrame_routing.executeLoad.1 v (executeLoad_of_returned h)

theorem routing_executeSpawn {command : CString} {buf : Nat → UInt8}
    (h : executeSpawn frame k command buf = some k') :
    k'.routing = { k.routing with videoMem := .vidmap, vidEntry := .screen } := by
  obtain ⟨q, hs⟩ := spawns_of_executeSpawn h
  obtain ⟨shellPid, hterms⟩ := hs.terms
  simp only [Kernel.routing, hs.sched, hterms, hs.video]

/-- A call of `execute` that starts a program. -/
theorem routing_execute_started {command : Option CString} {entry : Word}
    (h : execute img res frame k command = .started entry k') :
    k'.routing = { k.routing with videoMem := .vidmap, vidEntry := .screen } := by
  obtain ⟨buf, k₁, hload, hspawn, -⟩ := executeSpawn_of_started h
  rw [routing_executeSpawn hspawn, callFrame_routing.executeLoad.2 buf hload]

theorem routing_halt (k : Kernel) : (halted (halt k)).routing = k.routing := by
  -- the parent's page and stack are values of fields that do not matter here
  have hrest : ∀ (k₁ : Kernel) (tss : Tss) (page : Nat),
      Kernel.routing { k₁.cli with
        sched := { k₁.sched with tss := tss }
        video := { k₁.video with programPage := page } } = k₁.routing := fun _ _ _ => rfl
  have hhalt : (halt k).routing = k.routing := hrest _ _ _
  exact hhalt

theorem routing_savedKernel (k : Kernel) (esp ebp : Word) :
    (Machine.savedKernel k esp ebp).routing = k.routing := by
  obtain ⟨tss, esps, ebps, hsave⟩ := Machine.savedKernel_frame k esp ebp
  rw [hsave]
  rfl

/-- A restore sets pointer and entry. -/
theorem routed_continueWith {t : Terminal} (h : restores k t = true) :
    (continueWith k t).Routed := by
  rw [continueWith_of_restores h]
  by_cases ht : t = k.terms.currentTerminal
  · simp [Kernel.Routed, Kernel.rightPage, Video.target, restoreContext, ht]
  · simp [Kernel.Routed, Kernel.rightPage, Video.target, restoreContext, ht]

/-- Without a restore only the terminal and the toggle change. -/
theorem routing_continueWith {t : Terminal} (h : restores k t = false) :
    (continueWith k t).routing = { k.routing with
      currentProcess := t, scheduleTick := !k.sched.scheduleTick } := by
  rw [continueWith_of_not_restores h]
  rfl

/-- A switch to a running terminal waits, with the entry as it was. -/
theorem routing_terminalSwitch_waiting {num : Terminal} {ticked : Bool}
    (h : terminalSwitch img res frame k num = .waiting ticked k') :
    ticked = k.sched.scheduleTick ∧ k'.routing = { k.routing with currentTerminal := num } := by
  obtain ⟨-, -, rfl, rfl⟩ := terminalSwitch_waiting h
  exact ⟨rfl, rfl⟩

/-- A switch to another terminal executes a shell in it. -/
theorem routing_terminalSwitch_executed {num : Terminal} {r : ExecuteResult}
    (h : terminalSwitch img res frame k num = .executed r) :
    ∃ k₀, k₀.routing = { k.routing with currentProcess := num, currentTerminal := num } ∧
      r = execute img res frame k₀ (some shellName) := by
  obtain ⟨-, -, rfl⟩ := terminalSwitch_executed h
  refine ⟨k.entering num, ?_, rfl⟩
  have hclear := Video.Output.terminalClear (swapPages k.video k.terms.currentTerminal num)
  simp only [Kernel.routing, Kernel.entering]
  congr 1
  · exact hclear.videoMem
  · exact hclear.vidEntry

end Frames

/-! ## Threads and routing -/

/-- The frame waits for the tick that follows the value `tick` of the toggle. -/
def KeyFrame.WaitsFor (tick : Bool) : KeyFrame → Prop
  | .waiting ticked _ => ticked = tick
  | .typing _ _ _ => False

instance (tick : Bool) (f : KeyFrame) : Decidable (f.WaitsFor tick) := by
  cases f <;> unfold KeyFrame.WaitsFor <;> infer_instance

/-- A thread and the routing that it finds. Outside of keyboard interrupts, the text of a process
goes to the page of the running terminal; inside, a switch may still wait for the timer to set the
entry. -/
structure RoutesTo (k : Kernel) (thread : Thread) : Prop where
  routed : thread.owner ≠ sentinelProcess → thread.frames = [] → k.Routed
  mapped : k.Mapped ∨ ∃ f ∈ thread.frames, f.WaitsFor k.sched.scheduleTick

/-- A keyboard interrupt that leaves `past` in `video_mem` can return to the thread. -/
def ReturnsTo (k : Kernel) (thread : Thread) (past : VideoPtr) : Prop :=
  thread.owner ≠ sentinelProcess → thread.frames = [] → k.Leads past

instance (k : Kernel) (thread : Thread) (past : VideoPtr) :
    Decidable (ReturnsTo k thread past) :=
  inferInstanceAs (Decidable (_ → _ → _))

section Threads

variable {k k' : Kernel} {thread : Thread}

/-- Outside of keyboard interrupts the entry is right. -/
theorem RoutesTo.mapped_of_nil (h : RoutesTo k thread) (hnil : thread.frames = []) :
    k.Mapped := by
  rcases h.mapped with hmapped | ⟨f, hf, -⟩
  · exact hmapped
  · rw [hnil] at hf
    cases hf

/-- Calls and text output change neither routing nor frames. -/
theorem RoutesTo.of_routing (h : RoutesTo k thread) (hk' : k'.routing = k.routing)
    {thread' : Thread} (howner : thread'.owner = thread.owner)
    (hframes : thread'.frames = thread.frames) : RoutesTo k' thread' := by
  constructor
  · intro hprocess hnil
    rw [howner] at hprocess
    rw [hframes] at hnil
    exact (h.routed hprocess hnil).of_routing hk'
  · have htick : k'.sched.scheduleTick = k.sched.scheduleTick :=
      congrArg Routing.scheduleTick hk'
    rw [hframes, htick]
    exact h.mapped.imp_left fun hmapped => hmapped.of_routing hk'

/-- A keyboard interrupt sets the pointer, and its thread is inside of it. -/
theorem RoutesTo.push (h : RoutesTo k thread) {ptr : VideoPtr}
    (hk' : k'.routing = { k.routing with videoMem := ptr }) (f : KeyFrame) :
    RoutesTo k' { thread with frames := f :: thread.frames } := by
  constructor
  · intro _ hnil
    cases hnil
  · have htick : k'.sched.scheduleTick = k.sched.scheduleTick :=
      congrArg Routing.scheduleTick hk'
    rw [htick]
    rcases h.mapped with hmapped | ⟨g, hg, hwaits⟩
    · exact Or.inl (hmapped.of_routing hk')
    · exact Or.inr ⟨g, List.mem_cons_of_mem _ hg, hwaits⟩

/-- A keyboard interrupt returns. -/
theorem routesTo_return {past : VideoPtr} {flag : Bool}
    (hmapped : k.Mapped ∨ ∃ f ∈ thread.frames, f.WaitsFor k.sched.scheduleTick)
    (hreturns : ReturnsTo k thread past) :
    RoutesTo { k with video := { k.video with videoMem := past }, interrupts := flag }
      thread := by
  constructor
  · intro hprocess hnil
    have hentry : k.Mapped := by
      rcases hmapped with hentry | ⟨f, hf, -⟩
      · exact hentry
      · rw [hnil] at hf
        cases hf
    apply Kernel.Mapped.routed
    · exact hentry
    · exact hreturns hprocess hnil
  · exact hmapped

/-- A program starts while its terminal is displayed. -/
theorem routesTo_start {r : Routing} (hdisplayed : r.currentProcess = r.currentTerminal)
    (hk' : k'.routing = { r with videoMem := .vidmap, vidEntry := .screen }) (thread : Thread) :
    RoutesTo k' thread := by
  have hprocess : k'.sched.currentProcess = r.currentProcess :=
    congrArg Routing.currentProcess hk'
  have hterminal : k'.terms.currentTerminal = r.currentTerminal :=
    congrArg Routing.currentTerminal hk'
  have hentry : k'.video.vidEntry = .screen := congrArg Routing.vidEntry hk'
  have hpointer : k'.video.videoMem = .vidmap := congrArg Routing.videoMem hk'
  have hmapped : k'.Mapped := by
    rw [Kernel.Mapped, Kernel.rightPage, hprocess, hterminal, if_pos hdisplayed]
    exact hentry
  have hrouted : k'.Routed := by
    apply hmapped.routed
    rw [hpointer]
    trivial
  exact ⟨fun _ _ => hrouted, Or.inl hmapped⟩

end Threads

namespace Console

/-! ## The steps that keep the routing -/

/-- A step that keeps the routing: a tick restores a context, or it stays in the terminal and no
switch waits for it; a program starts while the running terminal is displayed; and a keyboard
interrupt, or a shell that could not be started from one, returns with a pointer that is still
right. -/
def KeepsRouting (img : FsImage) (c : Console) (e : ConsoleEvent) (_ : Console) : Prop :=
  let k := c.kernel
  let displayed := k.sched.currentProcess = k.terms.currentTerminal
  match e with
  | .tick esp ebp =>
      let saved := Machine.savedKernel k esp ebp
      match nextProcess saved with
      | none => True
      | some t =>
          restores saved t = true ∨
            t = k.sched.currentProcess ∧
              ∀ f ∈ c.cpu.frames, ¬ f.WaitsFor k.sched.scheduleTick
  | .key code res frame =>
      match startKey (Machine.keyboardKernel k) code.toNat with
      | some (.switch num k₁) =>
          match terminalSwitch img res frame k₁ num with
          | .executed (.returned _ _) => displayed
          | _ => True
      | _ => True
  | .advance =>
      match c.cpu.frames with
      | .typing [] past _ :: frames => ReturnsTo k { c.cpu with frames := frames } past
      | _ => True
  | .leaveSwitch =>
      match c.cpu.frames with
      | .waiting _ past :: frames => ReturnsTo k { c.cpu with frames := frames } past
      | _ => True
  | .execute command res frame =>
      match Ece391Os.execute img res frame k.cli command with
      | .started _ _ => displayed
      | _ => True
  | .respawn res frame =>
      match Ece391Os.execute img res frame k.cli (some shellName) with
      | .started _ _ => displayed
      | .returned _ _ =>
          match c.interrupted k.procs.pastPid with
          | none => True
          | some (thread, past) => ReturnsTo k thread past
      | .stuck => True
  | _ => True

instance (img : FsImage) (c : Console) (e : ConsoleEvent) (c' : Console) :
    Decidable (KeepsRouting img c e c') := by
  unfold KeepsRouting
  cases e <;> dsimp only <;> (repeat' split) <;> infer_instance

section Steps

variable {img : FsImage} {c c' : Console} {res : Residue} {frame : ExecuteFrame}

/-- The kernel as `handle_keyboard` hands it on. -/
theorem routing_keyboardKernel (k : Kernel) :
    (Machine.keyboardKernel k).routing = { k.routing with videoMem := .video } := rfl

theorem routesTo_tick {esp ebp : Word} (h : RoutesTo c.kernel c.cpu)
    (hkeeps : KeepsRouting img c (.tick esp ebp) c') (hstep : c.tick esp ebp = some c') :
    RoutesTo c'.kernel c'.cpu := by
  simp only [tick] at hstep
  obtain ⟨t, hnext, rfl⟩ := Option.map_eq_some_iff.mp hstep
  unfold KeepsRouting at hkeeps
  simp only [hnext] at hkeeps
  cases hrestores : restores (Machine.savedKernel c.kernel esp ebp) t with
  | true =>
      have hrouted := routed_continueWith hrestores
      exact ⟨fun _ _ => hrouted, Or.inl hrouted.2⟩
  | false =>
      rw [hrestores] at hkeeps
      rcases hkeeps with hkeeps | ⟨rfl, hwaits⟩
      · cases hkeeps
      have hrouting := routing_continueWith hrestores
      rw [routing_savedKernel] at hrouting
      -- without a waiting switch the entry is right already
      have hmapped : c.kernel.Mapped := by
        rcases h.mapped with hmapped | ⟨f, hf, hwait⟩
        · exact hmapped
        · exact absurd hwait (hwaits f hf)
      constructor
      · intro hprocess hnil
        exact (h.routed hprocess hnil).of_routing hrouting
      · exact Or.inl (hmapped.of_routing hrouting)

/-- An Alt-Fn key. -/
theorem routesTo_switchTerminal {num : Terminal} (h : RoutesTo c.kernel c.cpu)
    (hfails : ∀ v k, terminalSwitch img res frame (Machine.keyboardKernel c.kernel) num =
      .executed (.returned v k) → c.kernel.sched.currentProcess = c.kernel.terms.currentTerminal)
    (hstep : c.switchTerminal img num (Machine.keyboardKernel c.kernel) res frame = some c') :
    RoutesTo c'.kernel c'.cpu := by
  simp only [switchTerminal] at hstep
  split at hstep
  next hswitch =>
    obtain rfl := Option.some.inj hstep
    apply h.of_routing
    · rfl
    · rfl
    · rfl
  next ticked k hswitch =>
    obtain rfl := Option.some.inj hstep
    obtain ⟨rfl, hk⟩ := routing_terminalSwitch_waiting hswitch
    have htick : k.sched.scheduleTick = c.kernel.sched.scheduleTick :=
      congrArg Routing.scheduleTick hk
    constructor
    · intro _ hnil
      cases hnil
    · exact Or.inr ⟨_, List.mem_cons_self, htick.symm⟩
  next v k hswitch =>
    obtain rfl := Option.some.inj hstep
    have hdisplayed := hfails v k hswitch
    obtain ⟨k₀, hk₀, hexec⟩ := routing_terminalSwitch_executed hswitch
    have hk := (routing_execute_returned hexec.symm).trans hk₀
    have hprocess : k.sched.currentProcess = num := congrArg Routing.currentProcess hk
    have hterminal : k.terms.currentTerminal = num := congrArg Routing.currentTerminal hk
    have htick : k.sched.scheduleTick = c.kernel.sched.scheduleTick :=
      congrArg Routing.scheduleTick hk
    have hentry : k.video.vidEntry = c.kernel.video.vidEntry := congrArg Routing.vidEntry hk
    -- both terminals are on display when they run, so the entry stays right
    have hright : c.kernel.Mapped → k.Mapped := by
      intro hmapped
      rw [Kernel.Mapped, Kernel.rightPage, if_pos hdisplayed] at hmapped
      rw [Kernel.Mapped, Kernel.rightPage, hprocess, hterminal, if_pos rfl, hentry]
      exact hmapped
    apply routesTo_return
    · rw [htick]
      exact h.mapped.imp_left hright
    · intro hprocess' hnil
      have hrouted := h.routed hprocess' hnil
      cases hptr : c.kernel.video.videoMem with
      | video => exact hprocess.trans hterminal.symm
      | vidmap => trivial
      | backing t =>
          have htarget := hrouted.1
          rw [Video.target, hptr, Kernel.rightPage, if_pos hdisplayed] at htarget
          cases htarget
  · cases hstep
  next entry k hswitch =>
    obtain rfl := Option.some.inj hstep
    obtain ⟨k₀, hk₀, hexec⟩ := routing_terminalSwitch_executed hswitch
    have hk := routing_execute_started hexec.symm
    rw [hk₀] at hk
    exact routesTo_start rfl hk _

theorem routesTo_key {code : UInt8} (h : RoutesTo c.kernel c.cpu)
    (hkeeps : KeepsRouting img c (.key code res frame) c')
    (hstep : c.key img code res frame = some c') : RoutesTo c'.kernel c'.cpu := by
  simp only [key] at hstep
  unfold KeepsRouting at hkeeps
  dsimp only at hkeeps
  split at hstep
  · cases hstep
  next k rest hstart =>
    obtain rfl := Option.some.inj hstep
    have hk := keyStable_routing.startKey (fun _ _ _ => rfl) hstart
    rw [routing_keyboardKernel] at hk
    exact h.push hk _
  next num k hstart =>
    obtain rfl := startKey_switch hstart
    rw [hstart] at hkeeps
    apply routesTo_switchTerminal h ?_ hstep
    intro v k hswitch
    simp only [hswitch] at hkeeps
    exact hkeeps

theorem routesTo_advance (h : RoutesTo c.kernel c.cpu) (hkeeps : KeepsRouting img c .advance c')
    (hstep : c.advance = some c') : RoutesTo c'.kernel c'.cpu := by
  simp only [advance] at hstep
  split at hstep
  next st rest past flag frames hframes =>
    obtain rfl := Option.some.inj hstep
    obtain ⟨ptr, hk⟩ := routing_exec c.kernel st
    have htick : (st.exec c.kernel).sched.scheduleTick = c.kernel.sched.scheduleTick :=
      congrArg Routing.scheduleTick hk
    constructor
    · intro _ hnil
      cases hnil
    · rcases h.mapped with hmapped | ⟨f, hf, hwaits⟩
      · exact Or.inl (hmapped.of_routing hk)
      · rw [hframes] at hf
        rcases List.mem_cons.mp hf with rfl | hf
        · -- the frame that was advanced is that of a key, which waits for no switch
          cases hwaits
        · rw [htick]
          exact Or.inr ⟨f, List.mem_cons_of_mem _ hf, hwaits⟩
  next past flag frames hframes =>
    obtain rfl := Option.some.inj hstep
    unfold KeepsRouting at hkeeps
    simp only [hframes] at hkeeps
    apply routesTo_return ?_ hkeeps
    rcases h.mapped with hmapped | ⟨f, hf, hwaits⟩
    · exact Or.inl hmapped
    · rw [hframes] at hf
      rcases List.mem_cons.mp hf with rfl | hf
      · cases hwaits
      · exact Or.inr ⟨f, hf, hwaits⟩
  · cases hstep

theorem routesTo_leaveSwitch (h : RoutesTo c.kernel c.cpu)
    (hkeeps : KeepsRouting img c .leaveSwitch c') (hstep : c.leaveSwitch = some c') :
    RoutesTo c'.kernel c'.cpu := by
  simp only [leaveSwitch] at hstep
  split at hstep
  next ticked past frames hframes =>
    split at hstep
    next hticked =>
      obtain rfl := Option.some.inj hstep
      unfold KeepsRouting at hkeeps
      simp only [hframes] at hkeeps
      apply routesTo_return ?_ hkeeps
      -- the loop that is left does not wait for a tick any more
      rcases h.mapped with hmapped | ⟨f, hf, hwaits⟩
      · exact Or.inl hmapped
      · rw [hframes] at hf
        rcases List.mem_cons.mp hf with rfl | hf
        · exact absurd hwaits hticked
        · exact Or.inr ⟨f, hf, hwaits⟩
    · cases hstep
  · cases hstep

theorem routesTo_execute {command : Option CString} (h : RoutesTo c.kernel c.cpu)
    (hkeeps : KeepsRouting img c (.execute command res frame) c')
    (hstep : c.execute img command res frame = some c') : RoutesTo c'.kernel c'.cpu := by
  simp only [execute] at hstep
  unfold KeepsRouting at hkeeps
  dsimp only at hkeeps
  split at hstep
  next v k hexec =>
    obtain rfl := Option.some.inj hstep
    apply h.of_routing
    · exact (routing_execute_returned hexec).trans rfl
    · rfl
    · rfl
  · cases hstep
  next entry k hexec =>
    obtain rfl := Option.some.inj hstep
    rw [hexec] at hkeeps
    exact routesTo_start hkeeps (routing_execute_started hexec) _

theorem routesTo_respawn (h : RoutesTo c.kernel c.cpu) (hnil : c.cpu.frames = [])
    (hkeeps : KeepsRouting img c (.respawn res frame) c')
    (hstep : c.respawn img res frame = some c') : RoutesTo c'.kernel c'.cpu := by
  simp only [respawn] at hstep
  unfold KeepsRouting at hkeeps
  dsimp only at hkeeps
  split at hstep
  next v k hexec =>
    have hk := routing_execute_returned hexec
    rw [hexec] at hkeeps
    split at hstep
    next hbelow =>
      obtain rfl := Option.some.inj hstep
      apply h.of_routing
      · exact hk
      · rfl
      · rfl
    next thread past hbelow =>
      obtain rfl := Option.some.inj hstep
      have hmapped : k.Mapped := (h.mapped_of_nil hnil).of_routing hk
      apply routesTo_return
      · exact Or.inl hmapped
      · intro hprocess hframes
        -- the handler returns to where the pointer led before the call
        have hleads : ReturnsTo c.kernel thread past := by
          simpa only [hbelow] using hkeeps
        have hterminals : k.sched.currentProcess = c.kernel.sched.currentProcess ∧
            k.terms.currentTerminal = c.kernel.terms.currentTerminal :=
          ⟨congrArg Routing.currentProcess hk, congrArg Routing.currentTerminal hk⟩
        have hpast := hleads hprocess hframes
        unfold Kernel.Leads at hpast ⊢
        rw [hterminals.1, hterminals.2]
        exact hpast
  · cases hstep
  next entry k hexec =>
    obtain rfl := Option.some.inj hstep
    rw [hexec] at hkeeps
    exact routesTo_start hkeeps (routing_execute_started hexec) _

/-- One step. -/
theorem routesTo_step {e : ConsoleEvent} (h : RoutesTo c.kernel c.cpu)
    (hkeeps : KeepsRouting img c e c') (hstep : step img c e = some c') :
    RoutesTo c'.kernel c'.cpu := by
  cases e with
  | openWindow =>
      obtain ⟨-, hc'⟩ := Option.ite_none_right_eq_some.mp hstep
      obtain rfl := Option.some.inj hc'
      apply h.of_routing
      · rfl
      · rfl
      · rfl
  | closeWindow =>
      obtain ⟨-, hc'⟩ := Option.ite_none_right_eq_some.mp hstep
      obtain rfl := Option.some.inj hc'
      apply h.of_routing
      · rfl
      · rfl
      · rfl
  | tick esp ebp =>
      obtain ⟨-, hc'⟩ := Option.ite_none_right_eq_some.mp hstep
      exact routesTo_tick h hkeeps hc'
  | key code res frame =>
      obtain ⟨-, hc'⟩ := Option.ite_none_right_eq_some.mp hstep
      exact routesTo_key h hkeeps hc'
  | advance => exact routesTo_advance h hkeeps hstep
  | leaveSwitch =>
      obtain ⟨-, hc'⟩ := Option.ite_none_right_eq_some.mp hstep
      exact routesTo_leaveSwitch h hkeeps hc'
  | execute command res frame =>
      obtain ⟨-, hc'⟩ := Option.ite_none_right_eq_some.mp hstep
      exact routesTo_execute h hkeeps hc'
  | halt =>
      obtain ⟨huser, hc'⟩ := Option.ite_none_right_eq_some.mp hstep
      obtain rfl := Option.some.inj hc'
      simp only [inUser, Bool.and_eq_true, decide_eq_true_eq, List.isEmpty_iff] at huser
      have hrouting : (halted (Ece391Os.halt c.kernel.cli)).routing = c.kernel.routing :=
        routing_halt c.kernel.cli
      -- a process that halts runs in user mode, so the pointer leads to its own terminal
      have hrouted := h.routed huser.1.1.1 huser.2
      constructor
      · exact fun _ _ => hrouted.of_routing hrouting
      · exact Or.inl (Kernel.Mapped.of_routing hrouted.2 hrouting)
  | respawn res frame =>
      obtain ⟨hguard, hc'⟩ := Option.ite_none_right_eq_some.mp hstep
      exact routesTo_respawn h hguard.2.1 hkeeps hc'
  | write text =>
      obtain ⟨-, hc'⟩ := Option.ite_none_right_eq_some.mp hstep
      obtain rfl := Option.some.inj hc'
      simp only [write]
      split
      · apply h.of_routing
        · rfl
        · rfl
        · rfl
      · apply h.of_routing
        · rfl
        · rfl
        · rfl
  | output =>
      cases effect_of_step hstep with
      | @output st rest _ =>
          apply h.of_routing
          · exact keyStable_routing.outputExec c.kernel st
          · rfl
          · rfl

end Steps

/-! ## Every run -/

/-- Text and user mapping of the process on the processor lead to the page of its terminal. -/
def RoutesText (c : Console) : Prop :=
  c.cpu.owner ≠ sentinelProcess → c.cpu.frames = [] → c.kernel.Routed

theorem routesTo_bootConsole (espBoot : Word) :
    RoutesTo (bootConsole espBoot).kernel (bootConsole espBoot).cpu :=
  ⟨fun h => absurd rfl h, Or.inl rfl⟩

/-- A run whose steps keep the routing: in every state that it reaches, the text of the process on
the processor and its user mapping lead to the page of the running terminal. -/
theorem routesText_of_keepsRouting (img : FsImage) (espBoot : Word) (es : List ConsoleEvent)
    (h : AllSteps (step img) (KeepsRouting img) (bootConsole espBoot) es) :
    AllSteps (step img) (fun _ _ c' => c'.RoutesText) (bootConsole espBoot) es := by
  apply allSteps_of_invariant (I := fun c => RoutesTo c.kernel c.cpu) ?_
    (routesTo_bootConsole espBoot) h
  intro c e c' hroutes hstep hkeeps
  have hroutes' := routesTo_step hroutes hkeeps hstep
  exact ⟨hroutes', hroutes'.routed⟩

/-- The first shell is in a system call when Alt-F2 starts a shell on the second terminal; a timer
interrupt goes on with the first shell, whose terminal is not displayed any more. -/
def toBackground : List ConsoleEvent :=
  [.respawn emptyResidue ⟨0x7FFF00, 0x7F6300⟩, .openWindow, .tick 0x7F7E00 0x7F7E40,
    .key 0x38 emptyResidue ⟨0x7F7D00, 0x7EE100⟩, .advance,
    .key 0x3C emptyResidue ⟨0x7F7D00, 0x7EE100⟩, .openWindow, .tick 0x7EFE00 0x7EFE40]

/-- Alt is released and the key `a` typed while the first shell runs, which then writes. -/
def typeAndWrite : List ConsoleEvent :=
  [.key 0xB8 emptyResidue ⟨0x7F7D00, 0x7EE100⟩, .advance,
    .key 0x1E emptyResidue ⟨0x7F7D00, 0x7EE100⟩, .advance, .advance, .advance, .advance, .advance,
    .closeWindow, .write [104, 105], .output]

theorem routesText_typeAndWrite :
    AllSteps (step shellImage) (fun _ _ c' => c'.RoutesText) (bootConsole 0x7FFFC0)
      (toBackground ++ typeAndWrite) :=
  routesText_of_keepsRouting shellImage 0x7FFFC0 (toBackground ++ typeAndWrite)
    (by decide)

/-- Alt-F1 while the first shell runs in the background: the switch waits for one tick, which goes
on with the first shell. -/
def switchBack : List ConsoleEvent :=
  [.key 0x3B emptyResidue ⟨0x7F7D00, 0x7EE100⟩, .tick 0x7F7D80 0x7F7DC0, .leaveSwitch]

/-- `handle_keyboard` restores the pointer that it found before the switch: the first shell is
displayed, and its text goes to the backing page. -/
theorem not_routesText_switchBack :
    (∃ c, runFrom (step shellImage) (bootConsole 0x7FFFC0) (toBackground ++ switchBack) = some c ∧
        c.cpu.owner ≠ sentinelProcess ∧ c.cpu.frames = [] ∧
        c.kernel.topPid c.kernel.sched.currentProcess = c.cpu.owner ∧
        c.kernel.sched.currentProcess = c.kernel.terms.currentTerminal ∧
        c.kernel.video.target = .backing 0) ∧
      ¬ AllSteps (step shellImage) (fun _ _ c' => c'.RoutesText) (bootConsole 0x7FFFC0)
        (toBackground ++ switchBack) := by
  have hfinal : (runFrom (step shellImage) (bootConsole 0x7FFFC0)
      (toBackground ++ switchBack)).map (fun c => (c.cpu.owner, c.cpu.frames,
        c.kernel.topPid c.kernel.sched.currentProcess, c.kernel.sched.currentProcess,
        c.kernel.terms.currentTerminal, c.kernel.video.target)) =
      some (1, [], 1, 0, 0, .backing 0) := by decide
  obtain ⟨c, hrun, hc⟩ := Option.map_eq_some_iff.mp hfinal
  simp only [Prod.mk.injEq] at hc
  obtain ⟨howner, hframes, htop, hprocess, hterminal, htarget⟩ := hc
  have hne : c.cpu.owner ≠ sentinelProcess := by
    rw [howner]
    decide
  constructor
  · exact ⟨c, hrun, hne, hframes, htop.trans howner.symm, hprocess.trans hterminal.symm, htarget⟩
  · intro hall
    have hroutes : c.RoutesText := invariant_of_allSteps (I := RoutesText)
      (fun _ _ _ _ _ h => h) (fun h => absurd rfl h) hall hrun
    have hscreen := (hroutes hne hframes).1
    rw [htarget, Kernel.rightPage, hprocess, hterminal] at hscreen
    cases hscreen

end Console

end Ece391Os
