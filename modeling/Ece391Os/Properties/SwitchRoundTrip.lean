import Ece391Os.Properties.ScreenIsolation

/-!
# Away from a terminal and back

`terminal_switch` copies the screen to the backing page of the terminal that was displayed and puts
the cursor into two bytes of `switch_data_arr`. While the terminal is not displayed and nobody
prints to its page, nothing else writes there, whatever the others do; the switch back loads what
was saved. The characters come back in any case, the cursor exactly if its coordinates fit the bytes
(`switchBack_iff`): left of column 0, where the left arrow takes it on a wrapped line, it does not.
-/

set_option autoImplicit false

namespace Ece391Os

open EventRun

/-- What is kept for a terminal that is not displayed. -/
structure Parked where
  page : Page
  cursor : UInt8 × UInt8
  running : Bool

def Kernel.parked (k : Kernel) (t : Terminal) : Parked :=
  ⟨k.video.backing t, k.terms.switchCursor t, k.terms.terminalRunning t⟩

/-- `execute` finds the console behind the descriptor that `open` has returned, and reads a line
there, which begins with `next_line`. -/
def ReadsConsole (img : FsImage) (res : Residue) (k : Kernel) (command : Option CString) : Prop :=
  ∃ cmd ∈ command, ∃ i : Fin 8, (sysOpen img res k (some (commandWord cmd))).1 = i.val ∧
    ((sysOpen img res k (some (commandWord cmd))).2.fdTable i).fileOperationsPointer = some .stdin

/-! ## What touches what is kept -/

section Frames

variable {img : FsImage} {res : Residue} {frame : ExecuteFrame} {k k' : Kernel} {t : Terminal}

/-- What is kept for a terminal to whose page `video_mem` does not lead. -/
def Kernel.sheltered (t : Terminal) (k : Kernel) : FrameRef × Option Parked :=
  (k.video.target, if k.video.target = .backing t then none else some (k.parked t))

theorem parked_of_sheltered (h : k'.sheltered t = k.sheltered t)
    (hne : k.video.target ≠ .backing t) : k'.parked t = k.parked t := by
  have htarget : k'.video.target = k.video.target := congrArg Prod.fst h
  have hparked := congrArg Prod.snd h
  simp only [Kernel.sheltered, htarget, if_neg hne] at hparked
  exact Option.some.inj hparked

/-- Text output reaches the page that `video_mem` leads to. -/
theorem sheltered_output (k : Kernel) (video : Video) (h : k.video.Output video) :
    Kernel.sheltered t { k with video := video } = k.sheltered t := by
  simp only [Kernel.sheltered, h.target_eq]
  split
  · rfl
  next hne =>
    have hpage : video.backing t = k.video.backing t := h.others (.backing t) (Ne.symm hne)
    simp only [Kernel.parked, hpage]

theorem keyStable_sheltered (t : Terminal) : KeyStable (Kernel.sheltered t) where
  kbd := fun _ _ => rfl
  output := sheltered_output
  interrupts := fun _ _ => rfl

theorem callFrame_sheltered (t : Terminal) : CallFrame (Kernel.sheltered t) where
  fds := fun _ _ _ => rfl
  interrupts := fun _ _ => rfl
  rtc := fun _ _ => rfl
  output := sheltered_output
  reader := fun _ _ _ => rfl

theorem openFrame_parked (t : Terminal) : OpenFrame fun k => k.parked t where
  fds := fun _ _ _ => rfl
  interrupts := fun _ _ => rfl
  rtc := fun _ _ => rfl

/-- The first part of `execute`, if it does not read a line of the console to the page of the
terminal. -/
theorem parked_executeLoad {command : Option CString}
    (hquiet : ReadsConsole img res k command → k.video.target ≠ .backing t) :
    (∀ v, executeLoad img res frame k command = .returned v k' → k'.parked t = k.parked t) ∧
      ∀ buf, executeLoad img res frame k command = .loaded buf k' → k'.parked t = k.parked t := by
  by_cases htarget : k.video.target = .backing t
  · apply (openFrame_parked t).executeLoad
    intro cmd hcmd
    apply (openFrame_parked t).sysRead
    intro i hi hstdin
    exact absurd htarget (hquiet ⟨cmd, hcmd, i, hi, hstdin⟩)
  · constructor
    · intro v h
      exact parked_of_sheltered ((callFrame_sheltered t).executeLoad.1 v h) htarget
    · intro buf h
      exact parked_of_sheltered ((callFrame_sheltered t).executeLoad.2 buf h) htarget

theorem parked_execute_returned {command : Option CString} {v : Int}
    (h : execute img res frame k command = .returned v k')
    (hquiet : ReadsConsole img res k command → k.video.target ≠ .backing t) :
    k'.parked t = k.parked t :=
  (parked_executeLoad hquiet).1 v (executeLoad_of_returned h)

/-- A new process makes the displayed terminal a running one. -/
theorem parked_execute_started {command : Option CString} {entry : Word}
    (h : execute img res frame k command = .started entry k')
    (hquiet : ReadsConsole img res k command → k.video.target ≠ .backing t)
    (hterminal : k.terms.currentTerminal ≠ t) : k'.parked t = k.parked t := by
  obtain ⟨buf, k₁, hload, hspawn, -⟩ := executeSpawn_of_started h
  have hk₁ := (parked_executeLoad hquiet).2 buf hload
  have hdisplayed : k₁.terms.currentTerminal = k.terms.currentTerminal :=
    congrArg Tasks.currentTerminal (tasks_executeLoad.2 buf hload)
  obtain ⟨q, hs⟩ := spawns_of_executeSpawn hspawn
  obtain ⟨shellPid, hterms⟩ := hs.terms
  rw [← hk₁]
  simp only [Kernel.parked, hterms, hs.video]
  rw [hdisplayed, Function.update_of_ne (Ne.symm hterminal)]

theorem parked_halt (k : Kernel) (t : Terminal) :
    (halted (halt k)).parked t = k.parked t ∧
      (halted (halt k)).terms.currentTerminal = k.terms.currentTerminal := by
  -- only the program page of the parent is loaded
  have hrest : ∀ (k₁ : Kernel) (tss : Tss) (page : Nat),
      Kernel.parked { k₁.cli with
        sched := { k₁.sched with tss := tss }
        video := { k₁.video with programPage := page } } t = k₁.parked t := fun _ _ _ => rfl
  have hhalt : (halt k).parked t = k.parked t := hrest _ _ _
  exact ⟨hhalt, congrArg Tasks.currentTerminal (tasks_halt k)⟩

/-- A timer interrupt moves pointers. -/
theorem parked_continueWith (k : Kernel) (esp ebp : Word) (u : Terminal) :
    (continueWith (Machine.savedKernel k esp ebp) u).parked t = k.parked t ∧
      (continueWith (Machine.savedKernel k esp ebp) u).terms.currentTerminal =
        k.terms.currentTerminal := by
  obtain ⟨tss, esps, ebps, hsave⟩ := Machine.savedKernel_frame k esp ebp
  rw [hsave]
  cases h : restores _ u with
  | false =>
      rw [continueWith_of_not_restores h]
      exact ⟨rfl, rfl⟩
  | true =>
      rw [continueWith_of_restores h]
      exact ⟨rfl, rfl⟩

theorem parked_keyboardKernel (k : Kernel) (t : Terminal) :
    (Machine.keyboardKernel k).parked t = k.parked t ∧
      (Machine.keyboardKernel k).terms.currentTerminal = k.terms.currentTerminal := ⟨rfl, rfl⟩

/-- A key that is handled in the driver prints to the screen. -/
theorem parked_startKey {key : Nat} {rest : List KeyStatement}
    (h : startKey (Machine.keyboardKernel k) key = some (.running k' rest)) :
    k'.parked t = k.parked t ∧ k'.terms.currentTerminal = k.terms.currentTerminal := by
  have hscreen : (Machine.keyboardKernel k).video.target ≠ .backing t := nofun
  have hparked : k'.parked t = (Machine.keyboardKernel k).parked t :=
    parked_of_sheltered ((keyStable_sheltered t).startKey (fun _ _ _ => rfl) h) hscreen
  have hstable : KeyStable fun k : Kernel => k.terms.currentTerminal :=
    ⟨fun _ _ => rfl, fun _ _ _ => rfl, fun _ _ => rfl⟩
  have hterminal : k'.terms.currentTerminal = (Machine.keyboardKernel k).terms.currentTerminal :=
    hstable.startKey (fun _ _ _ => rfl) h
  obtain ⟨hkept, hdisplayed⟩ := parked_keyboardKernel k t
  exact ⟨hparked.trans hkept, hterminal.trans hdisplayed⟩

/-- A statement of the keyboard driver prints nothing. -/
theorem parked_exec (k : Kernel) (st : KeyStatement) :
    (st.exec k).parked t = k.parked t ∧
      (st.exec k).terms.currentTerminal = k.terms.currentTerminal := by
  cases st <;> exact ⟨rfl, rfl⟩

/-- The kernel of a switch to another terminal. -/
theorem parked_entering {num : Terminal} (hold : t ≠ k.terms.currentTerminal) :
    ((Machine.keyboardKernel k).entering num).parked t = k.parked t := by
  have hswap : (swapPages (Machine.keyboardKernel k).video k.terms.currentTerminal num).backing t =
      k.video.backing t := Function.update_of_ne hold _ _
  have hclear : ((Machine.keyboardKernel k).entering num).video.backing t = k.video.backing t :=
    ((Video.Output.terminalClear (swapPages (Machine.keyboardKernel k).video
      k.terms.currentTerminal num)).others (.backing t) nofun).trans hswap
  have hcursor : ((Machine.keyboardKernel k).entering num).terms.switchCursor t =
      k.terms.switchCursor t := Function.update_of_ne hold _ _
  rw [Kernel.parked, hclear, hcursor]
  rfl

/-- The screen is cleared for the new shell, and printed to. -/
theorem target_entering (k : Kernel) (num : Terminal) :
    ((Machine.keyboardKernel k).entering num).video.target = .screen :=
  (Video.Output.terminalClear (swapPages (Machine.keyboardKernel k).video
    k.terms.currentTerminal num)).target_eq

end Frames

namespace Console

/-! ## Steps -/

/-- The step prints through `video_mem`: a statement of a call of `terminal_write`, or the newline
of `execute` when it reads the console. -/
def Prints (img : FsImage) (c : Console) : ConsoleEvent → Prop
  | .output => True
  | .execute command res _ => ReadsConsole img res c.kernel.cli command
  | .respawn res _ => ReadsConsole img res c.kernel.cli (some shellName)
  | _ => False

/-- The step prints nothing to the page that is kept for terminal `t`. -/
def NoOutputFor (img : FsImage) (t : Terminal) (c : Console) (e : ConsoleEvent) : Prop :=
  c.Prints img e → c.kernel.video.target ≠ .backing t

/-- How a step moves the display: not at all, to a running terminal, or to another one. -/
inductive Shift (img : FsImage) (c : Console) (e : ConsoleEvent) (c' : Console) : Prop
  | stays (hterminal : c'.kernel.terms.currentTerminal = c.kernel.terms.currentTerminal)
      (hparked : ∀ t, t ≠ c.kernel.terms.currentTerminal → NoOutputFor img t c e →
        c'.kernel.parked t = c.kernel.parked t)
  | switch (num : Terminal) (hne : num ≠ c.kernel.terms.currentTerminal)
      (hrunning : c.kernel.terms.terminalRunning num = true)
      (hkernel : c'.kernel = (Machine.keyboardKernel c.kernel).requesting num)
  | enter (num : Terminal) (hne : num ≠ c.kernel.terms.currentTerminal)
      (hstopped : c.kernel.terms.terminalRunning num = false)
      (hterminal : c'.kernel.terms.currentTerminal = num)
      (hparked : ∀ t, t ≠ c.kernel.terms.currentTerminal → t ≠ num →
        c'.kernel.parked t = c.kernel.parked t)

section Steps

variable {img : FsImage} {c c' : Console} {e : ConsoleEvent}

/-- A step that moves neither the display nor what is kept. -/
theorem Shift.still (hterminal : c'.kernel.terms.currentTerminal = c.kernel.terms.currentTerminal)
    (hparked : ∀ t, c'.kernel.parked t = c.kernel.parked t) : Shift img c e c' :=
  .stays hterminal fun t _ _ => hparked t

/-- A switch to a terminal that has no shell yet. -/
theorem shift_executed {num : Terminal} {res : Residue} {frame : ExecuteFrame} {r : ExecuteResult}
    {k : Kernel} (hswitch : terminalSwitch img res frame (Machine.keyboardKernel c.kernel) num =
      .executed r) (hk : (∃ v, r = .returned v k) ∨ ∃ entry, r = .started entry k)
    (hterminal : c'.kernel.terms.currentTerminal = k.terms.currentTerminal)
    (hparked : ∀ t, c'.kernel.parked t = k.parked t) : Shift img c e c' := by
  obtain ⟨hne, hstopped, hr⟩ := terminalSwitch_executed hswitch
  have hscreen : ∀ t, ((Machine.keyboardKernel c.kernel).entering num).video.target ≠
      .backing t := by
    intro t
    rw [target_entering]
    nofun
  have hentered : ((Machine.keyboardKernel c.kernel).entering num).terms.currentTerminal = num :=
    rfl
  rcases hk with ⟨v, hv⟩ | ⟨entry, hentry⟩
  · have hexec := hr.symm.trans hv
    refine .enter num hne hstopped ?_ fun t hold hnew => ?_
    · have htasks := congrArg Tasks.currentTerminal (tasks_execute_returned hexec)
      exact hterminal.trans (htasks.trans hentered)
    · rw [hparked, parked_execute_returned hexec fun _ => hscreen t]
      exact parked_entering hold
  · have hexec := hr.symm.trans hentry
    refine .enter num hne hstopped ?_ fun t hold hnew => ?_
    · obtain ⟨q, -, htasks⟩ := tasks_execute_started hexec
      exact hterminal.trans ((congrArg Tasks.currentTerminal htasks).trans hentered)
    · rw [hparked, parked_execute_started hexec (fun _ => hscreen t)
        (by rw [hentered]; exact hnew.symm)]
      exact parked_entering hold

/-- One case for each kind of step. -/
theorem shift_of_step (hstep : step img c e = some c') : Shift img c e c' := by
  cases effect_of_step hstep with
  | openWindow => exact .still rfl fun _ => rfl
  | closeWindow => exact .still rfl fun _ => rfl
  | tick =>
      rename_i esp ebp t cpu _
      have hparked := fun u => (parked_continueWith c.kernel (t := u) esp ebp t)
      exact .still (hparked 0).2 fun u => (hparked u).1
  | key hstart =>
      exact .still (parked_startKey (t := 0) hstart).2 fun t => (parked_startKey hstart).1
  | displayed hstart =>
      have hk := startKey_switch hstart
      subst hk
      exact .still rfl fun _ => rfl
  | waits hstart hswitch =>
      have hk := startKey_switch hstart
      subst hk
      obtain ⟨hne, hrunning, -, hk'⟩ := terminalSwitch_waiting hswitch
      exact .switch _ hne hrunning hk'
  | shellFails hstart hswitch =>
      have hk := startKey_switch hstart
      subst hk
      exact shift_executed hswitch (.inl ⟨_, rfl⟩) rfl fun _ => rfl
  | shellStarts hstart hswitch =>
      have hk := startKey_switch hstart
      subst hk
      exact shift_executed hswitch (.inr ⟨_, rfl⟩) rfl fun _ => rfl
  | advance => exact .still (parked_exec (t := 0) _ _).2 fun t => (parked_exec _ _).1
  | leave => exact .still rfl fun _ => rfl
  | leaveSwitch => exact .still rfl fun _ => rfl
  | returned huser hret =>
      refine .stays ?_ fun t _ hquiet => ?_
      · exact congrArg Tasks.currentTerminal (tasks_execute_returned hret)
      · have hparked := parked_execute_returned hret hquiet
        exact hparked
  | started huser hstart =>
      obtain ⟨q, -, htasks⟩ := tasks_execute_started hstart
      refine .stays (congrArg Tasks.currentTerminal htasks) fun t hold hquiet => ?_
      have hparked := parked_execute_started hstart hquiet hold.symm
      exact hparked
  | halt => exact .still (parked_halt c.kernel.cli 0).2 fun t => (parked_halt c.kernel.cli t).1
  | respawnFails hret =>
      refine .stays ?_ fun t _ hquiet => ?_
      · exact congrArg Tasks.currentTerminal (tasks_execute_returned hret)
      · have hparked := parked_execute_returned hret hquiet
        exact hparked
  | respawns hstart =>
      obtain ⟨q, -, htasks⟩ := tasks_execute_started hstart
      refine .stays (congrArg Tasks.currentTerminal htasks) fun t hold hquiet => ?_
      have hparked := parked_execute_started hstart hquiet hold.symm
      exact hparked
  | write =>
      rename_i text _
      simp only [write]
      split
      · exact .still rfl fun _ => rfl
      · exact .still rfl fun _ => rfl
  | output =>
      rename_i st rest _
      have hterminal : KeyStable fun k : Kernel => k.terms.currentTerminal :=
        ⟨fun _ _ => rfl, fun _ _ _ => rfl, fun _ _ => rfl⟩
      refine .stays (hterminal.outputExec c.kernel st) fun t _ hquiet => ?_
      have hparked := parked_of_sheltered ((keyStable_sheltered t).outputExec c.kernel st)
        (hquiet trivial)
      exact hparked

end Steps

/-! ## There and back -/

/-- Terminal `t` is not displayed after the step, and nothing has been printed for it. Keys are for
the displayed terminal. -/
def StaysAway (img : FsImage) (t : Terminal) (c : Console) (e : ConsoleEvent)
    (c' : Console) : Prop :=
  c'.kernel.terms.currentTerminal ≠ t ∧ NoOutputFor img t c e

/-- The screen and the cursor are as they were. -/
structure Restores (v w : Video) : Prop where
  cells : ∀ i, 0 ≤ i → i < numRows * numCols → w.screen i = v.screen i
  cursor : w.cursor = v.cursor

/-- The cursor fits the two bytes in which it is saved. -/
def CursorInBytes (v : Video) : Prop :=
  (0 ≤ v.screenX ∧ v.screenX < 256) ∧ 0 ≤ v.screenY ∧ v.screenY < 256

section Runs

variable {img : FsImage} {a b : Terminal} {c c₁ c₂ c' : Console} {e e' : ConsoleEvent}
  {es : List ConsoleEvent}

/-- A coordinate comes back from its byte exactly if it fits. -/
theorem toNat_ofInt_iff (n : Int) : ((UInt8.ofInt n).toNat : Int) = n ↔ 0 ≤ n ∧ n < 256 := by
  constructor
  · intro h
    have hlt := (UInt8.ofInt n).toNat_lt
    omega
  · rintro ⟨hn, hn'⟩
    exact Screens.toNat_ofInt hn hn'

/-- The run lemma: what is kept for a terminal stays while it is not displayed. -/
theorem parked_of_staysAway (ha : c₁.kernel.terms.currentTerminal ≠ a)
    (hstays : AllSteps (step img) (StaysAway img a) c₁ es)
    (hrun : runFrom (step img) c₁ es = some c₂) :
    c₂.kernel.terms.currentTerminal ≠ a ∧ c₂.kernel.parked a = c₁.kernel.parked a := by
  apply invariant_of_allSteps (I := fun c : Console => c.kernel.terms.currentTerminal ≠ a ∧
    c.kernel.parked a = c₁.kernel.parked a) ?_ ⟨ha, rfl⟩ hstays hrun
  rintro s e s' ⟨hs, hparked⟩ hstep ⟨haway, hquiet⟩
  refine ⟨haway, Eq.trans ?_ hparked⟩
  cases shift_of_step hstep with
  | stays _ hkept => exact hkept a hs.symm hquiet
  | switch num hne _ hkernel =>
      rw [hkernel] at haway ⊢
      -- the terminal that is saved is the one that was displayed
      have hpage : ((Machine.keyboardKernel s.kernel).requesting num).video.backing a =
          s.kernel.video.backing a := Function.update_of_ne hs.symm _ _
      have hcursor : ((Machine.keyboardKernel s.kernel).requesting num).terms.switchCursor a =
          s.kernel.terms.switchCursor a := Function.update_of_ne hs.symm _ _
      rw [Kernel.parked, hpage, hcursor]
      rfl
  | enter num _ _ hterminal hkept =>
      exact hkept a hs.symm fun heq => haway (hterminal.trans heq.symm)

/-- The switch away keeps the screen and the bytes of the cursor. -/
theorem parked_of_leaving (ha : c.kernel.terms.currentTerminal = a) (hne : b ≠ a)
    (hb : c.kernel.terms.terminalRunning b = true) (hstep : step img c e = some c₁)
    (hshown : c₁.kernel.terms.currentTerminal = b) : c₁.kernel.parked a =
      ⟨c.kernel.video.screen, (UInt8.ofInt c.kernel.video.screenX,
        UInt8.ofInt c.kernel.video.screenY), c.kernel.terms.terminalRunning a⟩ := by
  cases shift_of_step hstep with
  | stays hterminal _ => exact absurd (hshown.symm.trans (hterminal.trans ha)) hne
  | enter num _ hstopped hterminal _ =>
      obtain rfl : num = b := hterminal.symm.trans hshown
      exact absurd (hb.symm.trans hstopped) (by decide)
  | switch num _ _ hkernel =>
      subst ha
      have hpage : ((Machine.keyboardKernel c.kernel).requesting num).video.backing
          c.kernel.terms.currentTerminal = c.kernel.video.screen := Function.update_self _ _ _
      have hcursor : ((Machine.keyboardKernel c.kernel).requesting num).terms.switchCursor
          c.kernel.terms.currentTerminal = (UInt8.ofInt c.kernel.video.screenX,
            UInt8.ofInt c.kernel.video.screenY) := Function.update_self _ _ _
      rw [hkernel, Kernel.parked, hpage, hcursor]
      rfl

/-- The switch back loads what is kept. -/
theorem loaded_of_returning (ha : c₂.kernel.terms.currentTerminal ≠ a)
    (hrunning : c₂.kernel.terms.terminalRunning a = true) (hstep : step img c₂ e' = some c')
    (hback : c'.kernel.terms.currentTerminal = a) :
    c'.kernel.video.screen = (c₂.kernel.parked a).page ∧
      c'.kernel.video.cursor = (((c₂.kernel.parked a).cursor.1.toNat : Int),
        ((c₂.kernel.parked a).cursor.2.toNat : Int)) := by
  cases shift_of_step hstep with
  | stays hterminal _ => exact absurd (hterminal.symm.trans hback) ha
  | enter num _ hstopped hterminal _ =>
      obtain rfl : num = a := hterminal.symm.trans hback
      exact absurd (hrunning.symm.trans hstopped) (by decide)
  | switch num hne _ hkernel =>
      rw [hkernel] at hback
      obtain rfl : num = a := hback
      have hcursor : ((Machine.keyboardKernel c₂.kernel).requesting num).terms.switchCursor num =
          c₂.kernel.terms.switchCursor num := Function.update_of_ne hne _ _
      have hloaded : ((Machine.keyboardKernel c₂.kernel).requesting num).video.cursor =
          (((((Machine.keyboardKernel c₂.kernel).requesting num).terms.switchCursor num).1.toNat :
            Int), ((((Machine.keyboardKernel c₂.kernel).requesting num).terms.switchCursor
              num).2.toNat : Int)) := rfl
      rw [hkernel, hloaded, hcursor]
      exact ⟨rfl, rfl⟩

/-- A switch from a terminal to another running one, then anything that neither displays the first
one nor prints for it, and then a switch back: the screen and the cursor are as they were exactly if
the cursor fitted its bytes. -/
theorem switchBack_iff (ha : c.kernel.terms.currentTerminal = a)
    (hrunning : c.kernel.terms.terminalRunning a = true) (hne : b ≠ a)
    (hb : c.kernel.terms.terminalRunning b = true) (haway : step img c e = some c₁)
    (hshown : c₁.kernel.terms.currentTerminal = b)
    (hstays : AllSteps (step img) (StaysAway img a) c₁ es)
    (hrun : runFrom (step img) c₁ es = some c₂) (hstep : step img c₂ e' = some c')
    (hback : c'.kernel.terms.currentTerminal = a) :
    Restores c.kernel.video c'.kernel.video ↔ CursorInBytes c.kernel.video := by
  have hparked := parked_of_leaving ha hne hb haway hshown
  obtain ⟨ha₂, hkept⟩ := parked_of_staysAway (hshown.trans_ne hne) hstays hrun
  rw [hparked] at hkept
  have hrunning₂ : c₂.kernel.terms.terminalRunning a = true :=
    (congrArg Parked.running hkept).trans hrunning
  obtain ⟨hscreen, hcursor⟩ := loaded_of_returning ha₂ hrunning₂ hstep hback
  rw [hkept] at hscreen hcursor
  have hcoordinates : c'.kernel.video.cursor = c.kernel.video.cursor ↔
      CursorInBytes c.kernel.video := by
    rw [hcursor, CursorInBytes, ← toNat_ofInt_iff, ← toNat_ofInt_iff]
    exact Prod.mk.injEq _ _ _ _ ▸ Iff.rfl
  constructor
  · intro hrestores
    exact hcoordinates.mp hrestores.cursor
  · intro hbytes
    exact ⟨fun i _ _ => congrFun hscreen i, hcoordinates.mpr hbytes⟩

end Runs

/-- The third shell fills a row but for one character, which is typed; then the left arrow moves
the cursor before it. -/
def toWrapped : List ConsoleEvent :=
  toThirdShell ++ [.write (List.replicate 79 120), .output,
    .key 0xB8 emptyResidue ⟨0x7E7D00, 0x7DE100⟩, .advance,
    .key 0x1E emptyResidue ⟨0x7E7D00, 0x7DE100⟩, .advance, .advance, .advance, .advance, .advance,
    .key 0x4B emptyResidue ⟨0x7E7D00, 0x7DE100⟩, .advance,
    .key 0x38 emptyResidue ⟨0x7E7D00, 0x7DE100⟩, .advance]

def wrapped : Console :=
  (runFrom (step shellImage) (bootConsole 0x7FFFC0) toWrapped).get (by decide +kernel)

theorem run_wrapped : runFrom (step shellImage) (bootConsole 0x7FFFC0) toWrapped = some wrapped :=
  (Option.some_get _).symm

/-- Alt-F1. -/
def onFirst : Console :=
  (step shellImage wrapped (.key 0x3B emptyResidue ⟨0x7E7D00, 0x7DE100⟩)).get (by decide +kernel)

theorem step_onFirst : step shellImage wrapped (.key 0x3B emptyResidue ⟨0x7E7D00, 0x7DE100⟩) =
    some onFirst :=
  (Option.some_get _).symm

/-- Alt-F3, which arrives while the first switch waits for the timer. -/
def onThird : Console :=
  (step shellImage onFirst (.key 0x3D emptyResidue ⟨0x7E7D00, 0x7DE100⟩)).get (by decide +kernel)

theorem step_onThird : step shellImage onFirst (.key 0x3D emptyResidue ⟨0x7E7D00, 0x7DE100⟩) =
    some onThird :=
  (Option.some_get _).symm

theorem switchBack_wrapped :
    Restores wrapped.kernel.video onThird.kernel.video ↔ CursorInBytes wrapped.kernel.video :=
  switchBack_iff (a := 2) (b := 0) (by decide) (by decide) (by decide)
    (by decide) step_onFirst (by decide)
    (show AllSteps (step shellImage) (StaysAway shellImage 2) onFirst [] from trivial)
    (runFrom_nil onFirst) step_onThird (by decide)

/-- The cursor was in column -1 and comes back in column 255. -/
theorem not_switchBack_wrapped :
    runFrom (step shellImage) (bootConsole 0x7FFFC0) toWrapped = some wrapped ∧
      wrapped.kernel.terms.currentTerminal = 2 ∧
      wrapped.kernel.terms.terminalRunning 2 = true ∧
      wrapped.kernel.terms.terminalRunning 0 = true ∧
      step shellImage wrapped (.key 0x3B emptyResidue ⟨0x7E7D00, 0x7DE100⟩) = some onFirst ∧
      onFirst.kernel.terms.currentTerminal = 0 ∧
      step shellImage onFirst (.key 0x3D emptyResidue ⟨0x7E7D00, 0x7DE100⟩) = some onThird ∧
      onThird.kernel.terms.currentTerminal = 2 ∧
      wrapped.kernel.video.cursor = (-1, 1) ∧ onThird.kernel.video.cursor = (255, 1) ∧
      ¬ Restores wrapped.kernel.video onThird.kernel.video := by
  have hbefore : wrapped.kernel.video.cursor = (-1, 1) := by decide +kernel
  have hafter : onThird.kernel.video.cursor = (255, 1) := by decide +kernel
  refine ⟨run_wrapped, by decide, by decide, by decide, step_onFirst,
    by decide, step_onThird, by decide, hbefore, hafter, fun hrestores => ?_⟩
  have hcursor := hrestores.cursor
  rw [hbefore, hafter] at hcursor
  exact absurd hcursor (by decide)

end Console

end Ece391Os
