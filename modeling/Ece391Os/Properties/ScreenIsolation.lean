import Ece391Os.Library.ErasedRun
import Ece391Os.Properties.InterruptedOutput
import Ece391Os.Properties.Tasks
import Ece391Os.Properties.VideoRouting

/-!
# Screens of their own

The 80x25 characters and the cursor of each terminal, while the processes of three running
terminals write and the terminals are switched, also in the middle of a call of `terminal_write`. A
terminal that is displayed has its characters on the screen and its cursor in the two globals; the
others have them in a backing page and in `switch_data_arr`. The own run of a terminal performs its
writes alone, on one page with one cursor.
-/

set_option autoImplicit false

namespace Ece391Os

open EventRun

/-! ## Own screens -/

namespace Video

/-- A screen of its own for the characters and the cursor of a view. -/
def View.alone (w : View) : Video where
  screen := w.page
  backing := fun _ _ => blankCell
  screenX := w.x
  screenY := w.y
  videoMem := .video
  vidEntry := .screen
  programPage := 0

/-- The rest of a call of `terminal_write` on a screen of its own. -/
def View.finish (w : View) (output : List OutputStatement) : View := (w.alone.finish output).view

/-- `terminal_write` of a text on a screen of its own. -/
def View.write (w : View) (text : List UInt8) : View := (text.foldl writeChar w.alone).view

/-- Through `video_mem`, the rest of a call does what it does on a screen of its own. -/
theorem view_finish (v : Video) (output : List OutputStatement) :
    (v.finish output).view = v.view.finish output :=
  view_finish_congr output (v := v) (w := v.view.alone) rfl

end Video

/-- What the screens of the terminals are read from, and whose process is on the processor. -/
structure Screens where
  currentTerminal : Terminal
  running : Terminal → Bool
  scheduleTop : Terminal → Int
  switchCursor : Terminal → UInt8 × UInt8
  screen : Page
  backing : Terminal → Page
  cursor : Int × Int
  currentProcess : Terminal
  currentPid : Pid
  topPid : Terminal → Pid

/-- The screens of a kernel. -/
def Kernel.screens (k : Kernel) : Screens where
  currentTerminal := k.terms.currentTerminal
  running := k.terms.terminalRunning
  scheduleTop := k.sched.scheduleTop
  switchCursor := k.terms.switchCursor
  screen := k.video.screen
  backing := k.video.backing
  cursor := k.video.cursor
  currentProcess := k.sched.currentProcess
  currentPid := k.procs.currentPid
  topPid := k.topPid

namespace Screens

/-- The cursor that `terminal_switch` has saved for terminal `t`. -/
def savedCursor (s : Screens) (t : Terminal) : Int × Int :=
  ((s.switchCursor t).1.toNat, (s.switchCursor t).2.toNat)

/-- The characters and the cursor of terminal `t`. -/
def screenOf (s : Screens) (t : Terminal) : Video.View :=
  if t = s.currentTerminal then ⟨s.screen, s.cursor.1, s.cursor.2⟩
  else ⟨s.backing t, (s.savedCursor t).1, (s.savedCursor t).2⟩

/-- Three running terminals: each has a process of its own on top of its schedule stack, the
process of the running terminal is on the processor, and all cursors are on the screen. -/
structure Three (s : Screens) : Prop where
  running : ∀ t, s.running t = true
  stacked : ∀ t, s.scheduleTop t ≠ 0
  distinct : Function.Injective s.topPid
  current : s.currentPid = s.topPid s.currentProcess
  cursor : OnScreen s.cursor
  saved : ∀ t, OnScreen (s.savedCursor t)

/-- The timer goes on with the process of terminal `t`. -/
def resume (s : Screens) (t : Terminal) : Screens :=
  { s with currentProcess := t, currentPid := s.topPid t }

/-- The switch to terminal `num`. -/
def switch (s : Screens) (num : Terminal) : Screens :=
  { s with
    currentTerminal := num
    switchCursor := Function.update s.switchCursor s.currentTerminal
      (UInt8.ofInt s.cursor.1, UInt8.ofInt s.cursor.2)
    screen := s.backing num
    backing := Function.update s.backing s.currentTerminal s.screen
    cursor := s.savedCursor num }

variable {s : Screens}

/-- The process on the processor is that of the running terminal, and of no other. -/
theorem Three.owner_iff (h : s.Three) (t : Terminal) :
    s.currentPid = s.topPid t ↔ t = s.currentProcess := by
  rw [h.current]
  constructor
  · intro heq
    exact (h.distinct heq).symm
  · rintro rfl
    rfl

theorem Three.resume (h : s.Three) (t : Terminal) : (s.resume t).Three :=
  { h with current := rfl }

/-- A coordinate on the screen fits a byte. -/
theorem toNat_ofInt {n : Int} (hn : 0 ≤ n) (hn' : n < 256) :
    ((UInt8.ofInt n).toNat : Int) = n := by
  obtain ⟨m, rfl⟩ := Int.eq_ofNat_of_zero_le hn
  have hm : m < 256 := by omega
  have hmod : (m : Int) % 2 ^ 8 = m := Int.emod_eq_of_lt hn hn'
  rw [UInt8.ofInt, hmod, Int.toNat_natCast, UInt8.toNat_ofNat_of_lt' hm]

/-- The cursor is saved whole. -/
theorem savedCursor_switch (h : OnScreen s.cursor) (num t : Terminal) :
    (s.switch num).savedCursor t =
      if t = s.currentTerminal then s.cursor else s.savedCursor t := by
  have hrows : numRows = 25 := rfl
  have hcols : numCols = 80 := rfl
  obtain ⟨hx, hx', hy, hy'⟩ := h
  simp only [savedCursor, switch]
  split
  next heq =>
    subst heq
    rw [Function.update_self, toNat_ofInt hx (by omega), toNat_ofInt hy (by omega)]
  next hne => rw [Function.update_of_ne hne]

theorem Three.switch (h : s.Three) (num : Terminal) : (s.switch num).Three where
  running := h.running
  stacked := h.stacked
  distinct := h.distinct
  current := h.current
  cursor := h.saved num
  saved := fun t => by
    rw [savedCursor_switch h.cursor]
    split
    · exact h.cursor
    · exact h.saved t

/-- A switch leaves all screens as they are. -/
theorem screenOf_switch (h : s.Three) {num : Terminal} (hne : num ≠ s.currentTerminal)
    (t : Terminal) : (s.switch num).screenOf t = s.screenOf t := by
  have hsaved := savedCursor_switch h.cursor num t
  by_cases hnum : t = num
  · subst hnum
    have hscreen : (s.switch t).screenOf t =
        ⟨s.backing t, (s.savedCursor t).1, (s.savedCursor t).2⟩ := if_pos rfl
    rw [hscreen, screenOf, if_neg hne]
  · have hscreen : (s.switch num).screenOf t = ⟨(s.switch num).backing t,
        ((s.switch num).savedCursor t).1, ((s.switch num).savedCursor t).2⟩ := if_neg hnum
    rw [hscreen, hsaved, screenOf]
    simp only [Screens.switch]
    by_cases hold : t = s.currentTerminal
    · subst hold
      rw [if_pos rfl, if_pos rfl, Function.update_self]
    · rw [if_neg hold, if_neg hold, Function.update_of_ne hold]

/-- What happens to the screens while no text is written. -/
inductive Moves (s : Screens) : Screens → Prop where
  | stay : Moves s s
  | resume (t : Terminal) : Moves s (s.resume t)
  | switch (num : Terminal) (hne : num ≠ s.currentTerminal) : Moves s (s.switch num)

theorem Moves.three {s' : Screens} (hmoves : Moves s s') (h : s.Three) : s'.Three := by
  cases hmoves with
  | stay => exact h
  | resume t => exact h.resume t
  | switch num hne => exact h.switch num

theorem Moves.screenOf_eq {s' : Screens} (hmoves : Moves s s') (h : s.Three) (t : Terminal) :
    s'.screenOf t = s.screenOf t := by
  cases hmoves with
  | stay => rfl
  | resume u => rfl
  | switch num hne => exact screenOf_switch h hne t

end Screens

/-! ## What moves the screens -/

section Kernels

variable {img : FsImage} {res : Residue} {frame : ExecuteFrame} {k k' : Kernel}

theorem screens_savedKernel (k : Kernel) (esp ebp : Word) :
    (Machine.savedKernel k esp ebp).screens = k.screens := by
  obtain ⟨tss, esps, ebps, hsave⟩ := Machine.savedKernel_frame k esp ebp
  rw [hsave]
  rfl

/-- A tick that restores a context. -/
theorem screens_continueWith {t : Terminal} (h : restores k t = true) :
    (continueWith k t).screens = k.screens.resume t := by
  rw [continueWith_of_restores h]
  rfl

/-- A tick that stays. -/
theorem screens_continueWith_stay (h : restores k k.sched.currentProcess = false) :
    (continueWith k k.sched.currentProcess).screens = k.screens := by
  rw [continueWith_of_not_restores h]
  rfl

/-- A switch that waits has swapped the screens. -/
theorem screens_terminalSwitch {num : Terminal} {ticked : Bool}
    (h : terminalSwitch img res frame k num = .waiting ticked k') :
    num ≠ k.terms.currentTerminal ∧ k'.screens = k.screens.switch num := by
  obtain ⟨hne, -, -, rfl⟩ := terminalSwitch_waiting h
  refine ⟨hne, ?_⟩
  -- the saved cursor of `num` is not the one that has just been written
  simp only [Kernel.requesting, Kernel.screens, Screens.switch, Screens.savedCursor,
    Video.cursor, swapPages, Function.update_of_ne hne]
  rfl

/-- `video_mem` and the cursor are those of the running terminal: it is displayed and the pointer
leads to the screen; or it is not, the pointer leads to its page, and the shared cursor happens to
be the saved one. -/
def Kernel.ReachesOwn (k : Kernel) : Prop :=
  k.sched.currentProcess = k.terms.currentTerminal ∧ k.video.target = .screen ∨
    k.sched.currentProcess ≠ k.terms.currentTerminal ∧
      k.video.target = .backing k.sched.currentProcess ∧
      k.screens.savedCursor k.sched.currentProcess = k.video.cursor

instance (k : Kernel) : Decidable k.ReachesOwn := inferInstanceAs (Decidable (_ ∨ _))

/-- The view through `video_mem` is then the screen of the running terminal. -/
theorem Kernel.ReachesOwn.screenOf_eq (h : k.ReachesOwn) :
    k.screens.screenOf k.sched.currentProcess = k.video.view := by
  rcases h with ⟨hdisplayed, htarget⟩ | ⟨hbackground, htarget, hsaved⟩
  · rw [Video.view, htarget]
    exact if_pos hdisplayed
  · rw [Video.view, htarget]
    refine (if_neg hbackground).trans ?_
    rw [hsaved]
    rfl

/-- Output leaves everything but the page that `video_mem` leads to and the cursor. -/
structure PrintsTo (k k' : Kernel) : Prop where
  output : k.video.Output k'.video
  rest : k'.screens = { k.screens with
    screen := k'.video.screen, backing := k'.video.backing, cursor := k'.video.cursor }

/-- One statement of `terminal_write`. -/
theorem printsTo_exec (k : Kernel) (st : OutputStatement) : PrintsTo k (st.exec k).1 :=
  ⟨Video.Output.execVideo k.video st, rfl⟩

section Printing

/-- A displayed process moves its own cursor; another one must leave the cursor. -/
theorem PrintsTo.reachesOwn (hp : PrintsTo k k') (h : k.ReachesOwn)
    (hcursor : k.sched.currentProcess ≠ k.terms.currentTerminal →
      k'.video.cursor = k.video.cursor) : k'.ReachesOwn := by
  have hprocess : k'.sched.currentProcess = k.sched.currentProcess :=
    congrArg Screens.currentProcess hp.rest
  have hterminal : k'.terms.currentTerminal = k.terms.currentTerminal :=
    congrArg Screens.currentTerminal hp.rest
  have hsaved : k'.screens.savedCursor = k.screens.savedCursor := by
    rw [hp.rest]
    rfl
  unfold Kernel.ReachesOwn
  rw [hprocess, hterminal, hsaved, hp.output.target_eq]
  rcases h with hdisplayed | ⟨hbackground, htarget, hown⟩
  · exact Or.inl hdisplayed
  · exact Or.inr ⟨hbackground, htarget, hown.trans (hcursor hbackground).symm⟩

/-- The screens of the other terminals stay. -/
theorem PrintsTo.screenOf_of_ne (hp : PrintsTo k k') (h : k.ReachesOwn)
    (hcursor : k.sched.currentProcess ≠ k.terms.currentTerminal →
      k'.video.cursor = k.video.cursor) {t : Terminal} (ht : t ≠ k.sched.currentProcess) :
    k'.screens.screenOf t = k.screens.screenOf t := by
  rw [hp.rest]
  rcases h with ⟨hdisplayed, htarget⟩ | ⟨hbackground, htarget, -⟩
  · -- the screen and the cursor are those of the process that prints
    have hhidden : t ≠ k.terms.currentTerminal := hdisplayed ▸ ht
    have hbacking : k'.video.backing t = k.video.backing t :=
      hp.output.others (.backing t) (by rw [htarget]; simp)
    refine (if_neg hhidden).trans ?_
    exact (congrArg (Video.View.mk · _ _) hbacking).trans (if_neg hhidden).symm
  · by_cases hshown : t = k.terms.currentTerminal
    · have hpage : k'.video.screen = k.video.screen :=
        hp.output.others .screen (by rw [htarget]; simp)
      refine (if_pos hshown).trans ((?_ : _ = _).trans (if_pos hshown).symm)
      dsimp only
      rw [hpage, hcursor hbackground]
      rfl
    · have hbacking : k'.video.backing t = k.video.backing t :=
        hp.output.others (.backing t) (by rw [htarget]; simpa using ht)
      refine (if_neg hshown).trans ?_
      exact (congrArg (Video.View.mk · _ _) hbacking).trans (if_neg hshown).symm

end Printing

end Kernels

/-! ## Writes and switches -/

/-- What happens on three running terminals: processes write, the timer interrupts, and Alt-Fn
keys switch to a terminal. -/
inductive ScreenEvent where
  | openWindow
  | closeWindow
  | tick (esp ebp : Word)
  | switch (num : Terminal) (res : Residue) (frame : ExecuteFrame)
  | leaveSwitch
  | write (text : List UInt8)
  | output

namespace Console

/-- One step. -/
def screenStep (img : FsImage) (c : Console) : ScreenEvent → Option Console
  | .openWindow => c.step img .openWindow
  | .closeWindow => c.step img .closeWindow
  | .tick esp ebp => c.step img (.tick esp ebp)
  | .switch num res frame =>
      if c.kernel.interrupts then
        c.switchTerminal img num (Machine.keyboardKernel c.kernel) res frame
      else none
  | .leaveSwitch => c.step img .leaveSwitch
  | .write text => c.step img (.write text)
  | .output => c.step img .output

/-- What the process of terminal `t` has left of a call of `terminal_write`. -/
def pending (c : Console) (t : Terminal) : List OutputStatement :=
  if t = c.kernel.sched.currentProcess then c.cpu.output
  else (c.slotThread t (c.kernel.sched.topIdx t)).output

/-- The characters and the cursor of terminal `t` behind the call of its process. -/
def screenBehind (c : Console) (t : Terminal) : Video.View :=
  (c.kernel.screens.screenOf t).finish (c.pending t)

/-- No call is under way on terminal `t`. -/
theorem screenBehind_of_nil {c : Console} {t : Terminal} (h : c.pending t = []) :
    c.screenBehind t = c.kernel.screens.screenOf t := by
  rw [screenBehind, h]
  rfl

/-- The writes of a step that the process of terminal `t` makes. -/
def ownWrite (t : Terminal) (c : Console) (e : ScreenEvent) (_ : Console) : List (List UInt8) :=
  match e with
  | .write text => if c.kernel.procs.currentPid = c.kernel.topPid t then [text] else []
  | _ => []

/-- The writes of terminal `t` in a run. -/
def ownWrites (img : FsImage) (t : Terminal) (c : Console) (es : List ScreenEvent) :
    List (List UInt8) :=
  erased (screenStep img) (ownWrite t) c es

/-- The screen of a terminal after its own writes, one after another, on a screen of its own. -/
def ownScreen (w : Video.View) (texts : List (List UInt8)) : Video.View :=
  texts.foldl Video.View.write w

/-- A step that keeps the screens apart. A statement of `terminal_write` is executed while
`video_mem` and the cursor are those of the running terminal, and one of a background process leaves
the cursor where it is. A tick restores the context of the terminal that it chooses, or it stays. -/
def KeepsScreens (c : Console) (e : ScreenEvent) (_ : Console) : Prop :=
  let k := c.kernel
  match e with
  | .tick esp ebp =>
      let saved := Machine.savedKernel k esp ebp
      ∀ t ∈ nextProcess saved, restores saved t = true ∨ t = k.sched.currentProcess
  | .output =>
      ∀ st ∈ c.cpu.output.head?, k.ReachesOwn ∧ st.InRows k.video.cursor ∧
        (k.sched.currentProcess ≠ k.terms.currentTerminal →
          st.cursorAfter k.video.cursor = k.video.cursor)
  | _ => True

instance (c : Console) (e : ScreenEvent) (c' : Console) : Decidable (KeepsScreens c e c') := by
  unfold KeepsScreens
  cases e <;> dsimp only <;> infer_instance

section Steps

variable {img : FsImage} {c c' : Console}

/-- A tick that restores a context goes on with its process, and one that stays goes on with the
process of the running terminal. -/
theorem screens_tick {esp ebp : Word} {u : Terminal} (h : c.kernel.screens.Three)
    (hkeeps : restores (Machine.savedKernel c.kernel esp ebp) u = true ∨
      u = c.kernel.sched.currentProcess) :
    (continueWith (Machine.savedKernel c.kernel esp ebp) u).screens =
      c.kernel.screens.resume u := by
  have hsaved := screens_savedKernel c.kernel esp ebp
  cases hrestores : restores (Machine.savedKernel c.kernel esp ebp) u with
  | true => rw [screens_continueWith hrestores, hsaved]
  | false =>
      have hstay := hkeeps.resolve_left (by rw [hrestores]; decide)
      have hprocess : (Machine.savedKernel c.kernel esp ebp).sched.currentProcess =
          c.kernel.sched.currentProcess := congrArg Screens.currentProcess hsaved
      have hcurrent : c.kernel.screens.resume c.kernel.sched.currentProcess = c.kernel.screens :=
        congrArg (fun p => { c.kernel.screens with currentPid := p }) h.current.symm
      rw [hstay, hcurrent, ← hsaved]
      rw [hstay, ← hprocess] at hrestores
      rw [← hprocess]
      exact screens_continueWith_stay hrestores

/-- A tick saves the thread on the processor and goes on with another one. -/
theorem pending_tick {esp ebp : Word} (h : c.kernel.screens.Three)
    (hkeeps : KeepsScreens c (.tick esp ebp) c') (hstep : c.tick esp ebp = some c') (t : Terminal) :
    c'.pending t = c.pending t := by
  obtain ⟨u, hnext, rfl⟩ := Option.map_eq_some_iff.mp hstep
  have hsaved := screens_savedKernel c.kernel esp ebp
  have htop : (Machine.savedKernel c.kernel esp ebp).sched.scheduleTop =
      c.kernel.sched.scheduleTop := congrArg Screens.scheduleTop hsaved
  have hthreads : ∀ v, (c.savedThreads v (c.kernel.sched.topIdx v)).output = c.pending v := by
    intro v
    have hstacked : c.kernel.sched.scheduleTop c.kernel.sched.currentProcess ≠ 0 := h.stacked _
    rw [savedThreads, if_pos hstacked, pending]
    split
    next heq =>
      subst heq
      rw [setEntry_self]
    next hne => rw [setEntry_of_ne _ _ (Or.inl hne)]
  -- in both cases the thread on the processor is the one that is saved for the chosen terminal
  have hcpu : (if restores (Machine.savedKernel c.kernel esp ebp) u = true then
      c.savedThreads u ((Machine.savedKernel c.kernel esp ebp).sched.topIdx u)
      else c.cpu).output = c.pending u := by
    have hidx : (Machine.savedKernel c.kernel esp ebp).sched.topIdx u =
        c.kernel.sched.topIdx u := congrArg (· u - 1) htop
    split
    · rw [hidx, hthreads]
    next hrestores =>
      rw [pending, if_pos ((hkeeps u hnext).resolve_left hrestores)]
  have hscreens := screens_tick h (hkeeps u hnext)
  have hprocess : (continueWith (Machine.savedKernel c.kernel esp ebp) u).sti.sched.currentProcess =
      u := congrArg Screens.currentProcess hscreens
  have hidx : (continueWith (Machine.savedKernel c.kernel esp ebp) u).sti.sched.topIdx t =
      c.kernel.sched.topIdx t := congrArg (fun s => s.scheduleTop t - 1) hscreens
  rw [pending]
  simp only [hprocess, hidx]
  split
  next heq => rw [hcpu, heq]
  · exact hthreads t

/-- What is not a write moves the screens at most. -/
theorem moves_tick {esp ebp : Word} (h : c.kernel.screens.Three)
    (hkeeps : KeepsScreens c (.tick esp ebp) c') (hstep : c.tick esp ebp = some c') :
    c.kernel.screens.Moves c'.kernel.screens := by
  obtain ⟨u, hnext, rfl⟩ := Option.map_eq_some_iff.mp hstep
  have hmoves := Screens.Moves.resume (s := c.kernel.screens) u
  rw [← screens_tick h (hkeeps u hnext)] at hmoves
  exact hmoves

/-- A switch leaves the calls of `terminal_write` as they are. -/
theorem moves_switch {num : Terminal} {res : Residue} {frame : ExecuteFrame}
    (h : c.kernel.screens.Three)
    (hstep : c.switchTerminal img num (Machine.keyboardKernel c.kernel) res frame = some c') :
    c.kernel.screens.Moves c'.kernel.screens ∧ c'.pending = c.pending := by
  simp only [switchTerminal] at hstep
  split at hstep
  · obtain rfl := Option.some.inj hstep
    exact ⟨.stay, rfl⟩
  next ticked k hswitch =>
    obtain rfl := Option.some.inj hstep
    obtain ⟨hne, hk⟩ := screens_terminalSwitch hswitch
    have hmoves := Screens.Moves.switch (s := c.kernel.screens) num hne
    have hk' : k.screens = c.kernel.screens.switch num := hk
    have hprocess : k.sched.currentProcess = c.kernel.sched.currentProcess :=
      congrArg Screens.currentProcess hk'
    have htop : k.sched.scheduleTop = c.kernel.sched.scheduleTop :=
      congrArg Screens.scheduleTop hk'
    rw [← hk'] at hmoves
    refine ⟨hmoves, funext fun t => ?_⟩
    simp only [pending, hprocess, Scheduler.topIdx, htop]
  all_goals
    -- all terminals are running, so no shell is executed
    rename_i hswitch
    have hstopped := (tasks_terminalSwitch_executed hswitch).2.1
    have hrunning := h.running num
    exact absurd (hrunning.symm.trans hstopped) (by decide)

/-- A statement of `terminal_write` on the screen of its terminal. -/
theorem screens_output {st : OutputStatement} {rest : List OutputStatement}
    (h : c.kernel.screens.Three) (hkeeps : KeepsScreens c .output c')
    (houtput : c.cpu.output = st :: rest)
    (hc' : c' = { c with
      kernel := (st.exec c.kernel).1
      cpu := { c.cpu with output := (st.exec c.kernel).2 ++ rest } }) :
    c'.kernel.screens.Three ∧ ∀ t, c'.screenBehind t = c.screenBehind t := by
  obtain ⟨hreaches, hrows, hleaves⟩ := hkeeps st (by rw [houtput]; rfl)
  have hprints := printsTo_exec c.kernel st
  have hcursor : (st.exec c.kernel).1.video.cursor = st.cursorAfter c.kernel.video.cursor :=
    st.cursor_execVideo c.kernel.video
  have hleaves' : c.kernel.sched.currentProcess ≠ c.kernel.terms.currentTerminal →
      (st.exec c.kernel).1.video.cursor = c.kernel.video.cursor :=
    fun hbackground => hcursor.trans (hleaves hbackground)
  have hprocess : (st.exec c.kernel).1.sched = c.kernel.sched := rfl
  subst hc'
  constructor
  · dsimp only
    rw [hprints.rest]
    exact { h with cursor := hcursor ▸ h.cursor.cursorAfter hrows }
  · intro t
    rw [screenBehind, screenBehind, pending, pending]
    dsimp only
    rw [hprocess]
    by_cases ht : t = c.kernel.sched.currentProcess
    · -- the statement is the first of what is left, on the same screen
      have hown := hreaches.screenOf_eq
      have hown' := (hprints.reachesOwn hreaches hleaves').screenOf_eq
      rw [hprocess] at hown'
      rw [if_pos ht, if_pos ht, ht, houtput, hown, hown', ← Video.view_finish, ← Video.view_finish,
        st.finish_exec]
    · rw [if_neg ht, if_neg ht, hprints.screenOf_of_ne hreaches hleaves' ht]

/-- A call of `terminal_write` is what is left of the screen of its terminal. -/
theorem screenBehind_write {text : List UInt8} (huser : c.inUser = true) (t : Terminal) :
    (c.write text).screenBehind t =
      if t = c.kernel.sched.currentProcess then (c.screenBehind t).write text
      else c.screenBehind t := by
  have hnil : c.cpu.output = [] := by
    simp only [inUser, Bool.and_eq_true, List.isEmpty_iff] at huser
    exact huser.1.2
  simp only [write]
  split
  next hempty =>
    -- the empty text is rejected, and it is the identity on a screen of its own
    have htext : text = [] := List.length_eq_zero_iff.mp (by omega)
    subst htext
    split <;> rfl
  · simp only [screenBehind, pending]
    by_cases ht : t = c.kernel.sched.currentProcess
    · have hcurrent : t = c.kernel.cli.sched.currentProcess := ht
      rw [if_pos ht, if_pos ht, hnil, if_pos hcurrent]
      rfl
    · have hother : t ≠ c.kernel.cli.sched.currentProcess := ht
      rw [if_neg ht, if_neg ht, if_neg hother]
      rfl

/-- One step: the writer's screen takes the text, the others stay as they are. -/
theorem screens_step {e : ScreenEvent} (h : c.kernel.screens.Three)
    (hkeeps : KeepsScreens c e c') (hstep : screenStep img c e = some c') :
    c'.kernel.screens.Three ∧ ∀ t, runFrom (fun w text => some (Video.View.write w text))
      (c.screenBehind t) (ownWrite t c e c') = some (c'.screenBehind t) := by
  have hmoved : c.kernel.screens.Moves c'.kernel.screens → (∀ t, c'.pending t = c.pending t) →
      c'.kernel.screens.Three ∧ ∀ t, some (c.screenBehind t) = some (c'.screenBehind t) := by
    intro hmoves hpending
    refine ⟨hmoves.three h, fun t => ?_⟩
    rw [screenBehind, screenBehind, hmoves.screenOf_eq h, hpending]
  cases e with
  | openWindow =>
      obtain ⟨-, hc'⟩ := Option.ite_none_right_eq_some.mp hstep
      obtain rfl := Option.some.inj hc'
      exact hmoved .stay fun _ => rfl
  | closeWindow =>
      obtain ⟨-, hc'⟩ := Option.ite_none_right_eq_some.mp hstep
      obtain rfl := Option.some.inj hc'
      exact hmoved .stay fun _ => rfl
  | tick esp ebp =>
      obtain ⟨-, hc'⟩ := Option.ite_none_right_eq_some.mp hstep
      exact hmoved (moves_tick h hkeeps hc') (pending_tick h hkeeps hc')
  | switch num res frame =>
      obtain ⟨-, hc'⟩ := Option.ite_none_right_eq_some.mp hstep
      obtain ⟨hmoves, hpending⟩ := moves_switch h hc'
      exact hmoved hmoves (congrFun hpending)
  | leaveSwitch =>
      obtain ⟨-, hc'⟩ := Option.ite_none_right_eq_some.mp hstep
      simp only [leaveSwitch] at hc'
      split at hc'
      · obtain ⟨-, hc'⟩ := Option.ite_none_right_eq_some.mp hc'
        obtain rfl := Option.some.inj hc'
        exact hmoved .stay fun _ => rfl
      · cases hc'
  | write text =>
      obtain ⟨huser, hc'⟩ := Option.ite_none_right_eq_some.mp hstep
      obtain rfl := Option.some.inj hc'
      have hscreens : (c.write text).kernel.screens = c.kernel.screens := by
        simp only [write]
        split <;> rfl
      refine ⟨hscreens ▸ h, fun t => ?_⟩
      have howner : c.kernel.procs.currentPid = c.kernel.topPid t ↔
          t = c.kernel.sched.currentProcess := h.owner_iff t
      simp only [ownWrite, howner]
      rw [screenBehind_write huser]
      split <;> rfl
  | output =>
      have heffect : Effect img c .output c' := effect_of_step hstep
      cases heffect with
      | output houtput =>
          obtain ⟨hthree, hscreens⟩ := screens_output h hkeeps houtput rfl
          exact ⟨hthree, fun t => congrArg some (hscreens t).symm⟩

end Steps

/-! ## Every interleaving -/

/-- From boot to the third shell, which runs on the displayed terminal. -/
def toThirdShell : List ConsoleEvent :=
  toBackground ++ [.key 0x3D emptyResidue ⟨0x7F7D00, 0x7EE100⟩]

/-- Three running terminals. -/
def threeShells : Console :=
  (runFrom (step shellImage) (bootConsole 0x7FFFC0) toThirdShell).get (by decide +kernel)

theorem run_threeShells :
    runFrom (step shellImage) (bootConsole 0x7FFFC0) toThirdShell = some threeShells :=
  (Option.some_get _).symm

theorem three_threeShells : threeShells.kernel.screens.Three where
  running := by decide
  stacked := by decide
  distinct := by decide
  current := by decide
  cursor := by decide
  saved := by decide

/-- The third shell writes, and is interrupted before `next_line` while the other two run; then the
first is brought to the screen, where it writes. -/
def writesInTurn : List ScreenEvent :=
  [.write [104, 10, 105], .output, .tick 0x7E7E00 0x7E7E40, .tick 0x7F7E00 0x7F7E40,
    .tick 0x7EFE00 0x7EFE40, .output, .output, .output, .output, .output,
    .switch 0 emptyResidue ⟨0x7EFD00, 0x7E6100⟩, .tick 0x7E7D80 0x7E7DC0, .closeWindow,
    .write [97], .output, .closeWindow, .write [98], .output]

/-- The third shell writes, and then the first, which runs in the background. -/
def writesBehind : List ScreenEvent :=
  [.write [104, 105], .output, .tick 0x7E7E00 0x7E7E40, .closeWindow, .write [120], .output]

end Console

end Ece391Os
