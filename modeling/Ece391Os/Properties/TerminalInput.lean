import Ece391Os.Model.InputSession
import Ece391Os.Properties.KeyActions
import Ece391Os.Properties.ProcessTree
import Ece391Os.Properties.Refusals

/-!
# The input of one terminal

`TerminalInput` is a machine for one terminal that knows nothing of the others: the line of the
terminal and its reader, the histories of its processes, and what of their descriptors decides
whether `execute` refuses a command. It acts on the keys that were translated while the terminal
was displayed and on the calls of its own processes. `TerminalInput.of` reads it off the kernel, and
the lemmas of the second half say what the operations of the kernel do to it.
-/

set_option autoImplicit false

namespace Ece391Os

/-! ## The machine -/

/-- The history of a new process. -/
def History.empty : History := ⟨fun _ _ => 0, 0, 0, 0⟩

/-- The actions that work on the history. -/
def KeyAction.usesHistory : KeyAction → Bool
  | .up => true
  | .down => true
  | .enter => true
  | _ => false

/-- The input of a terminal: its line and reader, what its reads have returned and delivered, the
histories of the processes on its schedule stack and, one entry longer for the sentinel below them,
their descriptors, the uppermost first. -/
structure TerminalInput where
  line : InputLine
  delivered : List (Int × List UInt8)
  histories : List History
  callers : List Descriptors

/-- What a terminal takes part in: a key that was translated while it is displayed, and the calls of
its processes. `free` says whether there is a free process. -/
inductive OwnEvent where
  | key (a : KeyAction)
  | execute (command : Option CString) (res : Residue) (free : Bool)
  | halt
  | startRead
  | finishRead (nbytes : Nat)

/-- The index of the first newline of a row, if there is one. -/
def newlineIndex (row : Row) : Option Nat := (List.range maxBufferSize).find? (row · = 10)

namespace TerminalInput

/-- A key at the desk of the uppermost process. -/
def key (s : TerminalInput) (a : KeyAction) : Option TerminalInput :=
  (Desk.act ⟨s.line, s.histories.headD .empty⟩ a).map fun d =>
    { s with
      line := d.line
      histories := match s.histories with
        | [] => []
        | _ :: hs => d.history :: hs }

open Classical in
/-- A command of the uppermost process. -/
noncomputable def execute (img : FsImage) (s : TerminalInput) (command : Option CString)
    (res : Residue) (free : Bool) : TerminalInput :=
  if Refused img res (s.callers.headD .initial) free command then s
  else
    { s with
      line := s.line.clear
      histories := .empty :: s.histories
      callers := .initial :: s.callers }

/-- The end of a read: the terminating `NUL` is stored and the line delivered. -/
def finishRead (s : TerminalInput) (nbytes : Nat) : Option TerminalInput :=
  let row := Function.update s.line.readRow (nbytes - 1) 0
  (newlineIndex row).map fun i : Nat =>
    { s with
      line := { s.line with readRow := row }
      delivered :=
        s.delivered ++ [((i : Int) + 1, CString.text ((List.range nbytes).map row))] }

/-- One step. -/
noncomputable def step (img : FsImage) (s : TerminalInput) : OwnEvent → Option TerminalInput
  | .key a => s.key a
  | .execute command res free => some (s.execute img command res free)
  | .halt => some { s with histories := s.histories.tail, callers := s.callers.tail }
  | .startRead => some { s with line := { s.line with returnSwitch := .on } }
  | .finishRead nbytes => s.finishRead nbytes

end TerminalInput

/-! ## The input of a kernel -/

/-- The input of terminal `t`, whose reads have delivered `delivered`. -/
def Kernel.terminalInput (k : Kernel) (t : Terminal) (delivered : List (Int × List UInt8)) :
    TerminalInput where
  line := k.inputLine t
  delivered := delivered
  histories := (k.tasks.entries t).reverse.map k.kbd.ringOf
  callers := (sentinelProcess :: k.tasks.entries t).reverse.map k.descriptors

section Kernel

variable {img : FsImage} {res : Residue} {frame : ExecuteFrame} {k k' : Kernel} {t : Terminal}
  {delivered : List (Int × List UInt8)}

/-- What the input of a terminal consists of. -/
theorem terminalInput_congr (hline : k'.inputLine t = k.inputLine t)
    (hentries : k'.tasks.entries t = k.tasks.entries t)
    (hrings : ∀ p ∈ k.tasks.entries t, k'.kbd.ringOf p = k.kbd.ringOf p)
    (hcallers : k'.descriptors = k.descriptors) :
    k'.terminalInput t delivered = k.terminalInput t delivered := by
  have hhistories : (k.tasks.entries t).reverse.map k'.kbd.ringOf =
      (k.tasks.entries t).reverse.map k.kbd.ringOf := by
    apply List.map_congr_left
    intro p hp
    exact hrings p (List.mem_reverse.mp hp)
  simp only [Kernel.terminalInput, hline, hentries, hhistories, hcallers]

/-- Everything that belongs to the input of some terminal is the same. -/
theorem terminalInput_of_same (hkbd : k'.kbd = k.kbd) (hreaders : k'.readers = k.readers)
    (hentries : k'.tasks.entries t = k.tasks.entries t)
    (hcallers : k'.descriptors = k.descriptors) :
    k'.terminalInput t delivered = k.terminalInput t delivered := by
  obtain ⟨hswitch, hrow⟩ := Prod.mk.inj hreaders
  apply terminalInput_congr
  · simp only [Kernel.inputLine, hkbd, hswitch, hrow]
  · exact hentries
  · intro p _
    rw [hkbd]
  · exact hcallers

/-! ### Keys -/

/-- An action that does not use the history does not see it. -/
theorem Desk.act_of_plain {a : KeyAction} (ha : a.usesHistory = false) (line : InputLine)
    (h h' : History) :
    Desk.act ⟨line, h⟩ a = (Desk.act ⟨line, h'⟩ a).map fun d => ⟨d.line, h⟩ := by
  cases a with
  | up => cases ha
  | down => cases ha
  | enter => cases ha
  | modify m => rfl
  | left => rfl
  | right => rfl
  | clear => rfl
  | nothing => rfl
  | backspace =>
      simp only [Desk.act]
      split
      · rfl
      · rw [Option.map_map]
        rfl
  | type c =>
      simp only [Desk.act]
      split
      · rfl
      · split
        · rfl
        · split
          · rfl
          · rw [Option.map_map]
            rfl

/-- Processes and scheduling are out of reach of the keys that do not switch terminals. -/
theorem keyStable_tasks_procs : KeyStable fun k : Kernel => (k.tasks, k.procs) where
  kbd := fun _ _ => rfl
  output := fun _ _ _ => rfl
  interrupts := fun _ _ => rfl

theorem tasks_handleKeyboard {key : Nat} (h : handleKeyboard k key = some k') :
    k'.tasks = k.tasks ∧ k'.procs = k.procs := by
  simp only [handleKeyboard] at h
  split at h
  next k₁ hrun =>
    obtain rfl := Option.some.inj h
    have hkey := keyStable_tasks_procs.handles (fun _ _ _ => rfl)
      (handles_of_handleKeyboardInput hrun)
    exact Prod.mk.inj hkey
  · cases h

/-- A key acts at the desk of the displayed terminal. -/
theorem replaces_handleKeyboard {key : Nat} (h : handleKeyboard k key = some k') :
    ∃ d, k.desk.act (keyAction k.kbd key) = some d ∧
      Replaces (k.setModifiers ((keyAction k.kbd key).modifiersAfter k.kbd.modifiers)) d k' := by
  simp only [handleKeyboard] at h
  split at h
  next k₁ hrun =>
    obtain rfl := Option.some.inj h
    rw [handleKeyboardInput_eq] at hrun
    obtain ⟨d, hd, hr⟩ := replaces_run hrun
    refine ⟨d, hd, ?_⟩
    -- the handler sends the output to the screen and restores the pointer at its end
    have hstart : SameInput
        (k.setModifiers ((keyAction k.kbd key).modifiersAfter k.kbd.modifiers))
        ((Machine.keyboardKernel k).setModifiers
          ((keyAction k.kbd key).modifiersAfter k.kbd.modifiers)) :=
      ⟨rfl, rfl, rfl, rfl, rfl, rfl, rfl⟩
    have hend : SameInput k₁ (KeyStatement.exec k₁ (.leave k.video.videoMem k.interrupts)) :=
      ⟨rfl, rfl, rfl, rfl, rfl, rfl, rfl⟩
    exact (hstart.replaces.trans hr).same hend
  · cases h

theorem Desk.act_history {a : KeyAction} (ha : a.usesHistory = false) {d d' : Desk}
    (h : d.act a = some d') : d'.history = d.history := by
  have hact : Desk.act ⟨d.line, d.history⟩ a = some d' := h
  rw [act_of_plain ha d.line d.history d.history] at hact
  obtain ⟨d₁, -, rfl⟩ := Option.map_eq_some_iff.mp hact
  rfl

/-- The histories behind a key: only that of the displayed process can change. -/
theorem ringOf_handleKeyboard {key : Nat} (h : handleKeyboard k key = some k') {p : Pid}
    (hp : p ≠ k.displayedPid ∨ (keyAction k.kbd key).usesHistory = false) :
    k'.kbd.ringOf p = k.kbd.ringOf p := by
  obtain ⟨d, hd, hr⟩ := replaces_handleKeyboard h
  by_cases hshown : p = k.displayedPid
  · have hplain := hp.resolve_left (not_not.mpr hshown)
    have hhistory : k'.desk.history = k.desk.history := by
      rw [hr.desk]
      exact Desk.act_history hplain hd
    have hpid : k'.displayedPid = k.displayedPid := hr.shown
    simp only [Kernel.desk, hpid] at hhistory
    rw [hshown]
    exact hhistory
  · exact hr.histories p hshown

/-- The uppermost process of the displayed terminal is the displayed one. -/
theorem entries_displayed (hpos : 0 < k.sched.scheduleTop k.terms.currentTerminal) :
    ∃ l, k.tasks.entries k.terms.currentTerminal = l ++ [k.displayedPid] :=
  ⟨_, Tasks.entries_eq_append hpos⟩

/-- A key acts on the input of the displayed terminal. -/
theorem terminalInput_key (hs : Seated k.tasks) {key : Nat} (h : handleKeyboard k key = some k')
    (hplace : (keyAction k.kbd key).usesHistory = true →
      0 < k.sched.scheduleTop k.terms.currentTerminal) :
    (k.terminalInput k.terms.currentTerminal delivered).key (keyAction k.kbd key) =
      some (k'.terminalInput k.terms.currentTerminal delivered) := by
  obtain ⟨d, hd, hr⟩ := replaces_handleKeyboard h
  obtain ⟨htasks, hprocs⟩ := tasks_handleKeyboard h
  have hcallers : k'.descriptors = k.descriptors := by
    apply descriptors_of_tables
    intro p
    rw [Kernel.fdTableOf, Kernel.fdTableOf, hprocs]
  have hshown : k'.displayedPid = k.displayedPid := hr.shown
  have hterminal : k'.terms.currentTerminal = k.terms.currentTerminal := hr.terminal
  have hline : k'.inputLine k.terms.currentTerminal = d.line := by
    have hdesk := congrArg Desk.line hr.desk
    simp only [Kernel.desk, hterminal] at hdesk
    exact hdesk
  have hring : k'.kbd.ringOf k.displayedPid = d.history := by
    have hdesk := congrArg Desk.history hr.desk
    simp only [Kernel.desk, hshown] at hdesk
    exact hdesk
  simp only [TerminalInput.key, Kernel.terminalInput, htasks, hcallers, hline]
  by_cases hpos : 0 < k.sched.scheduleTop k.terms.currentTerminal
  · -- the displayed process is the uppermost one, and its history the first
    obtain ⟨l, hl⟩ := entries_displayed hpos
    have hothers : ∀ p ∈ l.reverse, k'.kbd.ringOf p = k.kbd.ringOf p := by
      intro p hp
      apply ringOf_handleKeyboard h
      left
      rintro rfl
      have hnodup := (List.nodup_cons.mp (hs.forest.nodup k.terms.currentTerminal)).2
      rw [hl, List.nodup_append] at hnodup
      exact hnodup.2.2 _ (List.mem_reverse.mp hp) _ List.mem_cons_self rfl
    have hact : Desk.act ⟨k.inputLine k.terms.currentTerminal,
        k.kbd.ringOf k.displayedPid⟩ (keyAction k.kbd key) = some d := hd
    simp only [hl, List.reverse_append, List.reverse_singleton, List.singleton_append,
      List.map_cons, List.headD_cons, hact, Option.map_some, hring,
      List.map_congr_left hothers]
  · -- without a process on it, the terminal has no history for the key to work on
    have hnil := Tasks.entries_eq_nil (s := k.tasks) (not_lt.mp hpos)
    have hplain : (keyAction k.kbd key).usesHistory = false := by
      cases huses : (keyAction k.kbd key).usesHistory with
      | false => rfl
      | true => exact absurd (hplace huses) hpos
    have hact : Desk.act ⟨k.inputLine k.terms.currentTerminal, .empty⟩ (keyAction k.kbd key) =
        some ⟨d.line, .empty⟩ := by
      rw [Desk.act_of_plain hplain _ _ (k.kbd.ringOf k.displayedPid)]
      exact Option.map_eq_some_iff.mpr ⟨d, hd, rfl⟩
    simp only [hnil, List.reverse_nil, List.map_nil, List.headD_nil, hact, Option.map_some]

/-- The input of the other terminals stays. -/
theorem terminalInput_key_other (hs : Seated k.tasks) {key : Nat}
    (h : handleKeyboard k key = some k')
    (hplace : (keyAction k.kbd key).usesHistory = true →
      0 < k.sched.scheduleTop k.terms.currentTerminal) (ht : t ≠ k.terms.currentTerminal) :
    k'.terminalInput t delivered = k.terminalInput t delivered := by
  obtain ⟨d, hd, hr⟩ := replaces_handleKeyboard h
  obtain ⟨htasks, hprocs⟩ := tasks_handleKeyboard h
  apply terminalInput_congr
  · exact hr.lines t ht
  · rw [htasks]
  · intro p hp
    apply ringOf_handleKeyboard h
    cases huses : (keyAction k.kbd key).usesHistory with
    | false => exact Or.inr rfl
    | true =>
        left
        rintro rfl
        obtain ⟨l, hl⟩ := entries_displayed (hplace huses)
        apply hs.forest.disjoint t k.terms.currentTerminal ht hp
        rw [hl]
        exact List.mem_append_right l List.mem_cons_self
  · apply descriptors_of_tables
    intro p
    rw [Kernel.fdTableOf, Kernel.fdTableOf, hprocs]

/-! ### Programs -/

/-- The second part of `execute` resets the table of the new process. -/
theorem executeSpawn_fdTableOf {command : CString} {buf : Nat → UInt8}
    (h : executeSpawn frame k command buf = some k') (p : Pid) :
    k'.fdTableOf p = if p = k'.procs.currentPid then (k.fdTableOf p).reset else k.fdTableOf p := by
  obtain ⟨q, hs⟩ := spawns_of_executeSpawn h
  have htable := congrFun (hs.field Pcb.fdTable fun _ _ => rfl) p
  rw [hs.current, Kernel.fdTableOf, htable]
  split
  next heq =>
    rw [heq, Function.update_self]
    rfl
  next hne =>
    rw [Function.update_of_ne hne]
    rfl

/-- A new process starts with the descriptors of a new process. -/
theorem executeSpawn_descriptors {command : CString} {buf : Nat → UInt8}
    (h : executeSpawn frame k command buf = some k') :
    k'.descriptors = Function.update k.descriptors k'.procs.currentPid .initial := by
  funext p
  have htable := executeSpawn_fdTableOf h p
  rcases eq_or_ne p k'.procs.currentPid with rfl | hne
  · rw [Function.update_self]
    rw [if_pos rfl] at htable
    have hfree : ∀ i : Fin 8, 2 ≤ i → (k'.fdTableOf k'.procs.currentPid i).Free := by
      intro i hi
      have hval : 2 ≤ i.val := Fin.le_def.mp hi
      rw [htable, FdTable.reset, if_pos hval]
      exact cleared_free _
    have hroom : Room (k'.fdTableOf k'.procs.currentPid) := ⟨2, le_rfl, hfree 2 le_rfl⟩
    have hclock : ¬ HasRtc (k'.fdTableOf k'.procs.currentPid) := by
      rintro ⟨i, hi, hopen, -⟩
      exact hopen (hfree i hi)
    rw [Kernel.descriptors, decide_eq_true hroom, decide_eq_false hclock]
    rfl
  · rw [Function.update_of_ne hne]
    rw [if_neg hne] at htable
    exact descriptors_congr fun i _ => Or.inr (congrFun htable i)

theorem readers_executeSpawn {command : CString} {buf : Nat → UInt8}
    (h : executeSpawn frame k command buf = some k') : k'.readers = k.readers := by
  obtain ⟨q, hs⟩ := spawns_of_executeSpawn h
  obtain ⟨shellPid, hterms⟩ := hs.terms
  rw [Kernel.readers, hterms]
  rfl

/-- A new process starts with an empty history. -/
theorem ringOf_clearHistoryBuffer (k : Kernel) (pid : Pid) :
    (clearHistoryBuffer k pid).kbd.ringOf = Function.update k.kbd.ringOf pid .empty := by
  funext p
  rcases eq_or_ne p pid with rfl | hne
  · rw [Function.update_self]
    simp only [Keyboard.ringOf, Keyboard.historyOf, clearHistoryBuffer, History.window,
      Function.update_self, History.empty, History.mk.injEq, and_true]
    funext j i
    split <;> rfl
  · rw [Function.update_of_ne hne]
    exact congrArg History.window ((historyOf_clearHistoryBuffer k pid).2 p hne)

/-- What a started program leaves: a clear line on the displayed terminal and, on top of its stack,
a new process with an empty history. -/
theorem terminalInput_started {command : Option CString} (hs : Seated k.tasks)
    (hknown : KnownEntry img command) {entry : Word}
    (h : execute img res frame k command = .started entry k') :
    k'.terminalInput k.terms.currentTerminal delivered =
        { k.terminalInput k.terms.currentTerminal delivered with
          line := (k.inputLine k.terms.currentTerminal).clear
          histories := .empty :: (k.terminalInput k.terms.currentTerminal delivered).histories
          callers := .initial :: (k.terminalInput k.terms.currentTerminal delivered).callers } ∧
      ∀ t, t ≠ k.terms.currentTerminal →
        k'.terminalInput t delivered = k.terminalInput t delivered := by
  obtain ⟨q, hfresh, htasks⟩ := tasks_execute_started h
  obtain ⟨buf, k₁, hload, hspawn, -⟩ := executeSpawn_of_started h
  have hk' := executeSpawn_kbd hspawn
  have hcurrent : k'.procs.currentPid = q := congrArg Tasks.currentPid htasks
  have hdisplayed : k₁.terms.currentTerminal = k.terms.currentTerminal :=
    congrArg Tasks.currentTerminal (tasks_executeLoad.2 _ hload)
  have hkbd : k₁.kbd = k.kbd := callFrame_kbd.executeLoad.2 _ hload
  have hrings : k'.kbd.ringOf = Function.update k.kbd.ringOf q .empty := by
    have hclear : (clearKeyboardBuffer k₁).kbd.ringOf = k₁.kbd.ringOf := rfl
    rw [hk', ringOf_clearHistoryBuffer, hclear, hkbd, hcurrent]
  have hcallers : k'.descriptors = Function.update k.descriptors q .initial := by
    rw [executeSpawn_descriptors hspawn, (executeLoad_descriptors hknown).2 _ hload, hcurrent]
  obtain ⟨hswitch, hrow⟩ := Prod.mk.inj
    ((readers_executeSpawn hspawn).trans ((executeLoad_readers hknown).2 _ hload))
  have hlines : ∀ t, k'.inputLine t =
      if t = k.terms.currentTerminal then (k.inputLine t).clear else k.inputLine t := by
    intro t
    have hline : k'.inputLine t =
        { (clearKeyboardBuffer k₁).inputLine t with
          returnSwitch := k.terms.returnSwitch t, readRow := k.terms.readBuffer t } := by
      simp only [Kernel.inputLine, hk', hswitch, hrow]
      rfl
    rw [hline]
    simp only [Kernel.inputLine, clearKeyboardBuffer, hdisplayed, hkbd]
    by_cases ht : t = k.terms.currentTerminal
    · subst ht
      simp [InputLine.clear]
    · simp [ht]
  have hentries := Tasks.entries_spawn (s := k.tasks) (hs.top_nonneg _) q
  -- the new process has been on no stack
  have hkept : ∀ t, ∀ p ∈ (k.tasks.entries t).reverse, p ≠ q := by
    rintro t p hp rfl
    exact hs.off hfresh t (List.mem_reverse.mp hp)
  have hold : ∀ t, (k.tasks.entries t).reverse.map k'.kbd.ringOf =
      (k.tasks.entries t).reverse.map k.kbd.ringOf := by
    intro t
    apply List.map_congr_left
    intro p hp
    rw [hrings, Function.update_of_ne (hkept t p hp)]
  have hbelow : ∀ t, (sentinelProcess :: k.tasks.entries t).reverse.map k'.descriptors =
      (sentinelProcess :: k.tasks.entries t).reverse.map k.descriptors := by
    intro t
    apply List.map_congr_left
    intro p hp
    rw [hcallers, Function.update_of_ne]
    rw [List.reverse_cons, List.mem_append, List.mem_singleton] at hp
    rcases hp with hp | rfl
    · exact hkept t p hp
    · exact hfresh.ne_sentinel.symm
  constructor
  · have hnew : k'.kbd.ringOf q = .empty := by rw [hrings, Function.update_self]
    have hself : k'.descriptors q = .initial := by rw [hcallers, Function.update_self]
    have hstack : k'.tasks.entries k.terms.currentTerminal =
        k.tasks.entries k.terms.currentTerminal ++ [q] := by
      rw [htasks, hentries]
      exact Function.update_self _ _ _
    simp only [Kernel.terminalInput, hlines, if_true, hstack, List.reverse_append,
      List.reverse_singleton, List.singleton_append, List.map_cons, hnew, hold,
      ← List.cons_append, hself, hbelow]
  · intro t ht
    have hstack : k'.tasks.entries t = k.tasks.entries t := by
      rw [htasks, hentries]
      exact Function.update_of_ne ht _ _
    simp only [Kernel.terminalInput, hlines, if_neg ht, hstack, hold, hbelow]

/-- A refused command leaves the input of every terminal. -/
theorem terminalInput_returned {command : Option CString} {v : Int}
    (hknown : KnownEntry img command) (h : execute img res frame k command = .returned v k') :
    k'.terminalInput t delivered = k.terminalInput t delivered := by
  have hload := executeLoad_of_returned h
  apply terminalInput_of_same
  · exact callFrame_kbd.executeLoad.1 v hload
  · exact (executeLoad_readers hknown).1 v hload
  · rw [tasks_execute_returned h]
  · exact (executeLoad_descriptors hknown).1 v hload

/-- The uppermost caller is the process on the processor. -/
theorem callers_running (hs : Seated k.tasks) :
    (k.terminalInput k.sched.currentProcess delivered).callers.headD .initial =
      k.descriptors k.procs.currentPid := by
  have htip : stackTip sentinelProcess (k.tasks.entries k.sched.currentProcess) =
      k.procs.currentPid := hs.tip
  rcases List.eq_nil_or_concat (k.tasks.entries k.sched.currentProcess) with hnil | ⟨l, p, hl⟩
  · rw [hnil, stackTip_nil] at htip
    simp only [Kernel.terminalInput, hnil, ← htip, List.reverse_singleton, List.map_cons,
      List.headD_cons]
  · rw [hl, List.concat_eq_append, stackTip_append] at htip
    simp only [Kernel.terminalInput, hl, List.concat_eq_append, htip, ← List.cons_append,
      List.reverse_append, List.reverse_singleton, List.singleton_append, List.map_cons,
      List.headD_cons]

/-- A command of the running process, refused or not, acts on the input of its terminal. -/
theorem terminalInput_execute {command : Option CString} (hs : Seated k.tasks)
    (hknown : KnownEntry img command)
    (h : (∃ v, execute img res frame k command = .returned v k') ∨
      k.sched.currentProcess = k.terms.currentTerminal ∧
        ∃ entry, execute img res frame k command = .started entry k') :
    (k.terminalInput k.sched.currentProcess delivered).execute img command res k.hasFree =
      k'.terminalInput k.sched.currentProcess delivered := by
  have hiff : (∃ k', executeLoad img res frame k command = .returned (-1) k') ↔ _ :=
    executeLoad_returned_iff_refused hknown
  rw [TerminalInput.execute, callers_running hs]
  rcases h with ⟨v, hret⟩ | ⟨hplace, entry, hstart⟩
  · have hload := executeLoad_of_returned hret
    obtain rfl := executeLoad_value hload
    rw [if_pos (hiff.mp ⟨k', hload⟩)]
    exact (terminalInput_returned hknown hret).symm
  · obtain ⟨buf, k₁, hload, -⟩ := executeSpawn_of_started hstart
    have hnot : ¬ Refused img res (k.descriptors k.procs.currentPid) k.hasFree command := by
      intro hrefused
      obtain ⟨k₂, hk₂⟩ := hiff.mpr hrefused
      rw [hload] at hk₂
      cases hk₂
    rw [if_neg hnot, hplace]
    exact (terminalInput_started hs hknown hstart).1.symm

/-- `halt` writes to neither the readers nor the tables. -/
theorem halt_rest (k : Kernel) :
    (halted (halt k)).readers = k.readers ∧ ∀ p, (halted (halt k)).fdTableOf p = k.fdTableOf p :=
  ⟨rfl, congrFun (halt_field k Pcb.fdTable fun _ _ => rfl)⟩

/-- A process that ends leaves the input of its terminal to its parent. -/
theorem terminalInput_halt (hs : Seated k.tasks) (hpid : k.procs.currentPid ≠ sentinelProcess) :
    (halted (halt k)).terminalInput k.sched.currentProcess delivered =
        { k.terminalInput k.sched.currentProcess delivered with
          histories := (k.terminalInput k.sched.currentProcess delivered).histories.tail
          callers := (k.terminalInput k.sched.currentProcess delivered).callers.tail } ∧
      ∀ t, t ≠ k.sched.currentProcess →
        (halted (halt k)).terminalInput t delivered = k.terminalInput t delivered := by
  obtain ⟨l, hl⟩ := hs.entries_eq hpid
  have hentries : (halted (halt k)).tasks.entries =
      Function.update k.tasks.entries k.sched.currentProcess l := by
    rw [tasks_halt]
    exact Tasks.entries_exit hl
  have hcallers := descriptors_of_tables (halt_rest k).2
  obtain ⟨hswitch, hrow⟩ := Prod.mk.inj (halt_rest k).1
  have hline : ∀ t, (halted (halt k)).inputLine t = k.inputLine t := by
    intro t
    simp only [Kernel.inputLine, kbd_halt, hswitch, hrow]
  constructor
  · have hstack : k.tasks.entries k.sched.currentProcess = l ++ [k.procs.currentPid] := hl
    simp only [Kernel.terminalInput, hline, hentries, hcallers, kbd_halt, Function.update_self,
      hstack, ← List.cons_append, List.reverse_append, List.reverse_singleton,
      List.singleton_append, List.map_cons, List.tail_cons]
  · intro t ht
    simp only [Kernel.terminalInput, hline, hentries, hcallers, kbd_halt,
      Function.update_of_ne ht]

/-! ### The running and the displayed terminal -/

/-- A switch to a running terminal. -/
theorem terminalInput_switch {num : Terminal} {ticked : Bool}
    (h : terminalSwitch img res frame k num = .waiting ticked k') (video : Video) :
    Kernel.terminalInput { k' with video := video } t delivered =
      k.terminalInput t delivered := by
  obtain ⟨-, -, -, rfl⟩ := terminalSwitch_waiting h
  apply terminalInput_of_same
  · rfl
  · rfl
  · have hsame : Kernel.tasks { k.requesting num with video := video } =
        k.tasks.request num := rfl
    rw [hsame, Tasks.entries_request]
  · apply descriptors_of_tables
    intro p
    rfl

/-- The processor goes to another terminal. -/
theorem terminalInput_resume (u : Terminal) :
    (restoreContext { k with sched := { k.sched with currentProcess := u } } u).terminalInput t
      delivered = k.terminalInput t delivered := rfl

/-! ### Reads -/

/-- The scan ends in the row if there is a newline in it. -/
theorem scanNewline_own {rows : Terminal → Row} (t : Terminal) {i beyond : Nat}
    (h : newlineIndex (rows t) = some i) : scanNewline rows t beyond = i := by
  obtain ⟨hnewline, hi, hfirst⟩ := List.find?_range_eq_some.mp h
  have hin : i < maxBufferSize := List.mem_range.mp hi
  have hleft := maxBufferSize_le_bytesLeft t
  apply scanNewline_eq (Nat.lt_of_lt_of_le hin hleft)
  · rw [readByte_own _ _ hin]
    exact of_decide_eq_true hnewline
  · intro j hj
    rw [readByte_own _ _ (by omega)]
    simpa using hfirst j hj

/-- A read of at most a row that ends in the row. -/
theorem terminalInput_finishRead {nbytes beyond : Nat} {r : Int × List UInt8 × Kernel}
    (h : finishRead k nbytes beyond = r) (hn : 1 ≤ nbytes) (hmax : nbytes ≤ maxBufferSize)
    (hline : (newlineIndex (Function.update (k.terms.readBuffer k.sched.currentProcess)
      (nbytes - 1) 0)).isSome) :
    (k.terminalInput k.sched.currentProcess delivered).finishRead nbytes =
        some (r.2.2.terminalInput k.sched.currentProcess (delivered ++ [(r.1, r.2.1)])) ∧
      ∀ t delivered, t ≠ k.sched.currentProcess →
        r.2.2.terminalInput t delivered = k.terminalInput t delivered := by
  obtain ⟨i, hi⟩ := Option.isSome_iff_exists.mp hline
  set row := Function.update (k.terms.readBuffer k.sched.currentProcess) (nbytes - 1) 0 with hrow
  -- the `NUL` falls into the row of the reader, and so do the scan and the copy
  have hrows : setReadByte k.terms.readBuffer k.sched.currentProcess (nbytes - 1) 0 =
      Function.update k.terms.readBuffer k.sched.currentProcess row :=
    setReadByte_own _ _ 0 (by omega)
  have hself : Function.update k.terms.readBuffer k.sched.currentProcess row
      k.sched.currentProcess = row := Function.update_self _ _ _
  have hscan : scanNewline (Function.update k.terms.readBuffer k.sched.currentProcess row)
      k.sched.currentProcess beyond = i := scanNewline_own _ (hself.symm ▸ hi)
  have hbytes : (List.range nbytes).map (readByte
      (Function.update k.terms.readBuffer k.sched.currentProcess row) k.sched.currentProcess) =
      (List.range nbytes).map row := by
    apply List.map_congr_left
    intro j hj
    rw [readByte_own _ _ (Nat.lt_of_lt_of_le (List.mem_range.mp hj) hmax), hself]
  simp only [finishRead, hrows, hscan, hbytes] at h
  obtain rfl := h
  constructor
  · have hread : (k.terminalInput k.sched.currentProcess delivered).line.readRow =
        k.terms.readBuffer k.sched.currentProcess := rfl
    simp only [TerminalInput.finishRead, hread, ← hrow, hi, Option.map_some, Option.some.injEq]
    simp only [Kernel.terminalInput, Kernel.inputLine, hself]
    rfl
  · intro t delivered ht
    simp only [Kernel.terminalInput, Kernel.inputLine, Function.update_of_ne ht]
    rfl

theorem terminalInput_startRead :
    (startRead k).terminalInput k.sched.currentProcess delivered =
        { k.terminalInput k.sched.currentProcess delivered with
          line := { k.inputLine k.sched.currentProcess with returnSwitch := .on } } ∧
      ∀ t, t ≠ k.sched.currentProcess →
        (startRead k).terminalInput t delivered = k.terminalInput t delivered := by
  constructor
  · simp only [Kernel.terminalInput, Kernel.inputLine, startRead, Function.update_self]
    rfl
  · intro t ht
    simp only [Kernel.terminalInput, Kernel.inputLine, startRead, Function.update_of_ne ht]
    rfl

end Kernel

end Ece391Os
