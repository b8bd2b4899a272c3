import Mathlib.Data.List.TakeWhile
import Ece391Os.Library.PaddedText
import Ece391Os.Properties.ProcessAccounting

/-!
# The arguments of a program

`execute` hands the rest of its command to the new process in an argument buffer, and `getargs`
delivers it once. The buffer of the new process may still hold the arguments of an earlier
occupant, over which `execute` copies without a terminator, and `create_new_pcb` clears the
buffer of the process that is current when it is called: the parent. `allSteps_argsMeet_iff`
says which calls of `execute` do what they are for all the same. The copy keeps every buffer a run
of characters in front of `NUL` bytes, which is why `clear_args` may stop at the first `NUL`
(`clearArgs_of_run`).
-/

set_option autoImplicit false

namespace Ece391Os

open EventRun PaddedText

/-! ## What the buffers are for -/

/-- `control_blocks[p].args`. -/
def Kernel.argsOf (k : Kernel) (p : Pid) : Nat → UInt8 := (k.procs.controlBlocks p).args

/-- The text in an argument buffer. -/
def Kernel.argsText (k : Kernel) (p : Pid) : List UInt8 := read 0 argsBufferSize (k.argsOf p)

/-- The arguments of a command: its text behind the first word and the spaces that follow. -/
def ownText (command : Option CString) : List UInt8 := (commandArgs (command.getD [])).text

/-- A run with its history: the arguments of the command that started each process, and whether
the process has called `getargs` successfully. -/
structure ArgsRun where
  kernel : Kernel
  own : Pid → List UInt8
  fetched : Pid → Bool

/-- The run before the first program. -/
def bootArgs (espBoot : Word) : ArgsRun := ⟨bootKernel espBoot, fun _ => [], fun _ => false⟩

/-- What a call adds to the history. -/
def ArgsRun.record (img : FsImage) (s : ArgsRun) (c : ProcessCall) (k' : Kernel) : ArgsRun :=
  match c with
  | .execute caller command res frame =>
      match execute img res frame (s.kernel.enter caller) command with
      | .started _ _ =>
          { kernel := k'
            own := Function.update s.own k'.procs.currentPid (ownText command)
            fetched := Function.update s.fetched k'.procs.currentPid false }
      | .returned _ _ | .stuck => { s with kernel := k' }
  | .getargs caller buf nbytes =>
      if (getargs (s.kernel.enter caller) buf nbytes).exit = .returned 0 then
        { s with kernel := k', fetched := Function.update s.fetched caller true }
      else { s with kernel := k' }
  | .halt _ | .interrupts _ _ _ _ => { s with kernel := k' }

/-- One call with its history. -/
def argsStep (img : FsImage) (s : ArgsRun) (c : ProcessCall) : Option ArgsRun :=
  (processStep img s.kernel c).map (s.record img c)

/-- Each live process that has not called `getargs` successfully has its own arguments in its
buffer. -/
def OwnArgs (s : ArgsRun) : Prop :=
  ∀ p, p ≠ sentinelProcess → s.kernel.Live p → s.fetched p = false →
    s.kernel.argsText p = s.own p

/-- The stores that put a text and its terminator into a buffer. -/
def textStores (t : List UInt8) : Stores :=
  ((List.range t.length).map fun i => (i, t.getD i 0)) ++ [(t.length, 0)]

/-- A call does what it is for: afterwards every live process has its own arguments, `execute` has
changed those of no process that was live before, and a first successful `getargs` has delivered
the arguments of its caller. -/
def ArgsMeet (s : ArgsRun) (c : ProcessCall) (s' : ArgsRun) : Prop :=
  OwnArgs s' ∧
  match c with
  | .execute _ _ _ _ =>
      ∀ p, p ≠ sentinelProcess → s.kernel.Live p → s'.kernel.argsOf p = s.kernel.argsOf p
  | .getargs caller buf nbytes =>
      let r := getargs (s.kernel.enter caller) buf nbytes
      s.fetched caller = false → r.exit = .returned 0 → r.stores = textStores (s.own caller)
  | .halt _ | .interrupts _ _ _ _ => True

/-- The calls that do: a call of `execute` that starts a process is made by a process whose own
buffer is empty, and the new arguments are empty or at least as long as the text that an earlier
occupant left in the buffer of the block that `create_new_pcb` takes. -/
def ArgsFit (img : FsImage) (s : ArgsRun) (c : ProcessCall) (_ : ArgsRun) : Prop :=
  match c with
  | .execute caller command res frame =>
      match execute img res frame (s.kernel.enter caller) command with
      | .started _ _ =>
          (caller ≠ sentinelProcess → s.kernel.argsText caller = []) ∧
            ∀ q, freePid s.kernel = some q →
              ownText command = [] ∨ (s.kernel.argsText q).length ≤ (ownText command).length
      | .returned _ _ | .stuck => True
  | .getargs _ _ _ | .halt _ | .interrupts _ _ _ _ => True

/-! ## The operations on a buffer -/

/-- The loop of `clear_args` in a buffer that holds a text, with the bytes before index `i` cleared
already. -/
theorem clearArgsFrom_eq {args : Nat → UInt8} {t : List UInt8} (h : Holds 0 args t) {n i : Nat}
    {a : Nat → UInt8} (hbefore : ∀ j, j < i → a j = 0) (hbehind : ∀ j, i ≤ j → a j = args j)
    (hlen : t.length < i + n) : clearArgsFrom n i a = fun _ => 0 := by
  -- from the first index at or behind the end of the text, the buffer holds padding only
  have hpadding : ∀ j, t.length ≤ j → args j = 0 := fun j hj => by
    rw [h.eq]
    exact List.getD_eq_default _ _ hj
  induction n generalizing i a with
  | zero =>
      funext j
      rcases Nat.lt_or_ge j i with hj | hj
      · exact hbefore j hj
      · rw [clearArgsFrom, hbehind j hj]
        exact hpadding j (by omega)
  | succ n ih =>
      rw [clearArgsFrom]
      split
      next hzero =>
        -- the loop stops at the terminator, and behind it there is only padding
        have hend : t.length ≤ i := by
          refine not_lt.mp fun hlt => ?_
          rw [hbehind i le_rfl, h.eq] at hzero
          simp only [List.getD_eq_getElem _ _ hlt] at hzero
          exact h.clean (hzero ▸ List.getElem_mem hlt)
        funext j
        rcases Nat.lt_or_ge j i with hj | hj
        · exact hbefore j hj
        · rw [hbehind j hj]
          exact hpadding j (le_trans hend hj)
      next hchar =>
        apply ih
        · intro j hj
          rcases eq_or_ne j i with rfl | hne
          · exact Function.update_self _ _ _
          · rw [Function.update_of_ne hne]
            exact hbefore j (by omega)
        · intro j hj
          rw [Function.update_of_ne (by omega)]
          exact hbehind j (by omega)
        · omega

/-- `clear_args` empties a buffer that holds a text. -/
theorem holds_clearArgsFrom {args : Nat → UInt8} {t : List UInt8} (h : Holds 0 args t)
    (ht : t.length < argsBufferSize) : clearArgsFrom argsBufferSize 0 args = fun _ => 0 :=
  clearArgsFrom_eq h (fun _ hj => absurd hj (Nat.not_lt_zero _)) (fun _ _ => rfl)
    (by rw [Nat.zero_add]; exact ht)

/-- `strncpy` with the length of the source is a copy without terminator. -/
theorem strncpy_eq_overwrite (dest : Nat → UInt8) (src : CString) :
    strncpy dest src src.strlen = overwrite 0 src.text dest := by
  funext i
  rw [strncpy, overwrite, CString.strlen_eq_length_text]

theorem not_mem_text (s : CString) : (0 : UInt8) ∉ s.text := by
  intro hmem
  have hne := List.mem_takeWhile_imp hmem
  exact absurd hne (by decide)

theorem length_text_dropWhile_le (s : CString) :
    (CString.text (s.dropWhile (· = 32))).length ≤ s.strlen := by
  induction s with
  | nil => exact le_rfl
  | cons c s ih =>
      by_cases hc : c = 32
      · subst hc
        rw [List.dropWhile_cons_of_pos (by decide), CString.strlen, if_neg (by decide)]
        omega
      · rw [List.dropWhile_cons_of_neg (by simpa using hc), CString.strlen_eq_length_text]

/-- The arguments of a command are no longer than the command. -/
theorem length_text_commandArgs_le (command : CString) :
    (commandArgs command).text.length ≤ command.strlen := by
  induction command with
  | nil => exact le_rfl
  | cons c command ih =>
      by_cases hc : c ≠ 32 ∧ c ≠ 0
      · have hword : commandWord (c :: command) = c :: commandWord command :=
          List.takeWhile_cons_of_pos (decide_eq_true hc)
        have hargs : commandArgs (c :: command) = commandArgs command := by
          rw [commandArgs, hword, List.length_cons, List.drop_succ_cons, commandArgs]
        rw [hargs, CString.strlen, if_neg hc.2]
        omega
      · have hword : commandWord (c :: command) = [] :=
          List.takeWhile_cons_of_neg fun h => hc (of_decide_eq_true h)
        rw [commandArgs, hword]
        exact length_text_dropWhile_le (c :: command)

theorem charAt_zero_iff (s : CString) : s.charAt 0 = 0 ↔ s.text = [] := by
  cases s with
  | nil => exact iff_of_true rfl rfl
  | cons c s =>
      by_cases hc : c = 0
      · subst hc
        exact iff_of_true rfl rfl
      · have htext : CString.text (c :: s) = c :: CString.text s :=
          List.takeWhile_cons_of_pos (decide_eq_true hc)
        rw [htext]
        exact iff_of_false hc (List.cons_ne_nil _ _)

/-! ## The calls on the buffers -/

/-- Every buffer holds a text that is shorter than a command can be. -/
def TidyArgs (k : Kernel) : Prop := ∀ p, ∃ t, Holds 0 (k.argsOf p) t ∧ t.length < execBufferSize

section Buffers

variable {img : FsImage} {res : Residue} {frame : ExecuteFrame} {k k' : Kernel} {p : Pid}

theorem argsText_of_holds {t : List UInt8} (h : Holds 0 (k.argsOf p) t)
    (ht : t.length < execBufferSize) : k.argsText p = t := by
  have hexec : execBufferSize = 128 := rfl
  have hargs : argsBufferSize = 1024 := rfl
  exact h.read_eq (by omega)

theorem TidyArgs.holds (h : TidyArgs k) (p : Pid) :
    Holds 0 (k.argsOf p) (k.argsText p) ∧ (k.argsText p).length < execBufferSize := by
  obtain ⟨t, ht, hlen⟩ := h p
  rw [argsText_of_holds ht hlen]
  exact ⟨ht, hlen⟩

theorem argsText_congr (h : k'.argsOf p = k.argsOf p) : k'.argsText p = k.argsText p := by
  rw [Kernel.argsText, Kernel.argsText, h]

theorem argsOf_setPcb (k : Kernel) (q : Pid) (b : Pcb) :
    (k.setPcb q b).argsOf = Function.update k.argsOf q b.args := by
  funext p
  rcases eq_or_ne p q with rfl | hne
  · simp [Kernel.argsOf, Kernel.setPcb]
  · simp [Kernel.argsOf, Kernel.setPcb, Function.update_of_ne hne]

theorem argsOf_setPcb_same (q : Pid) {b : Pcb} (hb : b.args = k.argsOf q) :
    (k.setPcb q b).argsOf = k.argsOf := by
  rw [argsOf_setPcb, hb, Function.update_eq_self]

/-- No `open`, `read` or `close` touches an argument buffer. -/
theorem callFrame_argsOf : CallFrame Kernel.argsOf where
  fds := fun _ p _ => argsOf_setPcb_same p rfl
  interrupts := fun _ _ => rfl
  rtc := fun _ _ => rfl
  output := fun _ _ _ => rfl
  reader := fun _ _ _ => rfl

theorem argsOf_clearArgs (k : Kernel) : (clearArgs k).argsOf =
    Function.update k.argsOf k.procs.currentPid
      (clearArgsFrom argsBufferSize 0 (k.argsOf k.procs.currentPid)) :=
  argsOf_setPcb _ _ _

/-- The buffers after the second part of `execute`. -/
theorem argsOf_executeSpawn {command : CString} {buf : Nat → UInt8}
    (h : executeSpawn frame k command buf = some k') :
    ∃ q, freePid k = some q ∧ k'.procs.currentPid = q ∧
      (q ≠ k.procs.currentPid → k'.argsOf = Function.update
        (Function.update k.argsOf k.procs.currentPid
          (clearArgsFrom argsBufferSize 0 (k.argsOf k.procs.currentPid)))
        q (movedArgs command (k.argsOf q))) := by
  obtain ⟨q, hs⟩ := spawns_of_executeSpawn h
  refine ⟨q, hs.free, hs.current, fun hq => funext fun p => ?_⟩
  rcases eq_or_ne p q with rfl | hne
  · obtain ⟨args, hblock, hargs⟩ := hs.block
    rw [Function.update_self, Kernel.argsOf, hblock]
    exact hargs hq
  · -- the caller loses its arguments, the others keep theirs
    rw [Function.update_of_ne hne, Kernel.argsOf, hs.others p hne]
    by_cases hcaller : p = k.procs.currentPid
    · subst hcaller
      rw [if_pos rfl, Function.update_self]
      rfl
    · rw [if_neg hcaller, Function.update_of_ne hcaller]
      rfl

/-- What the move of the arguments leaves in a buffer that holds `t`. -/
theorem holds_movedArgs {command : CString} {args : Nat → UInt8} {t : List UInt8}
    (h : Holds 0 args t) (ht : t.length < execBufferSize) :
    Holds 0 (movedArgs command args) (if (commandArgs command).text = [] then []
      else (commandArgs command).text ++ t.drop (commandArgs command).text.length) := by
  have hlen : t.length < argsBufferSize := lt_trans ht (by decide)
  rw [movedArgs]
  by_cases hnone : (commandArgs command).text = []
  · rw [if_pos ((charAt_zero_iff _).mpr hnone), if_pos hnone, holds_clearArgsFrom h hlen]
    exact holds_nil 0
  · rw [if_neg fun hzero => hnone ((charAt_zero_iff _).mp hzero), if_neg hnone,
      strncpy_eq_overwrite]
    exact h.overwrite (not_mem_text _)

/-- A program that has been loaded was named by a command of bounded length. -/
theorem length_ownText_of_loaded {command : Option CString} {buf : Nat → UInt8}
    (h : executeLoad img res frame k command = .loaded buf k') :
    (ownText command).length < execBufferSize := by
  cases effect_of_executeLoad h with
  | @loaded command _ _ hlen => exact (length_text_commandArgs_le command).trans_lt hlen

theorem freePid_congr (h : k'.slots = k.slots) : freePid k' = freePid k := by
  have hpid : ∀ p, (k'.procs.controlBlocks p).pid = (k.procs.controlBlocks p).pid :=
    fun p => congrFun (congrArg Prod.fst h) p
  simp only [freePid, hpid]

/-- The kernel after a call of `execute` that starts a process, as far as arguments go: the new
process holds its own ones over the tail of what was there, the buffer of the caller is empty, and
the others are unchanged. -/
theorem execute_started_args {caller : Pid} {command : Option CString} {entry : Word}
    (htidy : TidyArgs k) (hcaller : caller = sentinelProcess ∨ k.Live caller)
    (h : execute img res frame (k.enter caller) command = .started entry k') :
    ∃ q, freePid k = some q ∧ k'.procs.currentPid = q ∧ q ≠ sentinelProcess ∧ q ≠ caller ∧
      ¬ k.Live q ∧ (∀ p, k'.Live p ↔ p = q ∨ k.Live p) ∧
      (∀ p, p ≠ q → p ≠ caller → k'.argsOf p = k.argsOf p) ∧
      k'.argsOf caller = (fun _ => 0) ∧
      Holds 0 (k'.argsOf q) (if ownText command = [] then []
        else ownText command ++ (k.argsText q).drop (ownText command).length) ∧
      (ownText command).length < execBufferSize := by
  obtain ⟨buf, k₁, hload, hspawn, -⟩ := executeSpawn_of_started h
  -- loading the program leaves buffers, control blocks and caller as they were
  have hargs₁ : k₁.argsOf = k.argsOf := (callFrame_argsOf.executeLoad.2 buf hload).trans rfl
  have hslots₁ : k₁.slots = k.slots := (callFrame_slots.executeLoad.2 buf hload).trans rfl
  have hcurrent₁ : k₁.procs.currentPid = caller :=
    (callFrame_currentPid.executeLoad.2 buf hload).trans rfl
  have hlive : ∀ K : Kernel, ∀ p, K.Live p ↔ K.slots.1 p ≠ -1 := fun _ _ => Iff.rfl
  obtain ⟨q, hfree, hcurrent, hbuf⟩ := argsOf_executeSpawn hspawn
  obtain ⟨q', hfree', hslots⟩ := slots_executeSpawn hspawn
  obtain rfl : q' = q := Option.some.inj (hfree'.symm.trans hfree)
  obtain ⟨hq, hpid⟩ := free_of_freePid hfree
  rw [hslots₁] at hpid
  -- the new process is not the caller, whose control block is in use
  have hne : q' ≠ caller := by
    rintro rfl
    exact hcaller.elim hq fun hl => hl hpid
  rw [hcurrent₁, hargs₁] at hbuf
  have hargs := hbuf hne
  refine ⟨q', ?_, hcurrent, hq, hne, fun hl => hl hpid, fun p => ?_, fun p hpq hpc => ?_, ?_, ?_,
    length_ownText_of_loaded hload⟩
  · rw [← hfree, freePid_congr hslots₁]
  · rw [hlive, hlive, hslots, hslots₁]
    rcases eq_or_ne p q' with rfl | hpq
    · have hval : ((p.val : Nat) : Int) ≠ -1 := by omega
      simp [hval]
    · simp [hpq]
  · rw [hargs, Function.update_of_ne hpq, Function.update_of_ne hpc]
  · rw [hargs, Function.update_of_ne hne.symm, Function.update_self]
    obtain ⟨hold, hlen⟩ := htidy.holds caller
    exact holds_clearArgsFrom hold (lt_trans hlen (by decide))
  · rw [hargs, Function.update_self]
    obtain ⟨hold, hlen⟩ := htidy.holds q'
    exact holds_movedArgs hold hlen

/-- `halt` leaves the buffer of the process as it is. -/
theorem argsOf_halt (k : Kernel) : (halted (halt k)).argsOf = k.argsOf :=
  halt_field k Pcb.args fun _ _ => rfl

/-- `getargs` refuses, or delivers the text in the buffer and empties it. -/
theorem getargs_cases (htidy : TidyArgs k) (buf : Option Word) (nbytes : Int) :
    getargs k buf nbytes = ⟨.returned (-1), k.cli, []⟩ ∨
      getargs k buf nbytes = ⟨.returned 0, clearArgs k.cli,
        textStores (k.argsText k.procs.currentPid)⟩ := by
  obtain ⟨hold, -⟩ := htidy.holds k.procs.currentPid
  have hlength : CString.strlen ((List.range argsBufferSize).map
      (k.argsOf k.procs.currentPid)) = (k.argsText k.procs.currentPid).length :=
    CString.strlen_eq_length_text _
  have hstores : textStores (k.argsText k.procs.currentPid) =
      ((List.range (k.argsText k.procs.currentPid).length).map fun i =>
        (i, k.argsOf k.procs.currentPid i)) ++ [((k.argsText k.procs.currentPid).length, 0)] := by
    rw [textStores, hold.eq]
  simp only [getargs]
  split
  · exact Or.inl rfl
  · split
    · exact Or.inl rfl
    · split
      · exact Or.inl rfl
      · right
        rw [hstores, ← hlength]
        rfl

/-- The same, called by some process. -/
theorem getargs_enter_cases (htidy : TidyArgs k) (caller : Pid) (buf : Option Word) (nbytes : Int) :
    let r := getargs (k.enter caller) buf nbytes
    (r.exit = .returned (-1) ∧ r.kernel.argsOf = k.argsOf) ∨
      (r.exit = .returned 0 ∧ r.stores = textStores (k.argsText caller) ∧
        r.kernel.argsOf = Function.update k.argsOf caller fun _ => 0) := by
  intro r
  rcases getargs_cases (k := k.enter caller) htidy buf nbytes with hget | hget
  · left
    simp only [r]
    rw [hget]
    exact ⟨rfl, rfl⟩
  · right
    simp only [r]
    rw [hget]
    obtain ⟨hold, hlen⟩ := htidy.holds caller
    refine ⟨rfl, rfl, ?_⟩
    rw [argsOf_clearArgs]
    exact congrArg (Function.update k.argsOf caller)
      (holds_clearArgsFrom hold (lt_trans hlen (by decide)))

/-! ## Steps -/

/-- The step lemma. -/
theorem TidyArgs.step {c : ProcessCall} (h : TidyArgs k) (hstep : processStep img k c = some k') :
    TidyArgs k' := by
  have hsame : k'.argsOf = k.argsOf → TidyArgs k' := fun heq p => by
    rw [heq]
    exact h p
  have hempty : ∀ p, k'.argsOf p = (fun _ => 0) →
      ∃ t, Holds 0 (k'.argsOf p) t ∧ t.length < execBufferSize := by
    intro p heq
    rw [heq]
    exact ⟨[], holds_nil 0, by decide⟩
  cases effect_of_processStep hstep with
  | refused _ hexec =>
      have hframe := callFrame_argsOf.executeLoad.1 _ (executeLoad_of_returned hexec)
      exact hsame hframe
  | @started caller _ _ _ _ _ hcaller hexec =>
      obtain ⟨q, -, -, -, -, -, -, hothers, hzero, hnew, hlen⟩ :=
        execute_started_args h hcaller hexec
      intro p
      rcases eq_or_ne p q with rfl | hpq
      · refine ⟨_, hnew, ?_⟩
        have hold := (h.holds p).2
        split
        · decide
        · rw [List.length_append, List.length_drop]
          omega
      · -- the caller's buffer is cleared, those of the others stay
        rcases eq_or_ne p caller with rfl | hpc
        · exact hempty p hzero
        · rw [hothers p hpq hpc]
          exact h p
  | @getargs caller buf nbytes _ =>
      rcases getargs_enter_cases h caller buf nbytes with ⟨-, hargs⟩ | ⟨-, -, hargs⟩
      · exact hsame hargs
      · intro p
        rcases eq_or_ne p caller with rfl | hne
        · exact hempty p (by rw [hargs, Function.update_self])
        · rw [hargs, Function.update_of_ne hne]
          exact h p
  | halt => exact hsame (argsOf_halt _)
  | interrupts => exact hsame rfl

end Buffers

section Steps

variable {img : FsImage} {s s' : ArgsRun}

theorem live_of_slots {k k' : Kernel} {p : Pid} (h : k'.slots = k.slots) (hl : k'.Live p) :
    k.Live p := by
  have hpid : k'.slots.1 p ≠ -1 := hl
  rw [h] at hpid
  exact hpid

/-- A call after which every buffer and every process is as before. -/
theorem OwnArgs.of_same (h : OwnArgs s) (hargs : s'.kernel.argsOf = s.kernel.argsOf)
    (hlive : ∀ p, p ≠ sentinelProcess → s'.kernel.Live p → s.kernel.Live p)
    (hown : s'.own = s.own) (hfetched : ∀ p, s'.fetched p = false → s.fetched p = false) :
    OwnArgs s' := by
  intro p hp hl hf
  rw [argsText_congr (congrFun hargs p), hown]
  exact h p hp (hlive p hp hl) (hfetched p hf)

/-- A call of `execute` that starts a process. -/
theorem argsMeet_started_iff {caller : Pid} {command : Option CString} {res : Residue}
    {frame : ExecuteFrame} {entry : Word} {k' : Kernel} (htidy : TidyArgs s.kernel) (h : OwnArgs s)
    (hcaller : caller = sentinelProcess ∨ s.kernel.Live caller)
    (hexec : execute img res frame (s.kernel.enter caller) command = .started entry k') :
    (OwnArgs ⟨k', Function.update s.own k'.procs.currentPid (ownText command),
        Function.update s.fetched k'.procs.currentPid false⟩ ∧
      ∀ p, p ≠ sentinelProcess → s.kernel.Live p → k'.argsOf p = s.kernel.argsOf p) ↔
    (caller ≠ sentinelProcess → s.kernel.argsText caller = []) ∧
      ∀ q, freePid s.kernel = some q →
        ownText command = [] ∨ (s.kernel.argsText q).length ≤ (ownText command).length := by
  obtain ⟨q, hfree, hcurrent, hq, hqc, hdead, hlive, hothers, hzero, hnew, hlen⟩ :=
    execute_started_args htidy hcaller hexec
  -- the copy has no `NUL`, so what was in the buffer behind it is still part of the text
  have htext : k'.argsText q = if ownText command = [] then []
      else ownText command ++ (s.kernel.argsText q).drop (ownText command).length := by
    refine argsText_of_holds hnew ?_
    have hold := (htidy.holds q).2
    split
    · decide
    · rw [List.length_append, List.length_drop]
      omega
  -- `execute` has cleared the buffer of the caller on the way
  have hempty : k'.argsText caller = [] := by
    have hholds : Holds 0 (k'.argsOf caller) [] := by
      rw [hzero]
      exact holds_nil 0
    exact argsText_of_holds hholds (by decide)
  rw [hcurrent]
  constructor
  · rintro ⟨hown, hframe⟩
    refine ⟨fun hc => ?_, fun q' hq' => ?_⟩
    · have hl := hcaller.resolve_left hc
      rw [← argsText_congr (hframe caller hc hl)]
      exact hempty
    · obtain rfl : q = q' := Option.some.inj (hfree.symm.trans hq')
      have hown := hown q hq ((hlive q).mpr (Or.inl rfl)) (Function.update_self _ _ _)
      simp only [Function.update_self, htext] at hown
      by_cases hnone : ownText command = []
      · exact Or.inl hnone
      · rw [if_neg hnone] at hown
        exact Or.inr (append_drop_eq_self_iff.mp hown)
  · rintro ⟨hparent, hstale⟩
    -- clearing an empty buffer changes nothing
    have hframe : ∀ p, p ≠ q → p ≠ sentinelProcess → k'.argsOf p = s.kernel.argsOf p := by
      intro p hpq hp
      rcases eq_or_ne p caller with rfl | hpc
      · rw [hzero, (htidy.holds p).1.eq, hparent hp]
        rfl
      · exact hothers p hpq hpc
    refine ⟨fun p hp hl hf => ?_, fun p hp hl => hframe p (fun heq => hdead (heq ▸ hl)) hp⟩
    rcases eq_or_ne p q with rfl | hpq
    · simp only [Function.update_self, htext]
      split
      next hnone => exact hnone.symm
      -- a longer copy covers all of the old text
      next hsome => exact append_drop_eq_self_iff.mpr ((hstale p hfree).resolve_left hsome)
    · simp only [Function.update_of_ne hpq] at hf ⊢
      rw [argsText_congr (hframe p hpq hp)]
      exact h p hp (((hlive p).mp hl).resolve_left hpq) hf

/-- A call does what it is for exactly if it fits. -/
theorem argsMeet_iff {c : ProcessCall} (htidy : TidyArgs s.kernel) (h : OwnArgs s)
    (hstep : argsStep img s c = some s') : ArgsMeet s c s' ↔ ArgsFit img s c s' := by
  obtain ⟨k', hk', rfl⟩ := Option.map_eq_some_iff.mp hstep
  cases effect_of_processStep hk' with
  | refused _ hexec =>
      have hload := executeLoad_of_returned hexec
      have hargs : k'.argsOf = s.kernel.argsOf := (callFrame_argsOf.executeLoad.1 _ hload).trans rfl
      have hslots : k'.slots = s.kernel.slots := (callFrame_slots.executeLoad.1 _ hload).trans rfl
      simp only [ArgsMeet, ArgsFit, ArgsRun.record, hexec, iff_true]
      exact ⟨h.of_same hargs (fun p _ hl => live_of_slots hslots hl) rfl fun _ hf => hf,
        fun p _ _ => congrFun hargs p⟩
  | started hcaller hexec =>
      simp only [ArgsMeet, ArgsFit, ArgsRun.record, hexec]
      exact argsMeet_started_iff htidy h hcaller hexec
  | @getargs caller buf nbytes hcaller =>
      have hslots : (getargs (s.kernel.enter caller) buf nbytes).kernel.slots = s.kernel.slots :=
        slots_getargs (s.kernel.enter caller) buf nbytes
      have hlive : ∀ p, p ≠ sentinelProcess →
          (getargs (s.kernel.enter caller) buf nbytes).kernel.Live p → s.kernel.Live p :=
        fun p _ hl => live_of_slots hslots hl
      simp only [ArgsMeet, ArgsFit, iff_true]
      rcases getargs_enter_cases htidy caller buf nbytes with
        ⟨hexit, hargs⟩ | ⟨hexit, hstores, hargs⟩
      · have hne : (Exit.returned (-1)) ≠ .returned 0 := by decide
        -- a refused call stores nothing and clears nothing
        simp only [ArgsRun.record, hexit, if_neg hne]
        exact ⟨h.of_same hargs hlive rfl fun _ hf => hf, fun _ heq => absurd heq hne⟩
      · simp only [ArgsRun.record, hexit, if_true]
        constructor
        · intro p hp hl hf
          -- the caller has fetched its arguments, and of the other buffers none has changed
          rcases eq_or_ne p caller with rfl | hpc
          · simp only [Function.update_self, Bool.true_eq_false] at hf
          · simp only [Function.update_of_ne hpc] at hf
            have hsame := (congrFun hargs p).trans (Function.update_of_ne hpc _ _)
            rw [argsText_congr hsame]
            exact h p hp (hlive p hp hl) hf
        · intro hf _
          rw [hstores, h caller hcaller.1 hcaller.2 hf]
  | @halt caller hcaller =>
      refine iff_of_true ⟨h.of_same (argsOf_halt _) (fun p _ hl => ?_) rfl fun _ hf => hf,
        trivial⟩ trivial
      -- the process that ends is no longer live, so nothing is asked of its buffer
      have hpid : (halted (halt (s.kernel.enter caller))).slots.1 p ≠ -1 := hl
      rw [slots_halt] at hpid
      by_cases hpc : p = caller
      · refine absurd ?_ hpid
        rw [hpc]
        exact Function.update_self _ _ _
      · have hsame := Function.update_of_ne hpc (-1) (s.kernel.enter caller).slots.1
        exact fun hfree => hpid (hsame.trans hfree)
  | interrupts =>
      exact iff_of_true ⟨h.of_same rfl (fun _ _ hl => hl) rfl fun _ hf => hf, trivial⟩ trivial

end Steps

/-! ## Runs -/

/-- The buffers before the first program. -/
theorem tidyArgs_boot (espBoot : Word) : TidyArgs (bootKernel espBoot) :=
  fun _ => ⟨[], holds_nil 0, by decide⟩

theorem ownArgs_boot (espBoot : Word) : OwnArgs (bootArgs espBoot) := by
  intro p _ _ _
  exact argsText_of_holds (t := []) (holds_nil 0) (by decide)

/-- In every run from boot, every call does what it is for exactly if every call fits. -/
theorem allSteps_argsMeet_iff (img : FsImage) (espBoot : Word) (calls : List ProcessCall) :
    AllSteps (argsStep img) ArgsMeet (bootArgs espBoot) calls ↔
      AllSteps (argsStep img) (ArgsFit img) (bootArgs espBoot) calls := by
  have hkeep : ∀ s c s', TidyArgs s.kernel ∧ OwnArgs s → argsStep img s c = some s' →
      ArgsFit img s c s' → TidyArgs s'.kernel ∧ OwnArgs s' := by
    rintro s c s' ⟨htidy, hown⟩ hstep hfit
    have hmeet := (argsMeet_iff htidy hown hstep).mpr hfit
    obtain ⟨k', hk', rfl⟩ := Option.map_eq_some_iff.mp hstep
    refine ⟨?_, hmeet.1⟩
    have hkernel : (s.record img c k').kernel = k' := by
      cases c with
      | execute caller command res frame =>
          simp only [ArgsRun.record]
          split <;> rfl
      | getargs caller buf nbytes =>
          simp only [ArgsRun.record]
          split <;> rfl
      | halt caller => rfl
      | interrupts sched terms kbd video => rfl
    rw [hkernel]
    exact htidy.step hk'
  have hiff : ∀ s c s', TidyArgs s.kernel ∧ OwnArgs s → argsStep img s c = some s' →
      (ArgsMeet s c s' ↔ ArgsFit img s c s') :=
    fun _ _ _ hInv hstep => argsMeet_iff hInv.1 hInv.2 hstep
  exact allSteps_iff_of_invariant hiff hkeep calls
    ⟨tidyArgs_boot espBoot, ownArgs_boot espBoot⟩

/-- The shell runs `ls abc`, which does not ask for its arguments, and then `ls x`. -/
def staleArgsCalls : List ProcessCall :=
  [.execute sentinelProcess (some shellName) emptyResidue ⟨0x7FFFB0, 0x7F6300⟩,
    .execute 1 (some (lsName ++ [32, 97, 98, 99])) emptyResidue ⟨0x7F7F00, 0x7EE200⟩, .halt 2,
    .execute 1 (some (lsName ++ [32, 120])) emptyResidue ⟨0x7F7F00, 0x7EE200⟩]

/-- The second `ls` has the arguments `xbc`. -/
theorem not_allSteps_argsMeet_staleArgs :
    ¬ AllSteps (argsStep shellImage) ArgsMeet (bootArgs 0x7FFFC0) staleArgsCalls := by
  intro h
  have hfinal : (runFrom (argsStep shellImage) (bootArgs 0x7FFFC0) staleArgsCalls).map
      (fun s => (decide (s.kernel.Live 2), s.fetched 2, s.kernel.argsText 2, s.own 2)) =
        some (true, false, [120, 98, 99], [120]) := by decide +kernel
  obtain ⟨s, hrun, hs⟩ := Option.map_eq_some_iff.mp hfinal
  have hown : OwnArgs s :=
    invariant_of_allSteps (fun _ _ _ _ _ hmeet => hmeet.1) (ownArgs_boot 0x7FFFC0) h hrun
  obtain ⟨hl, hf, htext, hcommand⟩ : decide (s.kernel.Live 2) = true ∧ s.fetched 2 = false ∧
      s.kernel.argsText 2 = [120, 98, 99] ∧ s.own 2 = [120] := by simpa using hs
  have heq := hown 2 (by decide) (of_decide_eq_true hl) hf
  rw [htext, hcommand] at heq
  exact absurd heq (by decide)

/-! ## `clear_args` -/

/-- `n` characters, and then nothing but `NUL` bytes up to the end of the buffer. -/
structure RunOfChars (args : Nat → UInt8) (n : Nat) : Prop where
  inside : n < argsBufferSize
  chars : ∀ i, i < n → args i ≠ 0
  nuls : ∀ i, n ≤ i → i < argsBufferSize → args i = 0

section ClearArgs

variable {k : Kernel}

theorem TidyArgs.runOfChars (h : TidyArgs k) (p : Pid) :
    RunOfChars (k.argsOf p) (k.argsText p).length := by
  obtain ⟨hold, hlen⟩ := h.holds p
  refine ⟨lt_trans hlen (by decide), fun i hi hzero => ?_, fun i hi _ => ?_⟩
  · rw [hold.eq] at hzero
    simp only [List.getD_eq_getElem _ _ hi] at hzero
    exact hold.clean (hzero ▸ List.getElem_mem hi)
  · rw [hold.eq]
    exact List.getD_eq_default _ _ hi

/-- `strlen` stops at the first `NUL`, inside the buffer. -/
theorem RunOfChars.strlenFrom_eq {args : Nat → UInt8} {n : Nat} (h : RunOfChars args n) :
    strlenFrom args argsBufferSize 0 = some n :=
  Ece391Os.strlenFrom_eq (Nat.zero_le n) (by rw [Nat.zero_add]; exact h.inside)
    (fun j _ hj => h.chars j hj) (h.nuls n le_rfl h.inside)

/-- It is the length that `getargs` computes. -/
theorem RunOfChars.strlen_eq {args : Nat → UInt8} {n : Nat} (h : RunOfChars args n) :
    CString.strlen ((List.range argsBufferSize).map args) = n := by
  rw [CString.strlen_eq_length_text]
  have hread : (read 0 argsBufferSize args).length = n :=
    length_read_iff.mpr ⟨le_of_lt h.inside, h.chars, h.nuls n le_rfl⟩
  exact hread

/-- The loop that stops at the first `NUL` empties a tidy buffer, and touches no other. -/
theorem TidyArgs.clearArgs_eq (h : TidyArgs k) (p : Pid) :
    (clearArgs (k.runAs p)).argsOf = Function.update k.argsOf p fun _ => 0 := by
  obtain ⟨hold, hlen⟩ := h.holds p
  rw [argsOf_clearArgs]
  exact congrArg (Function.update k.argsOf p)
    (holds_clearArgsFrom hold (lt_trans hlen (by decide)))

/-- In every state that a run from boot reaches, the argument buffer of every process is a run of
characters followed by `NUL` bytes only. So the `strlen` of `getargs` ends inside the buffer, and
`clear_args` leaves the whole buffer of the current process zero. -/
theorem clearArgs_of_run {img : FsImage} {espBoot : Word} {calls : List ProcessCall}
    (hrun : runFrom (processStep img) (bootKernel espBoot) calls = some k) (p : Pid) :
    (∃ n, RunOfChars (k.argsOf p) n ∧ strlenFrom (k.argsOf p) argsBufferSize 0 = some n ∧
        CString.strlen ((List.range argsBufferSize).map (k.argsOf p)) = n) ∧
      ∀ i, i < argsBufferSize → (clearArgs (k.runAs p)).argsOf p i = 0 := by
  have htidy : TidyArgs k :=
    invariant_of_runFrom (fun _ _ _ h hstep => h.step hstep) (tidyArgs_boot espBoot) hrun
  have hshape := htidy.runOfChars p
  refine ⟨⟨_, hshape, hshape.strlenFrom_eq, hshape.strlen_eq⟩, fun i _ => ?_⟩
  rw [htidy.clearArgs_eq, Function.update_self]

/-- The kernel with the arguments `xbc` in the buffer of the second `ls`. -/
def staleArgsKernel : Kernel :=
  (runFrom (processStep shellImage) (bootKernel 0x7FFFC0) staleArgsCalls).get (by decide +kernel)

/-- They are cleared as well. -/
theorem clearArgs_of_run_staleArgs :
    (∃ n, RunOfChars (staleArgsKernel.argsOf 2) n ∧
      strlenFrom (staleArgsKernel.argsOf 2) argsBufferSize 0 = some n ∧
      CString.strlen ((List.range argsBufferSize).map (staleArgsKernel.argsOf 2)) = n) ∧
      ∀ i, i < argsBufferSize → (clearArgs (staleArgsKernel.runAs 2)).argsOf 2 i = 0 :=
  clearArgs_of_run (Option.some_get _).symm 2

end ClearArgs

end Ece391Os
