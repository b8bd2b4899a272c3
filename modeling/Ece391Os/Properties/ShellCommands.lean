import Ece391Os.Model.UserPrograms
import Ece391Os.Properties.CatAndLs
import Ece391Os.Properties.FailedExecute

/-!
# The shell

The shell prompts, reads a line, executes it and prints a message for the value with which
`execute` comes back, until a line is `exit`. While a command runs, the shell is in `execute`; it
has its console back afterwards, whether the command was refused or a program was started, because
`execute` closes the descriptor that it opens in the table of its caller.
-/

set_option autoImplicit false

namespace Ece391Os

open Interaction Program

/-! ## Comparing strings -/

section Strings

variable {b c : Buffer} {t u : List UInt8}

theorem Buffer.Holds.byte_eq (h : b.Holds t) {i : Nat} (hi : i ≤ t.length) :
    b.bytes i = t.getD i 0 := by
  rcases Nat.lt_or_eq_of_le hi with hlt | rfl
  · exact h.chars i hlt
  · rw [h.nul, List.getD_eq_default _ _ (Nat.le_refl _)]

theorem Buffer.Holds.eq_length (h : b.Holds t) {i : Nat} (hi : i ≤ t.length)
    (hzero : b.bytes i = 0) : i = t.length := by
  by_contra hne
  exact h.ne_zero (by omega) hzero

/-- `ece391_strcmp` returns `0` exactly for equal strings. -/
theorem strcmpLoop_eq (hb : b.Holds t) (hc : c.Holds u) {fuel i : Nat} (hit : i ≤ t.length)
    (hiu : i ≤ u.length) (hsame : t.take i = u.take i) (hfuel : t.length < i + fuel) :
    ∃ r, strcmpLoop b c fuel i = some r ∧ (r = 0 ↔ t = u) := by
  induction fuel generalizing i with
  | zero => omega
  | succ fuel ih =>
      have hbi := hb.inside
      have hci := hc.inside
      rw [strcmpLoop, Buffer.load_of_lt (by omega), Buffer.load_of_lt (by omega)]
      simp only [Option.bind_eq_bind, Option.bind_some]
      by_cases heq : b.bytes i = c.bytes i
      · rw [if_pos heq]
        by_cases hzero : b.bytes i = 0
        · -- both strings end here
          rw [if_pos hzero]
          have ht : i = t.length := hb.eq_length hit hzero
          have hu : i = u.length := hc.eq_length hiu (heq ▸ hzero)
          have htu : t = u := by
            rwa [List.take_of_length_le (by omega), List.take_of_length_le (by omega)] at hsame
          exact ⟨0, rfl, iff_of_true rfl htu⟩
        · rw [if_neg hzero]
          have hlt : i < t.length := by
            by_contra hge
            obtain rfl : i = t.length := by omega
            exact hzero hb.nul
          have hltu : i < u.length := by
            by_contra hge
            obtain rfl : i = u.length := by omega
            exact hzero (heq.trans hc.nul)
          apply ih hlt hltu _ (by omega)
          have hchar : t[i] = u[i] := by
            rw [hb.byte_eq hit, hc.byte_eq hiu, List.getD_eq_getElem _ _ hlt,
              List.getD_eq_getElem _ _ hltu] at heq
            exact heq
          rw [List.take_succ_eq_append_getElem hlt, List.take_succ_eq_append_getElem hltu, hsame,
            hchar]
      · rw [if_neg heq]
        refine ⟨_, rfl, iff_of_false (fun hzero => heq ?_) ?_⟩
        · exact UInt8.toNat_inj.mp (by omega)
        · rintro rfl
          exact heq ((hb.byte_eq hit).trans (hc.byte_eq hiu).symm)

theorem strcmp_eq (hb : b.Holds t) (hc : c.Holds u) :
    ∃ r, ece391Strcmp b c = some r ∧ (r = 0 ↔ t = u) :=
  strcmpLoop_eq hb hc (Nat.zero_le _) (Nat.zero_le _) rfl (by rw [Nat.zero_add]; exact hb.inside)

end Strings

/-! ## `execute` and the table of its caller -/

/-- Descriptor `0` is the keyboard, and no file, directory or clock is open. -/
structure OnlyConsole (fds : FdTable) : Prop where
  stdin : (fds 0).fileOperationsPointer = some .stdin
  in_use : ¬ (fds 0).Free
  closed : ∀ i : Fin 8, 2 ≤ i → (fds i).Free

section Caller

variable {img : FsImage} {res : Residue} {frame : ExecuteFrame} {k k' : Kernel} {p : Pid}

theorem OnlyConsole.of_same {fds fds' : FdTable} (h : OnlyConsole fds)
    (hsame : ∀ i, (fds i).Same (fds' i)) : OnlyConsole fds' := by
  have hzero : fds' 0 = fds 0 := (FdBlock.same_iff_of_in_use (Or.inl h.in_use)).mp (hsame 0)
  refine ⟨?_, ?_, fun i hi => ?_⟩
  · rw [hzero]
    exact h.stdin
  · rw [hzero]
    exact h.in_use
  · rcases hsame i with ⟨-, hfree⟩ | heq
    · exact hfree
    · rw [heq]
      exact h.closed i hi

theorem OnlyConsole.room {fds : FdTable} (h : OnlyConsole fds) : Room fds :=
  ⟨2, le_rfl, h.closed 2 le_rfl⟩

/-- A number that names a descriptor by chance does no harm. -/
theorem OnlyConsole.harmless (h : OnlyConsole k.fdTable) (hslots : ConsoleSlots k) (i : Fin 8) :
    SlotHarmless img res k i := by
  rcases lt_or_ge i 2 with hlt | hi
  · have hpointer : (k.fdTable i).fileOperationsPointer = some .stdin ∨
        (k.fdTable i).fileOperationsPointer = some .stdout := by
      have hall : ∀ j : Fin 8, j < 2 → j = 0 ∨ j = 1 := by decide
      rcases hall i hlt with rfl | rfl
      · exact Or.inl h.stdin
      · exact Or.inr (hslots.one k.procs.currentPid).stdout
    rcases hpointer with hop | hop
    · simp only [SlotHarmless, hop]
      exact Or.inl hlt
    · simp only [SlotHarmless, hop]
      exact Or.inl hlt
  · have hprivate := hslots.behind k.procs.currentPid i hi
    cases hop : (k.fdTable i).fileOperationsPointer with
    | none => simp only [SlotHarmless, hop]
    | some op =>
        cases op with
        | stdin => exact absurd hop hprivate.1
        | stdout => exact absurd hop hprivate.2
        | file =>
            simp only [SlotHarmless, hop]
            exact Or.inl (h.closed i hi)
        | dir =>
            simp only [SlotHarmless, hop]
            exact Or.inl (h.closed i hi)
        | rtc =>
            simp only [SlotHarmless, hop]
            exact Or.inl (h.closed i hi)

/-- What `execute` opens, it closes again. -/
theorem OnlyConsole.openReadClose (h : OnlyConsole k.fdTable) (hslots : ConsoleSlots k)
    (buf : Word) (word : CString) (q : Pid) (i : Fin 8) :
    (k.fdTableOf q i).Same ((Ece391Os.openReadClose img res buf k word).fdTableOf q i) := by
  cases hfound : readDentryByName img word with
  | none =>
      rw [openReadClose_of_refused (sysOpen_of_not_found hfound)]
      exact FdBlock.same_refl _
  | some dentry =>
      by_cases hrtc : dentry.fileType = typeRtc
      · have hnone : ¬ HasRtc k.fdTable := fun ⟨j, hj, hopen, _⟩ => hopen (h.closed j hj)
        obtain ⟨fd, k₁, hopened, -⟩ := opened_rtc img res hfound hrtc hnone
        rw [openReadClose_of_opened hopened.ret]
        exact (openReadClose_same_iff hopened.only (Or.inr (by rw [hopened.block]))
          (by rw [hopened.block]) hopened.slot).mpr (Or.inl h.room) q i
      · by_cases hdir : dentry.fileType = typeDir
        · exact (traceless_directory hfound hdir).1 q i
        · by_cases hfile : dentry.fileType = typeFile
          · exact ((traceless_file_iff hfound hfile).mpr (Or.inl h.room)).1 q i
          · exact ((traceless_stray_iff hfound hrtc hdir hfile).mpr
              fun j _ => h.harmless hslots j).1 q i

/-- The first part of `execute`, whether it refuses the command or loads the program. -/
theorem OnlyConsole.executeLoad (h : OnlyConsole k.fdTable) (hslots : ConsoleSlots k)
    {command : Option CString} :
    (∀ v, executeLoad img res frame k command = .returned v k' →
      OnlyConsole (k'.fdTableOf k.procs.currentPid)) ∧
    ∀ buf, executeLoad img res frame k command = .loaded buf k' →
      OnlyConsole (k'.fdTableOf k.procs.currentPid) := by
  have hown : OnlyConsole (k.fdTableOf k.procs.currentPid) := h
  have hopened : ∀ cmd, OnlyConsole
      ((Ece391Os.openReadClose img res frame.buf k (commandWord cmd)).fdTableOf
        k.procs.currentPid) :=
    fun cmd => hown.of_same fun i => h.openReadClose hslots frame.buf (commandWord cmd) _ i
  constructor
  · intro v hload
    cases command with
    | none =>
        rw [← (LoadResult.returned.inj hload).2]
        exact hown
    | some command =>
        cases effect_of_executeLoad hload with
        | full => exact hown
        | long => exact hown
        | notOpened _ _ hopen =>
            have hall := hopened command
            rw [Ece391Os.openReadClose] at hall
            rwa [if_pos hopen] at hall
        | notExecutable _ _ hopen =>
            have hall := hopened command
            rw [Ece391Os.openReadClose] at hall
            rwa [if_neg hopen] at hall
  · intro buf hload
    cases effect_of_executeLoad hload with
    | @loaded command _ _ _ hopen _ =>
        have hall := hopened command
        rw [Ece391Os.openReadClose] at hall
        rwa [if_neg hopen] at hall

end Caller

/-! ## A command that `execute` can load -/

/-- The entry that a command names, if there is one, is of a type that `open` knows, and the first
bytes of a regular file are mapped, with the one behind its end. -/
def Loadable (img : FsImage) (command : CString) : Prop :=
  ∀ dentry ∈ readDentryByName img (commandWord command),
    dentry.fileType = typeRtc ∨ dentry.fileType = typeDir ∨
      dentry.fileType = typeFile ∧ ∀ q, q < executeLength.toNat →
        q ≤ (img.nodeList dentry.inodeNum).bLength.toNat →
          (fileByte img (img.nodeList dentry.inodeNum) q).isSome

section Loadable

variable {img : FsImage} {res : Residue} {frame : ExecuteFrame} {k : Kernel} {fd : Fin 8}
  {buf : Word} {command : CString}

theorem read_file_returns {inode : Word} (hblock : k.fdTable fd = ⟨some .file, inode, 0, 1⟩)
    (hmap : ∀ q, q < executeLength.toNat → q ≤ (img.nodeList inode).bLength.toNat →
      (fileByte img (img.nodeList inode) q).isSome) :
    ∃ v, (sysRead img res k fd.val (some buf) executeLength).exit = .returned v := by
  rw [sysRead_file_eq (by simp) hblock rfl (by decide : (1 : Word) ≠ freeFlags)]
  by_cases hinode : inode > img.inodes
  · exact ⟨-1, by simp only [fileRead, readData, if_pos hinode]⟩
  · by_cases hn : (img.nodeList inode).bLength = 0
    · exact ⟨0, by simp only [fileRead, readData, if_neg hinode, if_pos hn]⟩
    · have hlen : (img.nodeList inode).bLength.toNat ≠ 0 :=
        fun hzero => hn (BitVec.eq_of_toNat_eq (by simpa using hzero))
      exact (fileRead_start_stores res hinode hlen hmap).1

theorem read_dir_returns (hblock : k.fdTable fd = ⟨some .dir, 0, 0, img.numDirEntries⟩) :
    ∃ v, (sysRead img res k fd.val (some buf) executeLength).exit = .returned v := by
  rw [sysRead_driver]
  by_cases hfree : img.numDirEntries = freeFlags
  · have hdriver : k.driver fd = none := if_pos (by rw [hblock]; exact hfree)
    exact ⟨-1, by rw [hdriver]; rfl⟩
  · have hdriver : k.driver fd = some .dir := by
      rw [driver_of_in_use (by rw [hblock]; exact hfree), hblock]
    have hcli : k.cli.fdTable fd = ⟨some .dir, 0, 0, img.numDirEntries⟩ := hblock
    rw [hdriver, Option.elim_some, OpTable.read, hcli]
    by_cases hzero : img.numDirEntries = 0
    · exact ⟨0, by simp only [directoryRead, directoryLoop, hzero, true_or, if_true]⟩
    · exact (directoryRead_spec img res (by decide : 0 ≤ executeLength) rfl hzero).1

theorem read_rtc_returns {filePosition : Word}
    (hblock : k.fdTable fd = ⟨some .rtc, 0, filePosition, 1⟩) :
    ∃ v, (sysRead img res k fd.val (some buf) executeLength).exit = .returned v := by
  have hdriver : k.driver fd = some .rtc := by
    rw [driver_of_in_use (by rw [hblock]; exact (by decide : (1 : Word) ≠ freeFlags)), hblock]
  rw [sysRead_driver, hdriver]
  exact ⟨0, rfl⟩

/-- What has been opened can be read. -/
theorem Loadable.read_returns (h : Loadable img command) (res : Residue) (k : Kernel)
    (hopen : (sysOpen img res k (some (commandWord command))).1 ≠ -1) :
    ∃ v, (sysRead img res (sysOpen img res k (some (commandWord command))).2
      (sysOpen img res k (some (commandWord command))).1 (some buf) executeLength).exit =
        .returned v := by
  cases hfound : readDentryByName img (commandWord command) with
  | none => exact absurd (by rw [sysOpen_of_not_found hfound]) hopen
  | some dentry =>
      rcases h dentry hfound with hrtc | hdir | ⟨hfile, hmap⟩
      · rw [sysOpen_of_rtc hfound hrtc] at hopen ⊢
        cases hany : openSlots.any fun i => (k.cli.cli.fdTable i).isOpenRtc with
        | true => exact absurd (by simp only [rtcOpen, hany, if_true]) hopen
        | false =>
            obtain ⟨fd, hfd⟩ := exists_slotSearch_fdtSize k.cli.cli.fdTable
            simp only [rtcOpen, hany, hfd, Bool.false_eq_true, if_false]
            apply read_rtc_returns
            rw [Kernel.sti_fdTable, Kernel.setFd_fdTable, Function.update_self]
      · rw [sysOpen_of_dir hfound hdir] at hopen ⊢
        cases hfd : slotSearch (fdtSize - 1) k.cli.fdTable openSlots with
        | none => exact absurd (by simp only [directoryOpen, hfound, hfd]) hopen
        | some fd =>
            simp only [directoryOpen, hfound, hfd]
            apply read_dir_returns
            rw [Kernel.setFd_fdTable, Function.update_self]
      · rw [sysOpen_of_file hfound hfile]
        obtain ⟨fd, hfd⟩ := exists_slotSearch_fdtSize k.cli.fdTable
        simp only [fileOpen, hfound, hfd]
        apply read_file_returns _ hmap
        rw [Kernel.setFd_fdTable, Function.update_self]

/-- `execute` of such a command refuses it or starts a program. -/
theorem Loadable.execute_ne_stuck (h : Loadable img command) (haccounted : Accounted k) :
    execute img res frame k.cli (some command) ≠ .stuck := by
  intro hstuck
  rw [execute] at hstuck
  split at hstuck
  · cases hstuck
  next hload =>
    simp only [executeLoad] at hload
    split at hload
    · cases hload
    · split at hload
      · cases hload
      · split at hload
        · cases hload
        next hopen =>
          obtain ⟨v, hv⟩ := h.read_returns res k.cli hopen
          rw [hv] at hload
          simp only at hload
          split at hload
          · cases hload
          · cases hload
  next buf k₁ hload =>
    -- a control block is free, because the counter is below its limit
    have hserves : SlotsServe img k := haccounted.slotsServe
    obtain ⟨q, k₂, hcreate, -⟩ :=
      hserves.allocates res frame k.procs.currentPid (some command) buf k₁ hload
    simp only [executeSpawn, hcreate] at hstuck
    cases hstuck

end Loadable

/-! ## `execute` and what it comes back with -/

/-- Process `p` has executed the program on the processor. -/
structure Executing (p : Pid) (k : Kernel) : Prop extends Maintained k where
  caller : k.Live p
  ne_caller : k.procs.currentPid ≠ p
  parent : k.parent k.procs.currentPid = p
  ne_sentinel : k.procs.currentPid ≠ sentinelProcess
  live : k.Live k.procs.currentPid

/-- While a program that process `p` has executed runs, the machine makes steps with no handler of
`p` among them, and in the end the call of `p` returns. -/
def Environment.Waits (img : FsImage) (env : Environment) (p : Pid) : Prop :=
  ∀ n k, Executing p k → ∃ (rval : Int) (m m' : ExitMachine) (enabled : Bool),
    env.child n k = some (rval, m'.calls.kernel) ∧ m.calls.kernel = k ∧
      m.calls.statusReg = env.statusReg ∧ m.calls.phase p = .waiting ∧ OthersRun img p m m' ∧
        m'.calls.phase p = .returned rval enabled

/-- A call of `execute` by process `p` comes back with `rval`: the command is refused, or the
program that it has started ends with a status that AL holds as that value. -/
def ComesBack (img : FsImage) (env : Environment) (p : Pid) (command : CString) (rval : Int) :
    Prop :=
  ∃ (res : Residue) (k : Kernel), OnProcessor p k ∧
    (rval = -1 ∧ (∃ k', execute img res env.frame k (some command) = .returned rval k') ∨
      (∃ status, rval = (statusInAl env.statusReg status).toNat) ∧ ∃ n entry k₁ k',
        execute img res env.frame k (some command) = .started entry k₁ ∧
          env.child n k₁ = some (rval, k'))

theorem ComesBack.ne_exception {img : FsImage} {env : Environment} {p : Pid} {command : CString}
    {rval : Int} (h : ComesBack img env p command rval) : rval ≠ 256 := by
  obtain ⟨res, k, -, ⟨hrefused, -⟩ | ⟨⟨status, rfl⟩, -⟩⟩ := h
  · omega
  · have hlt := (statusInAl env.statusReg status).toNat_lt
    omega

/-- A value that is being handed back is a status, as AL holds it. -/
def Phase.HandsStatus (reg : ByteRegister) : Phase → Prop
  | .returned v _ => ∃ status, v = (statusInAl reg status).toNat
  | _ => True

section Status

variable {img : FsImage} {reg : ByteRegister} {m m' : ExitMachine} {p : Pid}

theorem handsStatus_update {phase : Pid → Phase} {q : Pid} {x : Phase}
    (h : (phase p).HandsStatus reg) (hx : p = q → x.HandsStatus reg) :
    (Function.update phase q x p).HandsStatus reg := by
  rcases eq_or_ne p q with rfl | hne
  · rw [Function.update_self]
    exact hx rfl
  · rw [Function.update_of_ne hne]
    exact h

/-- The register of the status, and what `p` is being handed. -/
def ExitMachine.Hands (reg : ByteRegister) (p : Pid) (m : ExitMachine) : Prop :=
  m.calls.statusReg = reg ∧ (m.calls.phase p).HandsStatus reg

/-- While `p` is in none of its handlers, all that it can be handed is the status of a program that
has ended. -/
theorem ExitMachine.Hands.step {e : ExitEvent} (h : m.Hands reg p) (hspares : m.Spares p e)
    (hstep : m.step img e = some m') : m'.Hands reg p := by
  obtain ⟨hreg, hphase⟩ := h
  cases e with
  | finish ending =>
      simp only [ExitMachine.step, ExitMachine.finish] at hstep
      split at hstep
      · cases hstep
        exact ⟨hreg, handsStatus_update hphase fun _ => trivial⟩
      · obtain ⟨arg, -, rfl⟩ := Option.map_eq_some_iff.mp hstep
        exact ⟨hreg, handsStatus_update hphase fun _ => trivial⟩
      · obtain ⟨arg, -, rfl⟩ := Option.map_eq_some_iff.mp hstep
        exact ⟨hreg, handsStatus_update hphase fun _ => trivial⟩
      · cases hstep
  | devices terms kbd video =>
      cases hstep
      exact ⟨hreg, hphase⟩
  | step e =>
      obtain ⟨c, hc, hcalls⟩ := ExitMachine.calls_of_step hstep
      rw [ExitMachine.Hands, hcalls]
      refine ⟨(CallMachine.statusReg_step hc).trans hreg, ?_⟩
      cases CallMachine.effect_of_step hc with
      | window => exact hphase
      | tick => exact hphase
      | serve => exact handsStatus_update hphase fun hp => absurd hp.symm (hspares rfl)
      | spawn =>
          exact handsStatus_update (handsStatus_update hphase fun _ => trivial) fun _ => trivial
      | haltFirst =>
          exact handsStatus_update (handsStatus_update hphase fun _ => trivial) fun _ => trivial
      | @haltChild status _ =>
          exact handsStatus_update (handsStatus_update hphase fun _ => trivial)
            fun _ => ⟨status, by rw [hreg]⟩
      | _ => exact handsStatus_update hphase fun _ => trivial

theorem OthersRun.handsStatus (h : OthersRun img p m m') (hwaiting : m.calls.phase p = .waiting) :
    (m'.calls.phase p).HandsStatus m.calls.statusReg := by
  obtain ⟨⟨events, hspares, -, hrun⟩, -⟩ := h
  have hhands : m.Hands m.calls.statusReg p := by
    refine ⟨rfl, ?_⟩
    rw [hwaiting]
    trivial
  have hkeeps : ∀ m₁ e m₂, ExitMachine.Hands m.calls.statusReg p m₁ →
      ExitMachine.step img m₁ e = some m₂ → m₁.Spares p e →
        ExitMachine.Hands m.calls.statusReg p m₂ :=
    fun _ _ _ hm hstep hspare => hm.step hspare hstep
  exact (EventRun.invariant_of_allSteps hkeeps hhands hspares hrun).2

end Status

section Execute

variable {img : FsImage} {env : Environment} {res : Residue} {frame : ExecuteFrame}
  {k k' : Kernel} {p : Pid} {v : View} {s : UserProcess}

theorem Environment.Waits.child (h : env.Waits img p) (n : Nat) (hexec : Executing p k) :
    ∃ rval k', env.child n k = some (rval, k') ∧
      (∃ status, rval = (statusInAl env.statusReg status).toNat) ∧ OnProcessor p k' ∧
        SameProcess p k k' := by
  obtain ⟨rval, m, m', enabled, hchild, rfl, hreg, hwaiting, hothers, hreturned⟩ := h n k hexec
  have hstatus := hothers.handsStatus hwaiting
  rw [hreturned, hreg] at hstatus
  exact ⟨rval, _, hchild, hstatus, hothers.onProcessor hexec.toMaintained hexec.caller⟩

/-- The caller of an `execute` that refuses the command. -/
theorem OnProcessor.returned (h : OnProcessor p k) {command : Option CString} {rval : Int}
    (hexec : execute img res frame k command = .returned rval k') : OnProcessor p k' := by
  have hload := executeLoad_of_returned hexec
  have hown := (ownSlotsOnly_executeLoad h.slots).1 rval hload
  have hcounted := callFrame_slots.executeLoad.1 rval hload
  exact ⟨⟨hown.slots, h.accounted.of_slots hcounted⟩, hown.currentPid_eq.trans h.current,
    fun hfree => h.live ((congrFun (congrArg Prod.fst hcounted) p).symm.trans hfree)⟩

/-- The caller of an `execute` that starts a program. -/
theorem OnProcessor.started (h : OnProcessor p k) (honly : OnlyConsole k.fdTable)
    {command : Option CString} {entry : Word}
    (hexec : execute img res frame k command = .started entry k') :
    Executing p k' ∧ OnlyConsole (k'.fdTableOf p) := by
  have hslots' := consoleSlots_started h.slots hexec
  obtain ⟨buf, k₁, hload, hspawn, -⟩ := executeSpawn_of_started hexec
  have hpids := congrArg Prod.fst (callFrame_slots.executeLoad.2 buf hload)
  have htable := (honly.executeLoad h.slots).2 buf hload
  rw [h.current] at htable
  have hcaller : k₁.procs.currentPid = p :=
    (callFrame_currentPid.executeLoad.2 buf hload).trans h.current
  obtain ⟨q, hs⟩ := spawns_of_executeSpawn hspawn
  obtain ⟨args, hblock, -⟩ := hs.block
  have hfree := free_of_freePid hs.free
  have hne : p ≠ q := by
    rintro rfl
    exact h.live ((congrFun hpids p).symm.trans hfree.2)
  refine ⟨⟨⟨hslots', accounted_started h.accounted hexec⟩, ?_, hs.current.trans_ne hne.symm, ?_,
    hs.current.trans_ne hfree.1, live_of_started hexec⟩, ?_⟩
  · rw [Kernel.Live, hs.others p hne]
    exact fun hfree => h.live ((congrFun hpids p).symm.trans hfree)
  · rw [hs.current, Kernel.parent, hblock]
    exact hcaller
  · rw [executeSpawn_fdTableOf hspawn, if_neg (hs.current ▸ hne)]
    exact htable

/-- `ece391_execute`: the shell has its console back afterwards. -/
theorem ensures_execute (h : Sees p v s) (hkeeps : env.Keeps p) (hwaits : env.Waits img p)
    (honly : OnlyConsole v.fds) {b : Buffer} {command : CString} (hb : b.Holds command)
    (hloads : Loadable img command) :
    Ensures (answer img env) (ece391Execute b) s fun rval s' =>
      ComesBack img env p command rval ∧ ∃ fds args, OnlyConsole fds ∧
        Sees p { v with
          fds := fds
          args := args
          executed := v.executed ++ [command] } s' := by
  have hnot : ∀ res, execute img res env.frame (env.between s.calls s.kernel).cli (some command) ≠
      .stuck := fun res => hloads.execute_ne_stuck (h.enter hkeeps).accounted
  have hin := (h.enter hkeeps).cli
  generalize hk : (env.between s.calls s.kernel).cli = k at hin hnot
  generalize hres : { env.res s.calls with line := env.typed s.reads } = res
  have honly' : OnlyConsole k.fdTable := hin.fdTable.symm ▸ honly
  have hexecuted : s.executed ++ [command] = v.executed ++ [command] := by rw [h.executed]
  apply Ensures.require hb.string
  cases hexec : execute img res env.frame k (some command) with
  | stuck => exact absurd hexec (hnot res)
  | returned rval k' =>
      have hanswer : answer img env s (.execute command) = some (⟨rval, []⟩,
          ({ s with executed := s.executed ++ [command] } : UserProcess).after k') := by
        simp only [answer, hk, hres, hexec]
      have hvalue := executeLoad_value (executeLoad_of_returned hexec)
      have hp' := hin.toOnProcessor.returned hexec
      have htable := (honly'.executeLoad hin.slots).1 rval (executeLoad_of_returned hexec)
      rw [hin.current] at htable
      apply (ensures_of_answer hanswer).seq
      rintro r s' ⟨rfl, rfl⟩
      exact ensures_pure ⟨⟨res, k, hin.toOnProcessor, Or.inl ⟨hvalue, k', hexec⟩⟩,
        k'.fdTableOf p, k'.argsOf p, htable, hp', rfl, rfl, h.reads, h.written, hexecuted⟩
  | started entry k₁ =>
      obtain ⟨hexecuting, htable⟩ := hin.toOnProcessor.started honly' hexec
      obtain ⟨rval, k', hchild, hstatus, hp', hsame⟩ := hwaits.child s.calls hexecuting
      have hanswer : answer img env s (.execute command) = some (⟨rval, []⟩,
          ({ s with executed := s.executed ++ [command] } : UserProcess).after k') := by
        simp only [answer, hk, hres, hexec, hchild, Option.map_some]
      have htable' : OnlyConsole (k'.fdTableOf p) := by
        rw [Kernel.fdTableOf, hsame.block]
        exact htable
      apply (ensures_of_answer hanswer).seq
      rintro r s' ⟨rfl, rfl⟩
      exact ensures_pure ⟨⟨res, k, hin.toOnProcessor,
        Or.inr ⟨hstatus, _, entry, k₁, k', hexec, hchild⟩⟩,
        k'.fdTableOf p, k'.argsOf p, htable', hp', rfl, rfl, h.reads, h.written, hexecuted⟩

end Execute

/-! ## The loop -/

/-- The prompt, and the line that ends the shell. -/
def promptText : List UInt8 := bytesOf "391OS> "
def exitText : List UInt8 := bytesOf "exit"

/-- The message for the value that a command comes back with. -/
def messageText (rval : Int) : List UInt8 :=
  if rval = -1 then bytesOf "no such command\n"
  else if rval = 256 then bytesOf "program terminated by exception\n"
  else if rval ≠ 0 then bytesOf "program terminated abnormally\n"
  else []

/-- The reads of the console deliver these lines, from read number `reads` on. -/
def Environment.Types (env : Environment) (reads : Nat) (lines : List (List UInt8)) : Prop :=
  ∀ i t, lines[i]? = some t → TypedLine (env.typed (reads + i)) t

/-- The shell prints `out` in the round in which it reads the line `t`. The message for an exception
is never printed: of the 256 that an exception handler passes to `halt`, one byte is left. -/
def LinePrinted (img : FsImage) (env : Environment) (p : Pid) (t out : List UInt8) : Prop :=
  if t = [] then out = promptText
  else ∃ rval, ComesBack img env p t rval ∧ rval ≠ 256 ∧ out = promptText ++ messageText rval

/-- The rounds of the shell: the lines read so far have been executed, the others are to come. -/
def ShellAt (img : FsImage) (env : Environment) (p : Pid) (v : View) (lines : List (List UInt8))
    (buf : Buffer) (s : UserProcess) : Prop :=
  buf.size = bufsize ∧ ∃ passed rest outs fds args, lines = passed ++ rest ∧
    List.Forall₂ (LinePrinted img env p) passed outs ∧ OnlyConsole fds ∧
    Sees p ⟨fds, args, v.reads + passed.length, v.written ++ outs.flatten,
      v.executed ++ passed.filter (· ≠ [])⟩ s

/-- What the shell has done in the end. -/
def ShellDone (img : FsImage) (env : Environment) (p : Pid) (v : View) (lines : List (List UInt8))
    (status : Int) (s : UserProcess) : Prop :=
  status = 0 ∧ s.executed = v.executed ++ lines.filter (· ≠ []) ∧
    ∃ outs, List.Forall₂ (LinePrinted img env p) lines outs ∧
      s.written = v.written ++ outs.flatten ++ promptText

section Loop

variable {img : FsImage} {env : Environment} {p : Pid} {v : View} {s : UserProcess}
  {lines : List (List UInt8)} {buf : Buffer}

theorem ensures_shellMessage (h : Sees p v s) (hkeeps : env.Keeps p) (rval : Int) :
    Ensures (answer img env) (shellMessage rval) s fun _ s' =>
      Sees p { v with written := v.written ++ messageText rval } s' := by
  rw [shellMessage, messageText]
  split
  · exact ensures_fdputs h hkeeps (literal_holds (by decide))
  · split
    · exact ensures_fdputs h hkeeps (literal_holds (by decide))
    · split
      · exact ensures_fdputs h hkeeps (literal_holds (by decide))
      · apply ensures_pure
        rw [List.append_nil]
        exact h

theorem Buffer.Filled.left {b b' : Buffer} {i n : Nat} {t u : List UInt8}
    (h : b.Filled i n (t ++ u) b') : b.Filled i n t b' where
  size_eq := h.size_eq
  text_eq := by
    intro j hj
    rw [h.text_eq j (by rw [List.length_append]; omega), List.getD_append _ _ _ _ hj]
  outside := h.outside

/-- The part of a round in which the line is read: the array holds it afterwards, without its
newline. -/
theorem ensures_readLine (h : Sees p v s) (hkeeps : env.Keeps p) (honly : OnlyConsole v.fds)
    {t : List UInt8} (hline : TypedLine (env.typed v.reads) t) (hsize : buf.size = bufsize)
    {α : Type} {next : Buffer → User α} {Q : α → UserProcess → Prop} {failed : User α}
    (hnext : ∀ b s', b.size = bufsize → b.Holds t → Sees p { v with reads := v.reads + 1 } s' →
      Ensures (answer img env) (next b) s' Q) :
    Ensures (answer img env) (do
      let (cnt, buf) ← ece391Read 0 buf 0 (bufsize - 1)
      if cnt = -1 then failed
      else
        let cnt ← if cnt > 0 then do
            let c ← require (buf.load (cnt - 1))
            pure (if c = 10 then cnt - 1 else cnt)
          else pure cnt
        let buf ← require (buf.store cnt 0)
        next buf) s Q := by
  have hinside := hline.inside
  have hmax : maxBufferSize = 128 := rfl
  have hbuf : bufsize = 1024 := rfl
  apply (ensures_read_console h hkeeps honly.stdin honly.in_use hline (b := buf) (n := 1023)
    (by omega) (by omega)).seq
  rintro ⟨cnt, b⟩ s₁ ⟨rfl, hfilled, hsees⟩
  have hlen : (t ++ [10]).length = t.length + 1 := List.length_append
  have hsize' : b.size = bufsize := hfilled.size_eq.trans hsize
  have hlast : b.bytes t.length = 10 := by
    have hbyte := hfilled.text_eq t.length (by omega)
    rwa [Nat.zero_add, List.getD_append_right _ _ _ _ (Nat.le_refl _), Nat.sub_self] at hbyte
  have hload : b.load ((t.length : Int) + 1 - 1) = some 10 := by
    rw [add_sub_cancel_right, Buffer.load_of_lt (by omega), hlast]
  have hholds := hfilled.left.terminated hline.no_nul (by omega)
  simp only [if_neg (by omega : ¬ (t.length : Int) + 1 = -1),
    if_pos (by omega : (t.length : Int) + 1 > 0)]
  apply Ensures.require hload
  apply Ensures.bind
  apply ensures_pure
  rw [if_pos rfl, add_sub_cancel_right]
  apply Ensures.require (Buffer.store_of_lt (by omega) 0)
  exact hnext _ _ hsize' hholds hsees

/-- One more line has been read, and `out` has been printed for it. -/
theorem shellAt_snoc {passed rest outs : List (List UInt8)} {t out : List UInt8}
    {fds : FdTable} {args : Nat → UInt8} (hsplit : lines = passed ++ t :: rest)
    (hprinted : List.Forall₂ (LinePrinted img env p) passed outs)
    (hout : LinePrinted img env p t out) (honly : OnlyConsole fds) (hsize : buf.size = bufsize)
    (hsees : Sees p ⟨fds, args, v.reads + passed.length + 1, v.written ++ outs.flatten ++ out,
      v.executed ++ passed.filter (· ≠ []) ++ [t].filter (· ≠ [])⟩ s) :
    ShellAt img env p v lines buf s := by
  refine ⟨hsize, passed ++ [t], rest, outs ++ [out], fds, args, ?_, ?_, honly, ?_⟩
  · rw [hsplit, List.append_assoc, List.singleton_append]
  · exact List.rel_append hprinted (List.Forall₂.cons hout List.Forall₂.nil)
  · rw [List.length_append, List.length_singleton, ← Nat.add_assoc, List.flatten_append,
      List.flatten_singleton, ← List.append_assoc, List.filter_append, ← List.append_assoc]
    exact hsees

/-- The step lemma of the loop. -/
theorem shellRound_spec (hkeeps : env.Keeps p) (hwaits : env.Waits img p)
    (htypes : env.Types v.reads (lines ++ [exitText])) (hexit : exitText ∉ lines)
    (hloads : ∀ t ∈ lines, Loadable img t)
    (h : ShellAt img env p v lines buf s) :
    Ensures (answer img env) (shellRound buf) s
      (AfterRound (ShellAt img env p v lines) (fun _ s => v.reads + lines.length + 1 - s.reads)
        (ShellDone img env p v lines) (v.reads + lines.length + 1 - s.reads)) := by
  obtain ⟨hsize, passed, rest, outs, fds, args, hsplit, hprinted, honly, hsees⟩ := h
  have hreads := hsees.reads
  have hlength : lines.length = passed.length + rest.length := by
    rw [hsplit, List.length_append]
  apply (ensures_fdputs hsees hkeeps (literal_holds (by decide))).seq
  intro _ s₁ hsees₁
  have hprompt : v.written ++ outs.flatten ++ bytesOf "391OS> " =
      v.written ++ outs.flatten ++ promptText := rfl
  rw [hprompt] at hsees₁
  have hlines : lines ++ [exitText] = passed ++ (rest ++ [exitText]) := by
    rw [hsplit, List.append_assoc]
  rw [hlines] at htypes
  cases rest with
  | nil =>
      -- all lines have been executed, so the next one is `exit`
      have hline : TypedLine (env.typed (v.reads + passed.length)) exitText :=
        htypes passed.length exitText (by simp)
      apply ensures_readLine hsees₁ hkeeps honly hline hsize
      intro b s₂ hb hholds hsees₂
      obtain ⟨r, hcmp, hr⟩ := strcmp_eq hholds (literal_holds (s := "exit") (by decide))
      apply Ensures.require hcmp
      rw [if_pos (hr.mpr rfl)]
      rw [List.append_nil] at hsplit
      apply ensures_pure
      exact ⟨rfl, hsplit ▸ hsees₂.executed, outs, hsplit ▸ hprinted, hsees₂.written⟩
  | cons t rest =>
      have hline : TypedLine (env.typed (v.reads + passed.length)) t :=
        htypes passed.length t (by simp)
      have hmem : t ∈ lines := hsplit ▸ List.mem_append_right passed List.mem_cons_self
      apply ensures_readLine hsees₁ hkeeps honly hline hsize
      intro b s₂ hb hholds hsees₂
      obtain ⟨r, hcmp, hr⟩ := strcmp_eq hholds (literal_holds (s := "exit") (by decide))
      have hne : t ≠ exitText := fun heq => hexit (heq ▸ hmem)
      apply Ensures.require hcmp
      rw [if_neg fun hzero => hne (hr.mp hzero)]
      have hload : b.load 0 = some (b.bytes 0) := Buffer.load_of_lt (hb ▸ (by decide : 0 < bufsize))
      have hless : ∀ s' : UserProcess, s'.reads = v.reads + passed.length + 1 →
          v.reads + lines.length + 1 - s'.reads < v.reads + lines.length + 1 - s.reads := by
        intro s' hs'
        rw [hs', hreads, hlength, List.length_cons]
        simp only
        omega
      apply Ensures.require hload
      by_cases hnil : t = []
      · -- an empty line is passed over
        subst hnil
        have hzero : b.bytes 0 = 0 := hholds.nul
        rw [if_pos hzero]
        apply ensures_pure
        have hout : LinePrinted img env p [] promptText := by rw [LinePrinted, if_pos rfl]
        have hnone : v.executed ++ passed.filter (· ≠ []) ++ [([] : List UInt8)].filter (· ≠ []) =
            v.executed ++ passed.filter (· ≠ []) := List.append_nil _
        exact ⟨shellAt_snoc hsplit hprinted hout honly hb (hnone ▸ hsees₂),
          hless s₂ hsees₂.reads⟩
      · -- a command: what comes back decides the message
        have hzero : b.bytes 0 ≠ 0 := hholds.ne_zero (List.length_pos_iff.mpr hnil)
        rw [if_neg hzero]
        apply (ensures_execute hsees₂ hkeeps hwaits honly hholds (hloads t hmem)).seq
        rintro rval s₃ ⟨hrval, fds', args', honly', hsees₃⟩
        apply (ensures_shellMessage hsees₃ hkeeps rval).seq
        intro _ s₄ hsees₄
        apply ensures_pure
        have hout : LinePrinted img env p t (promptText ++ messageText rval) := by
          rw [LinePrinted, if_neg hnil]
          exact ⟨rval, hrval, hrval.ne_exception, rfl⟩
        have hone : [t].filter (· ≠ []) = [t] :=
          List.filter_eq_self.mpr fun u hu => by simpa [List.mem_singleton.mp hu] using hnil
        have hseen := hsees₄
        rw [← hone, List.append_assoc _ promptText] at hseen
        exact ⟨shellAt_snoc hsplit hprinted hout honly' hb hseen, hless s₄ hsees₄.reads⟩

/-- The shell executes the lines that are not empty, in their order, and ends with status `0` when
it reads `exit`. -/
theorem ensures_shell (h : Sees p v s) (hkeeps : env.Keeps p) (hwaits : env.Waits img p)
    (honly : OnlyConsole v.fds) (htypes : env.Types v.reads (lines ++ [exitText]))
    (hexit : exitText ∉ lines)
    (hloads : ∀ t ∈ lines, Loadable img t)
    (stack : Nat → UInt8) {rounds : Nat} (hrounds : lines.length + 1 < rounds) :
    Ensures (answer img env) (shell rounds stack) s (ShellDone img env p
      { v with written := v.written ++ bytesOf "Starting 391 Shell\n" } lines) := by
  apply (ensures_fdputs h hkeeps (literal_holds (by decide))).seq
  intro _ s₁ hsees
  apply ensures_loop (ShellAt img env p
      { v with written := v.written ++ bytesOf "Starting 391 Shell\n" } lines)
    (fun _ s => v.reads + lines.length + 1 - s.reads)
  · intro b t ht
    exact shellRound_spec hkeeps hwaits htypes hexit hloads ht
  · refine ⟨rfl, [], lines, [], v.fds, v.args, rfl, List.Forall₂.nil, honly, ?_⟩
    rw [List.flatten_nil, List.append_nil, List.filter_nil, List.append_nil]
    exact hsees
  · rw [hsees.reads]
    simp only
    omega

end Loop

end Ece391Os
