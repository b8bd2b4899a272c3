import Ece391Os.Model.UserLibrary
import Ece391Os.Properties.Arguments
import Ece391Os.Properties.DescriptorTable
import Ece391Os.Properties.Listing
import Ece391Os.Properties.ProcessIsolation

/-!
# What the calls of a user program do

A process sees little of the machine: its descriptors, its arguments, and what it has read and
written so far. The `View` is that part, and a system call is a function on it. The rules here say
so for `write`, `open` and `close`, and those of `UserReading` for the calls that fill an array, in
every environment that keeps the view between two calls; the proofs about programs use them and
never look at the kernel.
-/

set_option autoImplicit false

namespace Ece391Os

open Interaction Program

/-! ## Strings in arrays -/

/-- The array begins with a text and its terminator. -/
structure Buffer.Holds (b : Buffer) (t : List UInt8) : Prop where
  inside : t.length < b.size
  chars : ∀ i, i < t.length → b.bytes i = t.getD i 0
  nul : b.bytes t.length = 0
  clean : (0 : UInt8) ∉ t

section Strings

variable {b : Buffer} {t : List UInt8}

theorem Buffer.Holds.ne_zero (h : b.Holds t) {i : Nat} (hi : i < t.length) : b.bytes i ≠ 0 := by
  rw [h.chars i hi, List.getD_eq_getElem _ _ hi]
  exact fun hzero => h.clean (hzero ▸ List.getElem_mem hi)

theorem Buffer.Holds.strlen (h : b.Holds t) : ece391Strlen b = some t.length :=
  strlenFrom_eq (Nat.zero_le _) (by rw [Nat.zero_add]; exact h.inside)
    (fun _ _ hi => h.ne_zero hi) h.nul

theorem Buffer.Holds.map_range (h : b.Holds t) : (List.range t.length).map b.bytes = t := by
  apply List.ext_getElem
  · rw [List.length_map, List.length_range]
  · intro i hi ht
    rw [List.getElem_map, List.getElem_range, h.chars i ht, List.getD_eq_getElem _ _ ht]

theorem Buffer.Holds.string (h : b.Holds t) : b.string = some t := by
  rw [Buffer.string, h.strlen, Option.map_some, h.map_range]

/-- A string without `NUL` is its own text. -/
theorem text_of_clean (hclean : (0 : UInt8) ∉ t) : CString.text t = t :=
  List.takeWhile_eq_self_iff.mpr fun _ hc => decide_eq_true fun hzero => hclean (hzero ▸ hc)

/-- A literal without `NUL` holds its own text. -/
theorem literal_holds {s : String} (hs : (0 : UInt8) ∉ bytesOf s) :
    (literal s).Holds (bytesOf s) where
  inside := Nat.lt_succ_self _
  chars := fun _ _ => rfl
  nul := List.getD_eq_default _ _ (Nat.le_refl _)
  clean := hs

end Strings

/-! ## The view of a process -/

/-- What a process can tell: its descriptors, its arguments, the number of its reads, the bytes that
it has handed to the console and the commands that it has executed. -/
structure View where
  fds : FdTable
  args : Nat → UInt8
  reads : Nat
  written : List UInt8
  executed : List CString

/-- Process `p` is on the processor. -/
structure OnProcessor (p : Pid) (k : Kernel) : Prop extends Maintained k where
  current : k.procs.currentPid = p
  live : k.Live p

/-- Process `p` runs, and `v` is its view. -/
structure Sees (p : Pid) (v : View) (s : UserProcess) : Prop extends OnProcessor p s.kernel where
  fds : s.kernel.fdTableOf p = v.fds
  args : s.kernel.argsOf p = v.args
  reads : s.reads = v.reads
  written : s.written = v.written
  executed : s.executed = v.executed

/-- What happens between two calls of process `p` keeps its descriptors and its arguments, and `p`
runs again when it makes the next one. -/
structure Environment.Keeps (env : Environment) (p : Pid) : Prop where
  onProcessor : ∀ n k, OnProcessor p k → OnProcessor p (env.between n k)
  fds : ∀ n k, OnProcessor p k → (env.between n k).fdTableOf p = k.fdTableOf p
  args : ∀ n k, OnProcessor p k → (env.between n k).argsOf p = k.argsOf p

/-- Steps of the machine that lead from `m` to `m'`, with no handler of process `p` among them, and
`p` on the processor at their end. -/
structure OthersRun (img : FsImage) (p : Pid) (m m' : ExitMachine) : Prop where
  run : ∃ events, EventRun.AllSteps (ExitMachine.step img) (fun m e _ => m.Spares p e) m events ∧
    EventRun.AllSteps (ExitMachine.step img) (fun m e _ => m.EndsProgram e) m events ∧
    EventRun.runFrom (ExitMachine.step img) m events = some m'
  running : m'.calls.running = p

theorem OthersRun.onProcessor {img : FsImage} {p : Pid} {m m' : ExitMachine}
    (h : OthersRun img p m m') (hkernel : Maintained m.calls.kernel)
    (hlive : m.calls.kernel.Live p) :
    OnProcessor p m'.calls.kernel ∧ SameProcess p m.calls.kernel m'.calls.kernel := by
  obtain ⟨⟨events, hspares, hends, hrun⟩, hrunning⟩ := h
  have hsame := (ExitMachine.sameProcess_of_spared hkernel.slots hlive hspares hrun).2
  have hmaintained := ExitMachine.maintained_of_allSteps hkernel hends hrun
  exact ⟨⟨hmaintained, hrunning, hsame.live_iff.mpr hlive⟩, hsame⟩

/-- What happens between two calls of process `p` are such steps. -/
def Environment.Interleaves (img : FsImage) (env : Environment) (p : Pid) : Prop :=
  ∀ n k, OnProcessor p k → ∃ m m' : ExitMachine,
    m.calls.kernel = k ∧ OthersRun img p m m' ∧ m'.calls.kernel = env.between n k

/-- However the other processes, the timer and the keyboard interleave with `p`, it keeps its
view. -/
theorem Environment.Interleaves.keeps {img : FsImage} {env : Environment} {p : Pid}
    (h : env.Interleaves img p) : env.Keeps p := by
  have hall : ∀ n k, OnProcessor p k →
      OnProcessor p (env.between n k) ∧ SameProcess p k (env.between n k) := by
    intro n k hk
    obtain ⟨m, m', rfl, hothers, hbetween⟩ := h n k hk
    rw [← hbetween]
    exact hothers.onProcessor hk.toMaintained hk.live
  constructor
  · exact fun n k hk => (hall n k hk).1
  · intro n k hk
    rw [Kernel.fdTableOf, (hall n k hk).2.block]
    rfl
  · intro n k hk
    rw [Kernel.argsOf, (hall n k hk).2.block]
    rfl

/-- A kernel in which process `p` runs with the descriptors `fds` and the arguments `args`. -/
structure Runs (p : Pid) (fds : FdTable) (args : Nat → UInt8) (k : Kernel) : Prop
    extends OnProcessor p k where
  fds_eq : k.fdTableOf p = fds
  args_eq : k.argsOf p = args

section Calls

variable {img : FsImage} {env : Environment} {p : Pid} {v : View} {s : UserProcess}

section Runs

variable {fds : FdTable} {args : Nat → UInt8} {k k' : Kernel}

theorem Runs.fdTable (h : Runs p fds args k) : k.fdTable = fds := by
  rw [Kernel.fdTable, h.current]
  exact h.fds_eq

/-- The driver behind a descriptor in use. -/
theorem Runs.driver (h : Runs p fds args k) {fd : Fin 8} {op : OpTable} (huse : ¬ (fds fd).Free)
    (hop : (fds fd).fileOperationsPointer = some op) : k.driver fd = some op := by
  rw [← h.fdTable] at huse hop
  exact (driver_of_in_use huse).trans hop

/-- Only the control blocks and the process on the processor matter. -/
theorem Runs.of_procs (h : Runs p fds args k) (hprocs : k'.procs = k.procs) :
    Runs p fds args k' := by
  obtain ⟨⟨⟨hslots, haccounted⟩, hcurrent, hlive⟩, hfds, hargs⟩ := h
  rw [Kernel.Live, ← hprocs] at hlive
  rw [Kernel.fdTableOf, ← hprocs] at hfds
  rw [Kernel.argsOf, ← hprocs] at hargs
  have hcounted : k'.slots = k.slots := by
    rw [Kernel.slots, hprocs]
    rfl
  exact ⟨⟨⟨hslots.of_procs hprocs, haccounted.of_slots hcounted⟩,
    (congrArg Processes.currentPid hprocs).trans hcurrent, hlive⟩, hfds, hargs⟩

theorem Runs.cli (h : Runs p fds args k) : Runs p fds args k.cli := h.of_procs rfl

/-- A handler that writes one descriptor of its caller. -/
theorem Runs.setFd (h : Runs p fds args k) {fd : Fin 8} (hfd : fd ≠ 1) {b : FdBlock}
    (hb : b.Private) :
    Runs p (Function.update fds fd b) args (k.setFd fd b) where
  current := h.current
  live := by
    have hpids := congrArg Prod.fst (callFrame_slots.setFd k fd b)
    exact fun hfree => h.live ((congrFun hpids p).symm.trans hfree)
  slots := h.slots.setFd hfd hb
  accounted := h.accounted.of_slots (callFrame_slots.setFd k fd b)
  fds_eq := by
    have htable := Kernel.setFd_fdTable k fd b
    rw [Kernel.fdTable, Kernel.setFd_currentPid, h.current, h.fdTable] at htable
    exact htable
  args_eq := (congrFun (callFrame_argsOf.setFd k fd b) p).trans h.args_eq

end Runs

theorem Sees.stdOut (h : Sees p v s) : StdOut v.fds := h.fds ▸ h.slots.one p

/-- A descriptor with another driver is not the console. -/
theorem Sees.ne_one (h : Sees p v s) {fd : Fin 8} {op : OpTable}
    (hop : (v.fds fd).fileOperationsPointer = some op) (hne : op ≠ .stdout) : fd ≠ 1 := by
  rintro rfl
  rw [h.stdOut.stdout] at hop
  exact hne (Option.some.inj hop).symm

theorem Sees.enter (h : Sees p v s) (hkeeps : env.Keeps p) :
    Runs p v.fds v.args (env.between s.calls s.kernel) where
  toOnProcessor := hkeeps.onProcessor s.calls s.kernel h.toOnProcessor
  fds_eq := (hkeeps.fds s.calls s.kernel h.toOnProcessor).trans h.fds
  args_eq := (hkeeps.args s.calls s.kernel h.toOnProcessor).trans h.args

/-- The view after a call, from the kernel that it leaves. -/
theorem Runs.sees {s : UserProcess} (h : Runs p v.fds v.args s.kernel) (hreads : s.reads = v.reads)
    (hwritten : s.written = v.written) (hexecuted : s.executed = v.executed) : Sees p v s :=
  ⟨h.toOnProcessor, h.fds_eq, h.args_eq, hreads, hwritten, hexecuted⟩

/-! ## `write` -/

/-- A `write` to the standard output hands the bytes to the console. It refuses to write none. -/
theorem ensures_write (h : Sees p v s) (hkeeps : env.Keeps p)
    (buf : Nat → UInt8) (nbytes : Int) :
    Ensures (answer img env) (perform (.write 1 buf nbytes)) s fun r s' =>
      r.value = (if nbytes < 1 then -1 else nbytes) ∧
        Sees p { v with written := v.written ++ (List.range nbytes.toNat).map buf } s' := by
  generalize hk : env.between s.calls s.kernel = k
  have hin : Runs p v.fds v.args k := hk ▸ h.enter hkeeps
  have hdriver : k.driver 1 = some .stdout := hin.driver h.stdOut.in_use h.stdOut.stdout
  have hbytes : consoleBytes k 1 buf nbytes = (List.range nbytes.toNat).map buf := by
    rw [consoleBytes, dif_pos ⟨by omega, by omega⟩]
    exact if_pos hdriver
  generalize hout : terminalWrite k.cli ((List.range nbytes.toNat).map buf) = out
  have hwrite : ∀ res, sysWrite res k 1 (some buf) nbytes = ⟨.returned out.1, out.2, []⟩ := by
    intro res
    have hcall := @sysWrite_driver res k 1 buf nbytes
    rw [hdriver] at hcall
    rw [← hout]
    exact hcall
  have hprocs : out.2.procs = k.procs := by
    rw [← hout, terminalWrite]
    split
    · rfl
    · rfl
  have hvalue : out.1 = if nbytes < 1 then -1 else nbytes := by
    rw [← hout, terminalWrite, List.length_map, List.length_range]
    by_cases hn : nbytes < 1
    · rw [if_pos (by omega), if_pos hn]
    · rw [if_neg (by omega), if_neg hn]
      exact Int.toNat_of_nonneg (by omega)
  have hanswer : answer img env s (.write 1 buf nbytes) = some (⟨out.1, []⟩,
      { s.after out.2 with written := s.written ++ (List.range nbytes.toNat).map buf }) := by
    simp only [answer, hk, hwrite, CallResult.value?, Option.map_some, hbytes]
  refine ensures_perform hanswer ⟨hvalue, (hin.of_procs hprocs).sees h.reads ?_ h.executed⟩
  exact congrArg (· ++ (List.range nbytes.toNat).map buf) h.written

/-- `ece391_fdputs` prints the text of its string. -/
theorem ensures_fdputs (h : Sees p v s) (hkeeps : env.Keeps p)
    {b : Buffer} {t : List UInt8} (hb : b.Holds t) :
    Ensures (answer img env) (ece391Fdputs 1 b) s fun _ s' =>
      Sees p { v with written := v.written ++ t } s' := by
  apply Ensures.require hb.strlen
  apply (ensures_write h hkeeps b.bytes t.length).seq
  intro r s' hr
  apply ensures_pure
  have hbytes : (List.range (t.length : Int).toNat).map b.bytes = t := hb.map_range
  rw [hbytes] at hr
  exact hr.2

/-! ## `open` and `close` -/

/-- A call that has an answer. -/
theorem ensures_of_answer {c : UserCall} {r : Reply} {s' : UserProcess}
    (hanswer : answer img env s c = some (r, s')) :
    Ensures (answer img env) (perform c) s fun reply t => reply = r ∧ t = s' :=
  ensures_perform hanswer ⟨rfl, rfl⟩

/-- The view after a call that returns the value `r` and leaves the kernel `k`. -/
theorem ensures_of_handler (h : Sees p v s) {c : UserCall} {r : Int} {fds : FdTable}
    {args : Nat → UInt8} {k : Kernel} (hk : Runs p fds args k)
    (hanswer : answer img env s c = some (⟨r, []⟩, s.after k)) :
    Ensures (answer img env) (perform c) s fun reply s' =>
      reply.value = r ∧ Sees p { v with fds := fds, args := args } s' :=
  ensures_perform hanswer ⟨rfl, Runs.sees hk h.reads h.written h.executed⟩

/-- A regular file is opened at its beginning, on the lowest free descriptor. -/
theorem ensures_open_file (h : Sees p v s) (hkeeps : env.Keeps p) {b : Buffer}
    {name : List UInt8} (hb : b.Holds name) {dentry : DirEntry}
    (hfound : readDentryByName img name = some dentry) (htype : dentry.fileType = typeFile)
    (hroom : Room v.fds) :
    Ensures (answer img env) (ece391Open b) s fun ret s' =>
      ∃ fd : Fin 8, IsLowestFree v.fds fd ∧ ret = fd.val ∧
        Sees p { v with fds := Function.update v.fds fd ⟨some .file, dentry.inodeNum, 0, 1⟩ }
          s' := by
  have hin := (h.enter hkeeps).cli
  obtain ⟨fd, hfd, hlow⟩ := slotSearch_of_room (by decide : 7 ≤ fdtSize) hroom
  have hanswer : answer img env s (.open name) = some (⟨fd.val, []⟩, s.after
      ((env.between s.calls s.kernel).cli.setFd fd ⟨some .file, dentry.inodeNum, 0, 1⟩)) := by
    simp only [answer, sysOpen_of_file hfound htype, fileOpen, hfound, hin.fdTable, hfd]
  have hruns := hin.setFd (b := ⟨some .file, dentry.inodeNum, 0, 1⟩)
    (ne_one_of_two_le hlow.two_le) (FdBlock.private_of_ops rfl (by decide) (by decide))
  apply Ensures.require hb.string
  apply (ensures_of_handler h hruns hanswer).seq
  intro r s' hr
  exact ensures_pure ⟨fd, hlow, hr⟩

/-- The directory is opened in front of its first entry. -/
theorem ensures_open_dir (h : Sees p v s) (hkeeps : env.Keeps p) {b : Buffer}
    {name : List UInt8} (hb : b.Holds name) {dentry : DirEntry}
    (hfound : readDentryByName img name = some dentry) (htype : dentry.fileType = typeDir)
    (hroom : Room v.fds) :
    Ensures (answer img env) (ece391Open b) s fun ret s' =>
      ∃ fd : Fin 8, IsLowestFree v.fds fd ∧ ret = fd.val ∧
        Sees p { v with fds := Function.update v.fds fd ⟨some .dir, 0, 0, img.numDirEntries⟩ }
          s' := by
  have hin := (h.enter hkeeps).cli
  obtain ⟨fd, hfd, hlow⟩ := slotSearch_of_room (by decide : 7 ≤ fdtSize - 1) hroom
  have hanswer : answer img env s (.open name) = some (⟨fd.val, []⟩, s.after
      ((env.between s.calls s.kernel).cli.setFd fd ⟨some .dir, 0, 0, img.numDirEntries⟩)) := by
    simp only [answer, sysOpen_of_dir hfound htype, directoryOpen, hfound, hin.fdTable, hfd]
  have hruns := hin.setFd (b := ⟨some .dir, 0, 0, img.numDirEntries⟩)
    (ne_one_of_two_le hlow.two_le) (FdBlock.private_of_ops rfl (by decide) (by decide))
  apply Ensures.require hb.string
  apply (ensures_of_handler h hruns hanswer).seq
  intro r s' hr
  exact ensures_pure ⟨fd, hlow, hr⟩

/-- The real-time clock is opened by a process that does not have it open. -/
theorem ensures_open_rtc (h : Sees p v s) (hkeeps : env.Keeps p) {b : Buffer}
    {name : List UInt8} (hb : b.Holds name) {dentry : DirEntry}
    (hfound : readDentryByName img name = some dentry) (htype : dentry.fileType = typeRtc)
    (hroom : Room v.fds) (hrtc : ¬ HasRtc v.fds) :
    Ensures (answer img env) (ece391Open b) s fun ret s' =>
      ∃ (fd : Fin 8) (block : FdBlock), IsLowestFree v.fds fd ∧ ret = fd.val ∧
        block.fileOperationsPointer = some .rtc ∧ block.flags = 1 ∧
        Sees p { v with fds := Function.update v.fds fd block } s' := by
  have hin := (h.enter hkeeps).cli
  obtain ⟨fd, hfd, hlow⟩ := slotSearch_of_room (by decide : 7 ≤ fdtSize) hroom
  generalize hres : { env.res s.calls with line := env.typed s.reads } = res
  have hnone : (openSlots.any fun i => (v.fds i).isOpenRtc) = false := not_hasRtc_iff.mpr hrtc
  obtain ⟨k, hopen, hruns⟩ : ∃ k,
      rtcOpen res (env.between s.calls s.kernel).cli = ((fd.val : Int), k) ∧
        Runs p (Function.update v.fds fd ⟨some .rtc, 0, res.filePosition, 1⟩) v.args k := by
    rw [rtcOpen]
    simp only [hin.cli.fdTable, hnone, Bool.false_eq_true, if_false, hfd]
    have hruns := (hin.cli.of_procs rfl).setFd (b := ⟨some .rtc, 0, res.filePosition, 1⟩)
      (ne_one_of_two_le hlow.two_le) (FdBlock.private_of_ops rfl (by decide) (by decide))
    exact ⟨_, rfl, hruns.of_procs rfl⟩
  have hanswer : answer img env s (.open name) = some (⟨fd.val, []⟩, s.after k) := by
    simp only [answer, hres, sysOpen_of_rtc hfound htype, hopen]
  apply Ensures.require hb.string
  apply (ensures_of_handler h hruns hanswer).seq
  intro r s' hr
  exact ensures_pure ⟨fd, _, hlow, hr.1, rfl, rfl, hr.2⟩

/-- An open file, directory or clock is closed. -/
theorem ensures_close (h : Sees p v s) (hkeeps : env.Keeps p) {fd : Fin 8} (htwo : 2 ≤ fd)
    (huse : ¬ (v.fds fd).Free)
    (hop : (v.fds fd).fileOperationsPointer = some .file ∨
      (v.fds fd).fileOperationsPointer = some .dir ∨
        (v.fds fd).fileOperationsPointer = some .rtc ∧ (v.fds fd).flags ≠ 0) :
    Ensures (answer img env) (ece391Close fd.val) s fun ret s' =>
      ret = 0 ∧ Sees p { v with fds := Function.update v.fds fd (v.fds fd).cleared } s' := by
  have hin := (h.enter hkeeps).cli
  have huse' : ¬ ((env.between s.calls s.kernel).cli.fdTable fd).Free := by
    rw [hin.fdTable]
    exact huse
  have hdriver : (env.between s.calls s.kernel).closeDriver fd =
      (v.fds fd).fileOperationsPointer := by
    have hval : 2 ≤ fd.val := Fin.le_def.mp htwo
    rw [Kernel.closeDriver, if_pos hval, (h.enter hkeeps).fdTable]
  obtain ⟨k, hclose, hruns⟩ : ∃ k, sysClose (env.between s.calls s.kernel) fd.val = (0, k) ∧
      Runs p (Function.update v.fds fd (v.fds fd).cleared) v.args k := by
    have hone := ne_one_of_two_le htwo
    have hcleared := (slotRule_private img).cleared (v.fds fd)
    rw [sysClose_driver, hdriver]
    rcases hop with hop | hop | ⟨hop, hflags⟩
    · rw [hop, ← hin.fdTable]
      exact ⟨_, fileClose_of_in_use htwo huse', hin.fdTable ▸ hin.setFd hone hcleared⟩
    · rw [hop, ← hin.fdTable]
      exact ⟨_, fileClose_of_in_use htwo huse', hin.fdTable ▸ hin.setFd hone hcleared⟩
    · rw [← hin.fdTable] at hflags
      rw [hop, ← hin.fdTable]
      exact ⟨_, rtcClose_of_in_use htwo hflags,
        hin.fdTable ▸ (hin.cli.setFd hone hcleared).of_procs rfl⟩
  have hanswer : answer img env s (.close fd.val) = some (⟨0, []⟩, s.after k) := by
    simp only [answer, hclose]
  apply (ensures_of_handler h hruns hanswer).seq
  intro r s' hr
  exact ensures_pure hr

end Calls

end Ece391Os
