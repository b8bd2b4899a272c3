import Ece391Os.Model.ReadBuffer

/-!
# Descriptors and their drivers

The three open functions (`file_open`, `directory_open`, `rtc_open`), the close
functions, and the dispatch of the system calls `open`, `read` and `close` over the
operation table of a descriptor (`syscalls.c`, `filesystem_driver.c`, `rtc_driver.c`,
`terminal.c`, `keyboard.c`).

The three open functions carry the same loop over the slots `2` to `7` with different
tests for a full table; `slotSearch` is that loop with the test as a parameter.
-/

set_option autoImplicit false

namespace Ece391Os

/-- `flags == -1`: the free marker. -/
def freeFlags : Word := BitVec.ofInt 32 (-1)

/-- A cleared slot, as the close functions and `create_new_pcb` leave it; they do not
touch the file position. -/
def FdBlock.cleared (b : FdBlock) : FdBlock :=
  { b with fileOperationsPointer := none, flags := freeFlags, inode := freeFlags }

/-- The slots that the open functions search. -/
def openSlots : List (Fin 8) := [2, 3, 4, 5, 6, 7]

/-- The loop over the slots in the open functions, on the slots that are left. At slot
`full` a taken slot makes the function return `-1` (`none`). When the loop runs out,
`open` still holds its initial value `0`. -/
def slotSearch (full : Nat) (fds : FdTable) : List (Fin 8) → Option (Fin 8)
  | [] => some 0
  | i :: rest =>
      if (fds i).flags = freeFlags then some i
      else if i.val = full then none
      else slotSearch full fds rest

/-! ## Open -/

/-- `file_open`. -/
def fileOpen (img : FsImage) (k : Kernel) (filename : CString) : Int × Kernel :=
  match readDentryByName img filename with
  | none => (-1, k)
  | some dentry =>
      match slotSearch fdtSize k.fdTable openSlots with
      | none => (-1, k)
      | some fd => (fd.val, k.setFd fd ⟨some .file, dentry.inodeNum, 0, 1⟩)

/-- `directory_open`. -/
def directoryOpen (img : FsImage) (k : Kernel) (filename : CString) : Int × Kernel :=
  match readDentryByName img filename with
  | none => (-1, k)
  | some _ =>
      match slotSearch (fdtSize - 1) k.fdTable openSlots with
      | none => (-1, k)
      | some fd => (fd.val, k.setFd fd ⟨some .dir, 0, 0, img.numDirEntries⟩)

/-- The test of one slot in the first loop of `rtc_open`. -/
def FdBlock.isOpenRtc (b : FdBlock) : Bool :=
  b.flags ≠ freeFlags && b.fileOperationsPointer = some .rtc

/-- `rtc_open`. It programs rate 15 into register A and returns with interrupts enabled;
the file position of the new descriptor is not initialised. -/
def rtcOpen (res : Residue) (k : Kernel) : Int × Kernel :=
  let k := k.cli
  if openSlots.any fun i => (k.fdTable i).isOpenRtc then (-1, k)
  else
    match slotSearch fdtSize k.fdTable openSlots with
    | none => (-1, k)
    | some fd =>
        let k := { k with rtc := { k.rtc with register := (k.rtc.register &&& 0xF0) ||| 15 } }
        (fd.val, (k.setFd fd ⟨some .rtc, 0, res.filePosition, 1⟩).sti)

/-- `TYPE_RTC`, `TYPE_DIR` and `TYPE_FILE`. -/
def typeRtc : Word := 0
def typeDir : Word := 1
def typeFile : Word := 2

/-- `open`. The switch over the file type has no default: for another type the call
returns the uninitialised `ret`. -/
def sysOpen (img : FsImage) (res : Residue) (k : Kernel) (filename : Option CString) :
    Int × Kernel :=
  let k := k.cli
  match filename with
  | none => (-1, k)
  | some filename =>
      match readDentryByName img filename with
      | none => (-1, k)
      | some dentry =>
          if dentry.fileType = typeRtc then rtcOpen res k
          else if dentry.fileType = typeDir then directoryOpen img k filename
          else if dentry.fileType = typeFile then fileOpen img k filename
          else (res.ret.toInt, k)

section Open

variable {img : FsImage} {res : Residue} {k : Kernel} {name : CString} {dentry : DirEntry}

theorem sysOpen_of_not_found (hfound : readDentryByName img name = none) :
    sysOpen img res k (some name) = (-1, k.cli) := by
  simp only [sysOpen, hfound]

theorem sysOpen_of_rtc (hfound : readDentryByName img name = some dentry)
    (htype : dentry.fileType = typeRtc) : sysOpen img res k (some name) = rtcOpen res k.cli := by
  simp only [sysOpen, hfound, if_pos htype]

theorem sysOpen_of_dir (hfound : readDentryByName img name = some dentry)
    (htype : dentry.fileType = typeDir) :
    sysOpen img res k (some name) = directoryOpen img k.cli name := by
  have hrtc : dentry.fileType ≠ typeRtc := htype.trans_ne (by decide)
  simp only [sysOpen, hfound, if_neg hrtc, if_pos htype]

theorem sysOpen_of_file (hfound : readDentryByName img name = some dentry)
    (htype : dentry.fileType = typeFile) :
    sysOpen img res k (some name) = fileOpen img k.cli name := by
  have hrtc : dentry.fileType ≠ typeRtc := htype.trans_ne (by decide)
  have hdir : dentry.fileType ≠ typeDir := htype.trans_ne (by decide)
  simp only [sysOpen, hfound, if_neg hrtc, if_neg hdir, if_pos htype]

theorem sysOpen_of_unknown (hfound : readDentryByName img name = some dentry)
    (hrtc : dentry.fileType ≠ typeRtc) (hdir : dentry.fileType ≠ typeDir)
    (hfile : dentry.fileType ≠ typeFile) :
    sysOpen img res k (some name) = (res.ret.toInt, k.cli) := by
  simp only [sysOpen, hfound, if_neg hrtc, if_neg hdir, if_neg hfile]

/-- What `open` can do. -/
theorem sysOpen_cases (img : FsImage) (res : Residue) (k : Kernel) (filename : Option CString) :
    (∃ v, sysOpen img res k filename = (v, k.cli)) ∨
      sysOpen img res k filename = rtcOpen res k.cli ∨
      ∃ name dentry, readDentryByName img name = some dentry ∧
        (sysOpen img res k filename = directoryOpen img k.cli name ∨
          sysOpen img res k filename = fileOpen img k.cli name) := by
  cases filename with
  | none => exact Or.inl ⟨-1, rfl⟩
  | some name =>
      cases hfound : readDentryByName img name with
      | none => exact Or.inl ⟨-1, sysOpen_of_not_found hfound⟩
      | some dentry =>
          by_cases hrtc : dentry.fileType = typeRtc
          · exact Or.inr (Or.inl (sysOpen_of_rtc hfound hrtc))
          by_cases hdir : dentry.fileType = typeDir
          · exact Or.inr (Or.inr ⟨name, dentry, hfound, Or.inl (sysOpen_of_dir hfound hdir)⟩)
          by_cases hfile : dentry.fileType = typeFile
          · exact Or.inr (Or.inr ⟨name, dentry, hfound, Or.inr (sysOpen_of_file hfound hfile)⟩)
          exact Or.inl ⟨_, sysOpen_of_unknown hfound hrtc hdir hfile⟩

end Open

/-! ## Close -/

/-- `file_close`, which `directory_close` repeats. -/
def fileClose (k : Kernel) (fd : Int) : Int × Kernel :=
  if h : 2 ≤ fd ∧ fd < 8 then
    let i : Fin 8 := ⟨fd.toNat, by omega⟩
    if (k.fdTable i).flags = freeFlags then (-1, k)
    else (0, k.setFd i (k.fdTable i).cleared)
  else (-1, k)

/-- `directory_close`. -/
def directoryClose (k : Kernel) (fd : Int) : Int × Kernel := fileClose k fd

/-- `rtc_close`. It tests `flags` against `0`, not against the free marker, and returns
with interrupts enabled when it succeeds. -/
def rtcClose (k : Kernel) (fd : Int) : Int × Kernel :=
  let k := k.cli
  if h : 2 ≤ fd ∧ fd < 8 then
    let i : Fin 8 := ⟨fd.toNat, by omega⟩
    if (k.fdTable i).flags = 0 then (-1, k)
    else (0, (k.setFd i (k.fdTable i).cleared).sti)
  else (-1, k)

/-- `keyboard_close`: clears descriptor `0` of the control block whose number is that of
the displayed terminal. -/
def keyboardClose (k : Kernel) : Int × Kernel :=
  let pid : Pid := k.terms.currentTerminal.castLE (by omega)
  let pcb := k.procs.controlBlocks pid
  (0, k.setPcb pid { pcb with fdTable := Function.update pcb.fdTable 0 (pcb.fdTable 0).cleared })

/-- `terminal_close`. -/
def terminalClose (k : Kernel) : Int × Kernel :=
  (0, k.setFd 1 (k.fdTable 1).cleared)

/-- `close`. -/
def sysClose (k : Kernel) (fd : Int) : Int × Kernel :=
  let k := k.cli
  if h : 2 ≤ fd ∧ fd < 8 then
    match (k.fdTable ⟨fd.toNat, by omega⟩).fileOperationsPointer with
    | none => (-1, k)
    | some .file => fileClose k fd
    | some .dir => directoryClose k fd
    | some .rtc => rtcClose k fd
    | some .stdin => keyboardClose k
    | some .stdout => terminalClose k
  else (-1, k)

/-! ## Read -/

/-- A number that `read` and `write` accept is the number of a descriptor. -/
theorem toNat_lt_eight {fd : Int} (h : 0 ≤ fd ∧ fd < 8) : fd.toNat < 8 := by omega

/-- A system call that may block or fault, with the stores it makes into the caller's
buffer. -/
structure CallResult where
  exit : Exit
  kernel : Kernel
  stores : Stores

/-- `rtc_read`, from the call to its return after the clock interrupt it waits for. -/
def rtcRead (k : Kernel) : CallResult :=
  let cip := k.sched.currentProcess
  ⟨.returned 0,
    { k with
      rtc := { k.rtc with
        rtcVirtualInterupt := Function.update k.rtc.rtcVirtualInterupt cip 0 }
      interrupts := false }, []⟩

/-- `terminal_read`, from the call to its return. The wait ends when `terminal_return` has delivered
a line, which is then in the row of the terminal. -/
def terminalRead (res : Residue) (k : Kernel) (nbytes : Int) : CallResult :=
  if nbytes < 1 then ⟨.returned (-1), k, []⟩
  else
    let cip := k.sched.currentProcess
    let woken := { k with
      terms := { k.terms with
        returnSwitch := Function.update k.terms.returnSwitch cip .off
        readBuffer := Function.update k.terms.readBuffer cip res.line } }
    let r := finishRead woken nbytes.toNat res.beyond
    ⟨.returned r.1, r.2.2, (List.range nbytes.toNat).map fun i => (i, r.2.1.getD i 0)⟩

/-- `read`. A `NULL` buffer is `none`. -/
def sysRead (img : FsImage) (res : Residue) (k : Kernel) (fd : Int) (buf : Option Word)
    (nbytes : Int) : CallResult :=
  let k := k.cli
  if buf = none then ⟨.returned (-1), k, []⟩
  else if h : 0 ≤ fd ∧ fd < 8 then
    let i : Fin 8 := ⟨fd.toNat, toNat_lt_eight h⟩
    let block := k.fdTable i
    if block.flags = freeFlags then ⟨.returned (-1), k, []⟩
    else
      match block.fileOperationsPointer with
      | none => ⟨.returned (-1), k, []⟩
      | some .file =>
          let r := fileRead img block nbytes
          ⟨r.exit, k.setFd i r.block, r.stores⟩
      | some .dir =>
          let r := directoryRead img res block nbytes
          ⟨r.exit, k.setFd i r.block, r.stores⟩
      | some .rtc => rtcRead k
      | some .stdin => terminalRead res k nbytes
      | some .stdout => ⟨.returned (-1), k, []⟩
  else ⟨.returned (-1), k, []⟩

/-! ## Dispatch -/

/-- The driver that `read` and `write` reach through a descriptor. -/
def Kernel.driver (k : Kernel) (fd : Fin 8) : Option OpTable :=
  if (k.fdTable fd).flags = freeFlags then none else (k.fdTable fd).fileOperationsPointer

/-- The driver that `close` reaches: it rejects stdin and stdout, and does not test the flags. -/
def Kernel.closeDriver (k : Kernel) (fd : Fin 8) : Option OpTable :=
  if 2 ≤ fd.val then (k.fdTable fd).fileOperationsPointer else none

/-- The entry `read` of an operation table. -/
def OpTable.read (img : FsImage) (res : Residue) (k : Kernel) (fd : Fin 8) (nbytes : Int) :
    OpTable → CallResult
  | .file =>
      let r := fileRead img (k.fdTable fd) nbytes
      ⟨r.exit, k.setFd fd r.block, r.stores⟩
  | .dir =>
      let r := directoryRead img res (k.fdTable fd) nbytes
      ⟨r.exit, k.setFd fd r.block, r.stores⟩
  | .rtc => rtcRead k
  | .stdin => terminalRead res k nbytes
  | .stdout => ⟨.returned (-1), k, []⟩

/-- The entry `close` of an operation table. -/
def OpTable.close (k : Kernel) (fd : Fin 8) : OpTable → Int × Kernel
  | .file => fileClose k fd.val
  | .dir => directoryClose k fd.val
  | .rtc => rtcClose k fd.val
  | .stdin => keyboardClose k
  | .stdout => terminalClose k

section Dispatch

variable {img : FsImage} {res : Residue} {k : Kernel} {fd : Fin 8}

theorem exists_fd {n : Int} (hn : 0 ≤ n ∧ n < 8) : ∃ i : Fin 8, n = i.val :=
  ⟨⟨n.toNat, toNat_lt_eight hn⟩, by simp only; omega⟩

theorem pointer_of_driver {op : OpTable} (h : k.driver fd = some op) :
    (k.fdTable fd).fileOperationsPointer = some op := by
  rw [Kernel.driver] at h
  split at h
  · cases h
  · exact h

theorem driver_of_in_use (hflags : (k.fdTable fd).flags ≠ freeFlags) :
    k.driver fd = (k.fdTable fd).fileOperationsPointer :=
  if_neg hflags

/-- `read` calls the driver of the descriptor, or returns `-1`. -/
theorem sysRead_driver (buf : Word) (nbytes : Int) :
    sysRead img res k fd.val (some buf) nbytes =
      (k.driver fd).elim ⟨.returned (-1), k.cli, []⟩ (OpTable.read img res k.cli fd nbytes) := by
  have hfd : 0 ≤ (fd.val : Int) ∧ (fd.val : Int) < 8 := by omega
  have hcli : k.cli.fdTable fd = k.fdTable fd := rfl
  simp only [sysRead, reduceCtorEq, if_false, dif_pos hfd, Int.toNat_natCast, hcli, Kernel.driver]
  split
  · rfl
  · rcases (k.fdTable fd).fileOperationsPointer with _ | _ | _ | _ | _ | _ <;> rfl

theorem sysRead_of_out {n : Int} (hn : ¬ (0 ≤ n ∧ n < 8)) (buf : Option Word) (nbytes : Int) :
    sysRead img res k n buf nbytes = ⟨.returned (-1), k.cli, []⟩ := by
  simp only [sysRead, dif_neg hn, ite_self]

/-- What `read` can do. -/
theorem sysRead_dispatch (img : FsImage) (res : Residue) (k : Kernel) (n : Int)
    (buf : Option Word) (nbytes : Int) :
    sysRead img res k n buf nbytes = ⟨.returned (-1), k.cli, []⟩ ∨
      ∃ (i : Fin 8) (op : OpTable), n = i.val ∧ k.driver i = some op ∧
        sysRead img res k n buf nbytes = op.read img res k.cli i nbytes := by
  cases buf with
  | none => exact Or.inl rfl
  | some buf =>
      by_cases hn : 0 ≤ n ∧ n < 8
      · obtain ⟨i, rfl⟩ := exists_fd hn
        rw [sysRead_driver]
        cases hdriver : k.driver i with
        | none => exact Or.inl rfl
        | some op => exact Or.inr ⟨i, op, rfl, hdriver, rfl⟩
      · exact Or.inl (sysRead_of_out hn (some buf) nbytes)

/-- `close` calls the driver of the descriptor, or returns `-1`. -/
theorem sysClose_driver :
    sysClose k fd.val = (k.closeDriver fd).elim (-1, k.cli) (OpTable.close k.cli fd) := by
  have hcli : k.cli.fdTable fd = k.fdTable fd := rfl
  by_cases hfd : 2 ≤ fd.val
  · have hint : 2 ≤ (fd.val : Int) ∧ (fd.val : Int) < 8 := by omega
    simp only [sysClose, dif_pos hint, Int.toNat_natCast, hcli, Kernel.closeDriver, if_pos hfd]
    rcases (k.fdTable fd).fileOperationsPointer with _ | _ | _ | _ | _ | _ <;> rfl
  · have hint : ¬ (2 ≤ (fd.val : Int) ∧ (fd.val : Int) < 8) := by omega
    simp only [sysClose, dif_neg hint, Kernel.closeDriver, if_neg hfd]
    rfl

theorem sysClose_of_out {n : Int} (hn : ¬ (2 ≤ n ∧ n < 8)) : sysClose k n = (-1, k.cli) := by
  simp only [sysClose, dif_neg hn]

/-- `close` refuses the console descriptors. -/
theorem sysClose_of_lt (k : Kernel) (hfd : fd < 2) : sysClose k fd.val = (-1, k.cli) := by
  have hlt : fd.val < 2 := Fin.lt_def.mp hfd
  rw [sysClose_driver, Kernel.closeDriver, if_neg (Nat.not_le.mpr hlt)]
  rfl

/-- The dispatch of `close` on the other descriptors. -/
theorem sysClose_of_le (k : Kernel) (hfd : 2 ≤ fd) : sysClose k fd.val =
    (k.fdTable fd).fileOperationsPointer.elim (-1, k.cli) (OpTable.close k.cli fd) := by
  have hle : 2 ≤ fd.val := Fin.le_def.mp hfd
  rw [sysClose_driver, Kernel.closeDriver, if_pos hle]

/-- What `close` can do. -/
theorem sysClose_dispatch (k : Kernel) (n : Int) :
    sysClose k n = (-1, k.cli) ∨
      ∃ (i : Fin 8) (op : OpTable), n = i.val ∧ sysClose k n = op.close k.cli i := by
  by_cases hn : 2 ≤ n ∧ n < 8
  · obtain ⟨i, rfl⟩ := exists_fd (n := n) (by omega)
    rw [sysClose_driver]
    cases k.closeDriver i with
    | none => exact Or.inl rfl
    | some op => exact Or.inr ⟨i, op, rfl, rfl⟩
  · exact Or.inl (sysClose_of_out hn)

end Dispatch

end Ece391Os
