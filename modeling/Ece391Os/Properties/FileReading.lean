import Ece391Os.Library.SequentialRead
import Ece391Os.Model.Processes
import Ece391Os.Properties.FileData

/-!
# Reading a regular file to its end

Runs of `read` calls by any processes on any descriptors, and the calls among them on one
descriptor that `file_open` made for a regular file. `sysRead_fdTableOf` is the frame
property: a `read` leaves every other descriptor alone. `completeReads_readTrace_iff` says
for which requests the reader is complete in the sense of `SequentialRead`.
-/

set_option autoImplicit false

namespace Ece391Os

open SequentialRead

/-! ## Well-formed images -/

/-- The number of blocks of a file of length `n`. -/
def blockCount (n : Nat) : Nat := (n + (fileSize - 1)) / fileSize

/-- Every index node names a valid data block for each of its blocks, and every regular
file has an index node. -/
structure FsImage.WellFormed (img : FsImage) : Prop where
  blocks_valid : ∀ inode, inode < img.inodes →
    ∀ i, i < blockCount (img.nodeList inode).bLength.toNat →
      (img.nodeList inode).dataBlocks i < img.dataBlocks
  inode_valid : ∀ i, i < maxDirEntries → (img.dirEntries i).filename 0 ≠ 0 →
    (img.dirEntries i).fileType = typeFile → (img.dirEntries i).inodeNum < img.inodes

/-- Every index node names a valid data block for each of its blocks. -/
def FsImage.BlocksValid (img : FsImage) : Prop :=
  ∀ inode, inode < img.inodes →
    ∀ i, i < blockCount (img.nodeList inode).bLength.toNat →
      (img.nodeList inode).dataBlocks i < img.dataBlocks

/-- The bytes of a file are mapped. -/
theorem FsImage.BlocksValid.fileByte_isSome {img : FsImage} (hblocks : img.BlocksValid)
    {inode : Word} (hinode : inode < img.inodes) {q : Nat}
    (hq : q < (img.nodeList inode).bLength.toNat) :
    (fileByte img (img.nodeList inode) q).isSome := by
  have hblock : q / fileSize < blockCount (img.nodeList inode).bLength.toNat := by
    simp only [blockCount, fileSize]
    omega
  apply img.dataList_isSome _ (hblocks inode hinode _ hblock)
  exact Nat.mod_lt _ (by simp [fileSize])

theorem FsImage.WellFormed.fileByte_isSome {img : FsImage} (hwf : img.WellFormed) {inode : Word}
    (hinode : inode < img.inodes) {q : Nat} (hq : q < (img.nodeList inode).bLength.toNat) :
    (fileByte img (img.nodeList inode) q).isSome :=
  FsImage.BlocksValid.fileByte_isSome hwf.blocks_valid hinode hq

/-- A found entry is one of the directory, with a name. -/
theorem readDentryByName_mem {img : FsImage} {fname : CString} {dentry : DirEntry}
    (h : readDentryByName img fname = some dentry) :
    ∃ i, i < maxDirEntries ∧ dentry = img.dirEntries i ∧ dentry.filename 0 ≠ 0 := by
  simp only [readDentryByName] at h
  split at h
  · cases h
  · split at h
    · cases h
    · obtain ⟨i, hi, rfl⟩ := Option.map_eq_some_iff.mp h
      have hmatch := List.find?_some hi
      simp only [DirEntry.matches, Bool.and_eq_true, decide_eq_true_eq] at hmatch
      exact ⟨i, List.mem_range.mp (List.mem_of_find?_eq_some hi), rfl, hmatch.1⟩

/-! ## Images with one block for each file -/

/-- A directory entry and the content it names. -/
structure StoredFile where
  name : List UInt8
  fileType : Word
  content : List UInt8

/-- The image in which entry `i` has index node `i`, whose blocks are block `i`. -/
def imageOf (files : List StoredFile) : FsImage where
  numDirEntries := BitVec.ofNat 32 files.length
  inodes := BitVec.ofNat 32 files.length
  dataBlocks := BitVec.ofNat 32 files.length
  dirEntries := fun i =>
    match files[i]? with
    | some f => ⟨fun j => f.name.getD j 0, f.fileType, BitVec.ofNat 32 i, fun _ => 0⟩
    | none => ⟨fun _ => 0, 0, 0, fun _ => 0⟩
  nodeList := fun inode =>
    match files[inode.toNat]? with
    | some f => ⟨BitVec.ofNat 32 f.content.length, fun _ => inode⟩
    | none => ⟨0, fun _ => 0⟩
  dataList := fun b j =>
    if b < BitVec.ofNat 32 files.length ∧ j < fileSize then
      some (((files[b.toNat]?.map StoredFile.content).getD []).getD j 0)
    else none
  dataList_isSome := by
    intro b hb j hj
    rw [if_pos ⟨hb, hj⟩]
    rfl

theorem imageOf_wellFormed {files : List StoredFile} (hlen : files.length < 2 ^ 32) :
    (imageOf files).WellFormed where
  blocks_valid := by
    intro inode hinode i hi
    simp only [imageOf] at hi hinode ⊢
    cases hfile : files[inode.toNat]? with
    | some f => exact hinode
    | none => simp [hfile, blockCount, fileSize] at hi
  inode_valid := by
    intro i _ hname _
    simp only [imageOf] at hname ⊢
    cases hfile : files[i]? with
    | none => simp [hfile] at hname
    | some f =>
        obtain ⟨hi, _⟩ := List.getElem?_eq_some_iff.mp hfile
        rw [BitVec.lt_def, BitVec.toNat_ofNat, BitVec.toNat_ofNat, Nat.mod_eq_of_lt (by omega),
          Nat.mod_eq_of_lt hlen]
        exact hi

/-! ## One `file_read` -/

section OneRead

variable {img : FsImage} {block : FdBlock} {n : Nat}

/-- The descriptor stands inside or at the end of a regular file of length `n`. -/
structure OnFile (img : FsImage) (block : FdBlock) (n : Nat) : Prop where
  inode_lt : block.inode < img.inodes
  length_eq : (img.nodeList block.inode).bLength.toNat = n
  position_le : block.filePosition.toNat ≤ n

/-- On such a descriptor of a file that is not empty the checks of `read_data` pass. -/
theorem OnFile.readData_eq (h : OnFile img block n) (hn : 0 < n) (m : Nat) :
    readData img block block.filePosition m =
      readFrom img (img.nodeList block.inode) block m 0 block.filePosition.toNat := by
  have hle := h.position_le
  have hlen := h.length_eq
  have hinode : ¬ block.inode > img.inodes := by
    have := BitVec.lt_def.mp h.inode_lt
    exact fun hgt => absurd (BitVec.lt_def.mp hgt) (by omega)
  have hzero : (img.nodeList block.inode).bLength ≠ 0 := by
    intro hzero
    simp [hzero] at hlen
    omega
  have hpos : ¬ block.filePosition > (img.nodeList block.inode).bLength := by
    exact fun hgt => absurd (BitVec.lt_def.mp hgt) (by omega)
  simp only [readData, if_neg hinode, if_neg hzero, if_neg hpos]
  rfl

/-- An empty file. -/
theorem OnFile.readData_empty (h : OnFile img block 0) (m : Nat) :
    readData img block block.filePosition m = ⟨.returned 0, block, [], []⟩ := by
  have hinode : ¬ block.inode > img.inodes := by
    have := BitVec.lt_def.mp h.inode_lt
    exact fun hgt => absurd (BitVec.lt_def.mp hgt) (by omega)
  have hzero : (img.nodeList block.inode).bLength = 0 :=
    BitVec.eq_of_toNat_eq (by simpa using h.length_eq)
  simp only [readData, if_neg hinode, if_pos hzero]

/-- The request lies inside the file. -/
theorem OnFile.readData_fits (h : OnFile img block n) (hblocks : img.BlocksValid) (hn : 0 < n)
    {m : Nat} (hfits : block.filePosition.toNat + m ≤ n) :
    readData img block block.filePosition m =
      ⟨.returned m, block.advance m,
        bytesStored img (img.nodeList block.inode) block.filePosition.toNat m 0,
        bytesFetched (img.nodeList block.inode) m block.filePosition.toNat⟩ := by
  have hlen := h.length_eq
  have hread : readFrom img (img.nodeList block.inode) block m 0
      (block.filePosition.toNat + 0) = _ :=
    readFrom_full rfl (by omega) fun l hl => hblocks.fileByte_isSome h.inode_lt (by omega)
  simp only [Nat.add_zero, Nat.zero_add] at hread
  rw [h.readData_eq hn, hread]

/-- The request starts behind the first byte and runs past the end: the rest of the file is
stored, but the count is `0` and the position stays. -/
theorem OnFile.readData_cut (h : OnFile img block n) (hblocks : img.BlocksValid)
    {m : Nat} (hpos : 0 < block.filePosition.toNat) (hcut : n < block.filePosition.toNat + m) :
    readData img block block.filePosition m =
      ⟨.returned 0, block,
        bytesStored img (img.nodeList block.inode) block.filePosition.toNat
          (n - block.filePosition.toNat) 0,
        bytesFetched (img.nodeList block.inode) (n - block.filePosition.toNat)
          block.filePosition.toNat⟩ := by
  have hlen := h.length_eq
  have hle := h.position_le
  have hread : readFrom img (img.nodeList block.inode) block m 0
      (block.filePosition.toNat + 0) = _ :=
    readFrom_cut rfl hpos (by omega) (by omega)
      fun q _ hq => hblocks.fileByte_isSome h.inode_lt hq
  simp only [Nat.add_zero, hlen] at hread
  rw [h.readData_eq (by omega), hread]

/-- The request starts at the first byte and runs past the end: the byte behind the file is
fetched and stored as well. -/
theorem OnFile.readData_eof (h : OnFile img block n) (hblocks : img.BlocksValid) (hn : 0 < n)
    {m : Nat} (hpos : block.filePosition.toNat = 0) (heof : n < m) :
    readData img block block.filePosition m =
      match fileByte img (img.nodeList block.inode) n with
      | none => ⟨.pageFault, block, bytesStored img (img.nodeList block.inode) 0 n 0,
          bytesFetched (img.nodeList block.inode) (n + 1) 0⟩
      | some _ => ⟨.returned n, block.advance n,
          bytesStored img (img.nodeList block.inode) 0 (n + 1) 0,
          bytesFetched (img.nodeList block.inode) (n + 1) 0⟩ := by
  have hlen := h.length_eq
  have hread : readFrom img (img.nodeList block.inode) block m 0 0 = _ :=
    readFrom_eof hlen hpos (Nat.zero_le n) (by omega)
      fun q _ hq => hblocks.fileByte_isSome h.inode_lt (by omega)
  simp only [Nat.sub_zero] at hread
  rw [h.readData_eq hn, hpos]
  exact hread

/-- A positive 32-bit count is passed on to `read_data` unchanged. -/
theorem toNat_ofInt_natCast {b : Nat} (hb : b < 2 ^ 31) :
    (BitVec.ofInt 32 (b : Int)).toNat = b := by
  simp only [BitVec.toNat_ofInt]
  omega

variable {b : Nat}

/-- What `file_read` does, from what `read_data` does. -/
theorem fileRead_natCast (hb : b < 2 ^ 31) :
    fileRead img block b = readData img block block.filePosition b := by
  rw [fileRead, toNat_ofInt_natCast hb]

theorem OnFile.fileRead_empty (h : OnFile img block 0) (nbytes : Int) :
    fileRead img block nbytes = ⟨.returned 0, block, [], []⟩ :=
  h.readData_empty _

/-- The request lies inside the file. -/
theorem OnFile.fileRead_fits (h : OnFile img block n) (hwf : img.WellFormed) (hb : 0 < b)
    (hmax : b < 2 ^ 31) (hfits : block.filePosition.toNat + b ≤ n) :
    (fileRead img block b).exit = .returned b ∧ (fileRead img block b).block = block.advance b := by
  rw [fileRead_natCast hmax, h.readData_fits hwf.blocks_valid (by omega) hfits]
  exact ⟨rfl, rfl⟩

/-- The request starts behind the first byte and runs past the end: the count is `0` and the
position stays. -/
theorem OnFile.fileRead_cut (h : OnFile img block n) (hwf : img.WellFormed)
    (hmax : b < 2 ^ 31) (hpos : 0 < block.filePosition.toNat)
    (hcut : n < block.filePosition.toNat + b) :
    (fileRead img block b).exit = .returned 0 ∧ (fileRead img block b).block = block := by
  rw [fileRead_natCast hmax, h.readData_cut hwf.blocks_valid hpos hcut]
  exact ⟨rfl, rfl⟩

/-- The request starts at the first byte and runs past the end: the byte behind the file is
fetched as well. -/
theorem OnFile.fileRead_eof (h : OnFile img block n) (hwf : img.WellFormed)
    (hmax : b < 2 ^ 31) (hpos : block.filePosition.toNat = 0) (hn : 0 < n) (heof : n < b) :
    if (fileByte img (img.nodeList block.inode) n).isSome then
      (fileRead img block b).exit = .returned n ∧ (fileRead img block b).block = block.advance n
    else (fileRead img block b).exit = .pageFault ∧ (fileRead img block b).block = block := by
  rw [fileRead_natCast hmax, h.readData_eof hwf.blocks_valid hn hpos heof]
  cases fileByte img (img.nodeList block.inode) n <;> simp

end OneRead

/-! ## Calls and their records -/

/-- A `read` call: the calling process, its arguments and what it finds on the kernel
stack. -/
structure ReadCall where
  pid : Pid
  fd : Int
  buf : Option Word
  nbytes : Int
  res : Residue

/-- The call made in kernel state `k`. -/
def ReadCall.run (img : FsImage) (k : Kernel) (c : ReadCall) : CallResult :=
  sysRead img c.res (k.runAs c.pid) c.fd c.buf c.nbytes

/-- The call is one of process `pid` on its descriptor `fd`. -/
def ReadCall.isOn (pid : Pid) (fd : Fin 8) (c : ReadCall) : Bool :=
  c.pid = pid && c.fd = fd.val

/-- The count a caller gets; `none` if the call fails or does not return. -/
def Exit.count : Exit → Option Nat
  | .returned v => if 0 ≤ v then some v.toNat else none
  | .pageFault => none
  | .endless => none

/-- The file position of descriptor `fd` of process `pid`. -/
def Kernel.position (k : Kernel) (pid : Pid) (fd : Fin 8) : Nat :=
  (k.fdTableOf pid fd).filePosition.toNat

/-- The records of the calls of process `pid` on its descriptor `fd` in a run of calls. -/
def readTrace (img : FsImage) (pid : Pid) (fd : Fin 8) : Kernel → List ReadCall →
    List SequentialRead.Call
  | _, [] => []
  | k, c :: cs =>
      let r := c.run img k
      let rest := readTrace img pid fd r.kernel cs
      if c.isOn pid fd then
        ⟨k.position pid fd, c.nbytes.toNat, r.exit.count, r.kernel.position pid fd⟩ :: rest
      else rest

/-- The byte counts that process `pid` asks of its descriptor `fd`. -/
def requestsOn (pid : Pid) (fd : Fin 8) (calls : List ReadCall) : List Nat :=
  (calls.filter (ReadCall.isOn pid fd)).map fun c => c.nbytes.toNat

/-- The calls on descriptor `fd` of process `pid` have a buffer and a positive `int` as
count. -/
def PositiveReads (pid : Pid) (fd : Fin 8) (calls : List ReadCall) : Prop :=
  ∀ c ∈ calls, c.isOn pid fd → c.buf ≠ none ∧ 0 < c.nbytes ∧ c.nbytes < 2 ^ 31

/-! ## Frame -/

section Frame

variable {img : FsImage} {res : Residue} {k : Kernel}

/-- `read` changes at most the descriptor it is called on. -/
theorem sysRead_fdTableOf {fd : Int} {buf : Option Word} {nbytes : Int} {p : Pid} {e : Fin 8}
    (hne : p ≠ k.procs.currentPid ∨ fd ≠ e.val) :
    (sysRead img res k fd buf nbytes).kernel.fdTableOf p e = k.fdTableOf p e := by
  -- only the drivers of files and directories write a descriptor back, their own
  have hset : ∀ (i : Fin 8) (b : FdBlock), fd = i.val →
      (k.cli.setFd i b).fdTableOf p e = k.fdTableOf p e := by
    intro i b hi
    by_cases hp : p = k.procs.currentPid
    · subst hp
      have hfd : e ≠ i := by
        rintro rfl
        rcases hne with hne | hne
        · exact hne rfl
        · exact hne hi
      have htable := congrFun (Kernel.setFd_fdTable k.cli i b) e
      rw [Function.update_of_ne hfd] at htable
      exact htable
    · exact congrFun (Kernel.setFd_fdTableOf_ne k.cli i b hp) e
  rcases sysRead_dispatch img res k fd buf nbytes with hread | ⟨i, op, hi, -, hread⟩
  · rw [hread]
    rfl
  · rw [hread]
    cases op with
    | stdin =>
        simp only [OpTable.read, terminalRead]
        split
        · rfl
        · rfl
    | stdout => rfl
    | file => exact hset i _ hi
    | dir => exact hset i _ hi
    | rtc => rfl

/-- A call on a file descriptor is `file_read` on it. -/
theorem sysRead_file_eq {fd : Fin 8} {buf : Option Word} {nbytes : Int} {block : FdBlock}
    (hbuf : buf ≠ none) (hblock : k.fdTable fd = block)
    (hops : block.fileOperationsPointer = some .file) (hflags : block.flags ≠ freeFlags) :
    sysRead img res k fd.val buf nbytes =
      ⟨(fileRead img block nbytes).exit, k.cli.setFd fd (fileRead img block nbytes).block,
        (fileRead img block nbytes).stores⟩ := by
  subst hblock
  obtain ⟨buf, rfl⟩ := Option.ne_none_iff_exists'.mp hbuf
  rw [sysRead_driver, driver_of_in_use hflags, hops]
  rfl

/-- The descriptor after such a call. -/
theorem sysRead_file {fd : Fin 8} {buf : Option Word} {nbytes : Int} {block : FdBlock}
    (hbuf : buf ≠ none) (hblock : k.fdTable fd = block)
    (hops : block.fileOperationsPointer = some .file) (hflags : block.flags ≠ freeFlags) :
    (sysRead img res k fd.val buf nbytes).exit = (fileRead img block nbytes).exit ∧
      (sysRead img res k fd.val buf nbytes).kernel.fdTableOf k.procs.currentPid fd =
        (fileRead img block nbytes).block := by
  rw [sysRead_file_eq hbuf hblock hops hflags]
  refine ⟨rfl, ?_⟩
  have htable := congrFun (Kernel.setFd_fdTable k.cli fd (fileRead img block nbytes).block) fd
  rw [Function.update_self] at htable
  exact htable

end Frame

/-! ## Runs -/

section Runs

variable {img : FsImage} {n : Nat}

/-- Descriptor `fd` of process `pid` refers to the regular file with index node `inode`, of
length `n`, and stands at position `p`. -/
structure ReadsFile (img : FsImage) (inode : Word) (n : Nat) (pid : Pid) (fd : Fin 8)
    (p : Nat) (k : Kernel) : Prop where
  onFile : OnFile img (k.fdTableOf pid fd) n
  inode_eq : (k.fdTableOf pid fd).inode = inode
  ops_eq : (k.fdTableOf pid fd).fileOperationsPointer = some .file
  flags_ne : (k.fdTableOf pid fd).flags ≠ freeFlags
  position_eq : k.position pid fd = p

variable {inode : Word} {pid : Pid} {fd : Fin 8} {p : Nat} {k : Kernel}

/-- A call on another descriptor keeps the descriptor. -/
theorem ReadsFile.frame (h : ReadsFile img inode n pid fd p k) {c : ReadCall}
    (hc : c.isOn pid fd = false) : ReadsFile img inode n pid fd p (c.run img k).kernel := by
  have hsame : (c.run img k).kernel.fdTableOf pid fd = k.fdTableOf pid fd := by
    apply sysRead_fdTableOf
    by_cases hpid : c.pid = pid
    · exact Or.inr (by simpa [ReadCall.isOn, hpid] using hc)
    · exact Or.inl fun heq => hpid heq.symm
  constructor
  · rw [hsame]
    exact h.onFile
  · rw [hsame]
    exact h.inode_eq
  · rw [hsame]
    exact h.ops_eq
  · rw [hsame]
    exact h.flags_ne
  · rw [Kernel.position, hsame]
    exact h.position_eq

/-- A call on the descriptor is `file_read`. -/
theorem ReadsFile.run_eq (h : ReadsFile img inode n pid fd p k) {c : ReadCall}
    (hc : c.isOn pid fd = true) (hbuf : c.buf ≠ none) :
    (c.run img k).exit = (fileRead img (k.fdTableOf pid fd) c.nbytes).exit ∧
      (c.run img k).kernel.fdTableOf pid fd =
        (fileRead img (k.fdTableOf pid fd) c.nbytes).block := by
  obtain ⟨hpid, hfd⟩ : c.pid = pid ∧ c.fd = fd.val := by simpa [ReadCall.isOn] using hc
  subst hpid
  rw [ReadCall.run, hfd]
  exact sysRead_file hbuf rfl h.ops_eq h.flags_ne

/-- The descriptor after a call that ends with the descriptor advanced by `m`. -/
theorem ReadsFile.advance (h : ReadsFile img inode n pid fd p k) {k' : Kernel} {m : Nat}
    (hm : p + m ≤ n) (hk : k'.fdTableOf pid fd = (k.fdTableOf pid fd).advance m) :
    ReadsFile img inode n pid fd (p + m) k' := by
  have hlen := h.onFile.length_eq
  have hlt := (img.nodeList (k.fdTableOf pid fd).inode).bLength.isLt
  have hpos : ((k.fdTableOf pid fd).advance m).filePosition.toNat = p + m := by
    have hp : (k.fdTableOf pid fd).filePosition.toNat = p := h.position_eq
    rw [advance_filePosition_toNat, hp]
    exact Nat.mod_eq_of_lt (by omega)
  refine ⟨?_, ?_, ?_, ?_, ?_⟩
  · rw [hk]
    exact ⟨h.onFile.inode_lt, hlen, hpos.trans_le hm⟩
  · rw [hk]
    exact h.inode_eq
  · rw [hk]
    exact h.ops_eq
  · rw [hk]
    exact h.flags_ne
  · rw [Kernel.position, hk]
    exact hpos

/-- The record of a call on the descriptor. -/
def ReadCall.record (img : FsImage) (pid : Pid) (fd : Fin 8) (k : Kernel) (c : ReadCall) :
    SequentialRead.Call :=
  ⟨k.position pid fd, c.nbytes.toNat, (c.run img k).exit.count,
    (c.run img k).kernel.position pid fd⟩

@[simp] theorem count_returned (m : Nat) : (Exit.returned (m : Int)).count = some m := by
  simp [Exit.count]

/-- A call that is not cut short is complete, and the descriptor then stands where the sum of
the requests has come to, or at the end of the file. -/
theorem ReadsFile.complete_of_fit {s : Nat} (h : ReadsFile img inode n pid fd (min s n) k)
    (hwf : img.WellFormed) {c : ReadCall} (hc : c.isOn pid fd = true) (hbuf : c.buf ≠ none)
    (hpos : 0 < c.nbytes) (hmax : c.nbytes < 2 ^ 31)
    (hcut : ¬ (0 < s ∧ s < n ∧ n < s + c.nbytes.toNat))
    (htail : s = 0 → 0 < n → n < c.nbytes.toNat → (fileByte img (img.nodeList inode) n).isSome) :
    (c.record img pid fd k).Complete n ∧
      ReadsFile img inode n pid fd (min (s + c.nbytes.toNat) n) (c.run img k).kernel := by
  obtain ⟨b, hb⟩ : ∃ b : Nat, c.nbytes = b := Int.eq_ofNat_of_zero_le hpos.le
  obtain ⟨hexit, hblock⟩ := h.run_eq hc hbuf
  have hp : (k.fdTableOf pid fd).filePosition.toNat = min s n := h.position_eq
  -- whatever the exit, the call delivers `m` bytes and moves by `m`
  have hclose : ∀ m : Nat, m = min b (n - min s n) →
      (fileRead img (k.fdTableOf pid fd) c.nbytes).exit = .returned m →
      (fileRead img (k.fdTableOf pid fd) c.nbytes).block = (k.fdTableOf pid fd).advance m →
      (c.record img pid fd k).Complete n ∧
        ReadsFile img inode n pid fd (min (s + c.nbytes.toNat) n) (c.run img k).kernel := by
    intro m hm hret hadv
    have hnext := h.advance (m := m) (by omega) (hblock.trans hadv)
    have htoNat : c.nbytes.toNat = b := by omega
    refine ⟨⟨?_, ?_⟩, ?_⟩
    · simp only [ReadCall.record, hexit, hret, count_returned, h.position_eq, htoNat, hm]
    · simp only [ReadCall.record, hnext.position_eq, h.position_eq, htoNat, hm]
    · rwa [htoNat, show min (s + b) n = min s n + m by omega]
  rw [hb] at hclose ⊢
  have hzero : (k.fdTableOf pid fd).advance 0 = k.fdTableOf pid fd := by simp [FdBlock.advance]
  rcases Nat.eq_zero_or_pos n with rfl | hn
  · have hread := h.onFile.fileRead_empty (b : Int)
    exact hclose 0 (by omega) (by rw [hread]; rfl) (by rw [hread, hzero])
  · rcases Nat.lt_or_ge n (min s n + b) with hover | hfits
    · rcases Nat.eq_zero_or_pos s with rfl | hs
      · have hread := h.onFile.fileRead_eof hwf (b := b) (by omega) (by omega) hn (by omega)
        rw [h.inode_eq, if_pos (htail rfl hn (by omega))] at hread
        exact hclose n (by omega) hread.1 hread.2
      · have hread := h.onFile.fileRead_cut hwf (b := b) (by omega) (by omega) (by omega)
        exact hclose 0 (by omega) hread.1 (hread.2.trans hzero.symm)
    · have hread := h.onFile.fileRead_fits hwf (b := b) (by omega) (by omega) (by omega)
      exact hclose b (by omega) hread.1 hread.2

/-- A call that is cut short, or that runs into an unmapped page, is not complete. -/
theorem ReadsFile.fit_of_complete {s : Nat} (h : ReadsFile img inode n pid fd (min s n) k)
    (hwf : img.WellFormed) {c : ReadCall} (hc : c.isOn pid fd = true) (hbuf : c.buf ≠ none)
    (hpos : 0 < c.nbytes) (hmax : c.nbytes < 2 ^ 31)
    (hcomplete : (c.record img pid fd k).Complete n) :
    ¬ (0 < s ∧ s < n ∧ n < s + c.nbytes.toNat) ∧
      (s = 0 → 0 < n → n < c.nbytes.toNat → (fileByte img (img.nodeList inode) n).isSome) := by
  obtain ⟨b, hb⟩ : ∃ b : Nat, c.nbytes = b := Int.eq_ofNat_of_zero_le hpos.le
  obtain ⟨hexit, hblock⟩ := h.run_eq hc hbuf
  have hp : (k.fdTableOf pid fd).filePosition.toNat = min s n := h.position_eq
  have hresult := hcomplete.result_eq
  simp only [ReadCall.record, hexit, hb, h.position_eq] at hresult
  rw [hb]
  constructor
  · rintro ⟨hs, hsn, hcut⟩
    have hread := h.onFile.fileRead_cut hwf (b := b) (by omega) (by omega) (by omega)
    rw [hread.1] at hresult
    have hmin : 0 = min (b : Int).toNat (n - min s n) := Option.some.inj hresult
    omega
  · intro hs hn heof
    have hread := h.onFile.fileRead_eof hwf (b := b) (by omega) (by omega) hn (by omega)
    rw [h.inode_eq] at hread
    by_contra htail
    rw [if_neg htail] at hread
    rw [hread.1] at hresult
    cases hresult

/-- The calls on the descriptor are chained. -/
theorem chained_readTrace (img : FsImage) (pid : Pid) (fd : Fin 8) (k : Kernel)
    (calls : List ReadCall) : Chained (k.position pid fd) (readTrace img pid fd k calls) := by
  induction calls generalizing k with
  | nil => trivial
  | cons c calls ih =>
      simp only [readTrace]
      split
      next => exact ⟨rfl, ih _⟩
      next hc =>
        have hsame : (c.run img k).kernel.position pid fd = k.position pid fd := by
          have hframe : (c.run img k).kernel.fdTableOf pid fd = k.fdTableOf pid fd := by
            apply sysRead_fdTableOf
            by_cases hpid : c.pid = pid
            · exact Or.inr (by simpa [ReadCall.isOn, hpid] using hc)
            · exact Or.inl fun heq => hpid heq.symm
          rw [Kernel.position, hframe, Kernel.position]
        rw [← hsame]
        exact ih _

/-- All calls of a run are complete exactly if the requests fit. -/
theorem ReadsFile.forall_complete_iff (hwf : img.WellFormed) {calls : List ReadCall} {s : Nat}
    (h : ReadsFile img inode n pid fd (min s n) k) (hcalls : PositiveReads pid fd calls) :
    (∀ c ∈ readTrace img pid fd k calls, c.Complete n) ↔
      RequestsFit n (fileByte img (img.nodeList inode) n).isSome s (requestsOn pid fd calls) := by
  -- over the calls; the invariant is the position at which the next read of the file begins
  induction calls generalizing k s with
  | nil => simp [readTrace, requestsOn, RequestsFit]
  | cons c calls ih =>
      have hrest : PositiveReads pid fd calls := fun d hd =>
        hcalls d (List.mem_cons_of_mem c hd)
      by_cases hc : c.isOn pid fd = true
      · obtain ⟨hbuf, hpos, hmax⟩ := hcalls c List.mem_cons_self hc
        have htrace : readTrace img pid fd k (c :: calls) =
            c.record img pid fd k :: readTrace img pid fd (c.run img k).kernel calls := by
          simp only [readTrace, if_pos hc, ReadCall.record]
        have hrequests : requestsOn pid fd (c :: calls) =
            c.nbytes.toNat :: requestsOn pid fd calls := by
          simp [requestsOn, hc]
        rw [htrace, hrequests, List.forall_mem_cons, RequestsFit]
        constructor
        · rintro ⟨hfirst, hothers⟩
          obtain ⟨hcut, htail⟩ := h.fit_of_complete hwf hc hbuf hpos hmax hfirst
          have hnext := (h.complete_of_fit hwf hc hbuf hpos hmax hcut htail).2
          exact ⟨hcut, htail, (ih hnext hrest).mp hothers⟩
        · rintro ⟨hcut, htail, hothers⟩
          obtain ⟨hfirst, hnext⟩ := h.complete_of_fit hwf hc hbuf hpos hmax hcut htail
          exact ⟨hfirst, (ih hnext hrest).mpr hothers⟩
      · -- a call on another descriptor leaves the position
        have hc' : c.isOn pid fd = false := by simpa using hc
        have htrace : readTrace img pid fd k (c :: calls) =
            readTrace img pid fd (c.run img k).kernel calls := by
          simp only [readTrace, hc', Bool.false_eq_true, if_false]
        have hrequests : requestsOn pid fd (c :: calls) = requestsOn pid fd calls := by
          simp [requestsOn, hc']
        rw [htrace, hrequests]
        exact ih (h.frame hc') hrest

/-- The requested counts of the records are positive. -/
theorem requested_pos_of_mem_readTrace {calls : List ReadCall}
    (hcalls : PositiveReads pid fd calls) :
    ∀ c ∈ readTrace img pid fd k calls, 0 < c.requested := by
  induction calls generalizing k with
  | nil => simp [readTrace]
  | cons c calls ih =>
      have hrest : PositiveReads pid fd calls := fun d hd =>
        hcalls d (List.mem_cons_of_mem c hd)
      simp only [readTrace]
      split
      next hc =>
        intro d hd
        rcases List.mem_cons.mp hd with rfl | hd
        · have := (hcalls c List.mem_cons_self hc).2.1
          simp only
          omega
        · exact ih hrest d hd
      next => exact ih hrest

end Runs

/-- `file_open` of a regular file of a well-formed image makes a descriptor that stands at the
beginning of the file. -/
theorem readsFile_of_fileOpen {img : FsImage} (hwf : img.WellFormed) {k k' : Kernel}
    {filename : CString} {dentry : DirEntry} {fd : Fin 8}
    (hentry : readDentryByName img filename = some dentry) (htype : dentry.fileType = typeFile)
    (hopen : fileOpen img k filename = ((fd.val : Int), k')) :
    ReadsFile img dentry.inodeNum (img.nodeList dentry.inodeNum).bLength.toNat
      k.procs.currentPid fd 0 k' := by
  have hinode : dentry.inodeNum < img.inodes := by
    obtain ⟨i, hi, rfl, hname⟩ := readDentryByName_mem hentry
    exact hwf.inode_valid i hi hname htype
  have hfd : k'.fdTableOf k.procs.currentPid fd = ⟨some .file, dentry.inodeNum, 0, 1⟩ := by
    simp only [fileOpen, hentry] at hopen
    split at hopen
    · exact absurd (congrArg Prod.fst hopen) (by simp only; omega)
    next fd' _ =>
      obtain ⟨hval, rfl⟩ := Prod.mk.inj hopen
      have hsame : fd' = fd := Fin.ext (by exact_mod_cast hval)
      subst hsame
      have htable := congrFun (Kernel.setFd_fdTable k fd' ⟨some .file, dentry.inodeNum, 0, 1⟩) fd'
      rw [Function.update_self] at htable
      exact htable
  constructor
  · rw [hfd]
    exact ⟨hinode, rfl, Nat.zero_le _⟩
  · rw [hfd]
  · rw [hfd]
  · rw [hfd]
    exact (by decide : (1 : Word) ≠ freeFlags)
  · rw [Kernel.position, hfd]
    rfl

/-- A reader that opened a regular file of a well-formed image is complete exactly if no
request starts behind the first byte of the file, before its end, and runs past the end (and
a first request that runs past the end finds the byte behind the file mapped). -/
theorem completeReads_readTrace_iff {img : FsImage} (hwf : img.WellFormed) {k k' : Kernel}
    {filename : CString} {dentry : DirEntry} {fd : Fin 8}
    (hentry : readDentryByName img filename = some dentry) (htype : dentry.fileType = typeFile)
    (hopen : fileOpen img k filename = ((fd.val : Int), k')) {calls : List ReadCall}
    (hcalls : PositiveReads k.procs.currentPid fd calls) :
    CompleteReads (img.nodeList dentry.inodeNum).bLength.toNat
        (readTrace img k.procs.currentPid fd k' calls) ↔
      RequestsFit (img.nodeList dentry.inodeNum).bLength.toNat
        (fileByte img (img.nodeList dentry.inodeNum)
          (img.nodeList dentry.inodeNum).bLength.toNat).isSome 0
        (requestsOn k.procs.currentPid fd calls) := by
  have hstart := readsFile_of_fileOpen hwf hentry htype hopen
  have hiff := ReadsFile.forall_complete_iff hwf (s := 0) (by rwa [Nat.zero_min]) hcalls
  rw [← hiff]
  constructor
  · exact fun h => h.complete
  · intro h
    apply completeReads_of_complete _ (requested_pos_of_mem_readTrace hcalls) h
    have hchain := chained_readTrace img k.procs.currentPid fd k' calls
    rwa [hstart.position_eq] at hchain

/-! ## A file of five bytes, read three bytes at a time -/

/-- An image with the one file `a` of five bytes. -/
def fiveByteImage : FsImage := imageOf [⟨[97], typeFile, [104, 101, 108, 108, 111]⟩]

/-- A residue of zero bytes. -/
def emptyResidue : Residue where
  ret := 0
  filePosition := 0
  passedRate := 0
  buf := fun _ => 0
  dentry := ⟨fun _ => 0, 0, 0, fun _ => 0⟩
  behind := fun _ => 0
  line := fun _ => 0
  beyond := 0

/-- `read(2, buf, nbytes)` by the sentinel. -/
def readCallOf (nbytes : Int) : ReadCall := ⟨0, 2, some 0x8048000, nbytes, emptyResidue⟩

/-- The kernel in which the file has just been opened. -/
def openedKernel : Kernel := (fileOpen fiveByteImage (bootKernel 0) [97]).2

/-- A request of five bytes in one call and one more call are answered completely. -/
theorem completeReads_five :
    CompleteReads 5 (readTrace fiveByteImage 0 2 openedKernel [readCallOf 5, readCallOf 3]) :=
  have hentry : readDentryByName fiveByteImage [97] = some (fiveByteImage.dirEntries 0) := by rfl
  have hopen : fileOpen fiveByteImage (bootKernel 0) [97] =
      (((2 : Fin 8).val : Int), openedKernel) := by rfl
  have hcalls : PositiveReads 0 2 [readCallOf 5, readCallOf 3] := by
    intro c hc _
    rcases List.mem_pair.mp hc with rfl | rfl <;> exact ⟨by decide, by decide, by decide⟩
  (completeReads_readTrace_iff (imageOf_wellFormed (by decide)) hentry (by rfl) hopen hcalls).mpr
    (by decide)

/-- Two requests of three bytes: the second one returns `0` at position `3`. -/
theorem not_completeReads_three :
    fiveByteImage.WellFormed ∧
      readDentryByName fiveByteImage [97] = some (fiveByteImage.dirEntries 0) ∧
      (fiveByteImage.dirEntries 0).fileType = typeFile ∧
      (fileOpen fiveByteImage (bootKernel 0) [97]).1 = 2 ∧
      PositiveReads 0 2 [readCallOf 3, readCallOf 3] ∧
      ¬ CompleteReads 5
        (readTrace fiveByteImage 0 2 openedKernel [readCallOf 3, readCallOf 3]) := by
  refine ⟨imageOf_wellFormed (by decide), by rfl, by rfl, by rfl, ?_, ?_⟩
  · intro c hc _
    rcases List.mem_pair.mp hc with rfl | rfl <;> exact ⟨by decide, by decide, by decide⟩
  · intro h
    have htrace : readTrace fiveByteImage 0 2 openedKernel [readCallOf 3, readCallOf 3] =
        [⟨0, 3, some 3, 3⟩, ⟨3, 3, some 0, 3⟩] := by decide
    rw [htrace] at h
    have hzero := h.zero_at_end ⟨3, 3, some 0, 3⟩ (by simp) rfl
    exact absurd hzero (by decide)

end Ece391Os
