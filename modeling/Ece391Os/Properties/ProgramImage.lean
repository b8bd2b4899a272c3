import Ece391Os.Properties.FailedExecute
import Ece391Os.Properties.KernelStacks
import Ece391Os.Properties.ProcessAccounting

/-!
# The image of a program

`execute` reads the program into a local array and copies the first `length` bytes of the array to
the page of the new process. `loadsProgram_iff` says for which files the page then holds the whole
program.
-/

set_option autoImplicit false

namespace Ece391Os

/-- The bytes of a file, as far as they are mapped. -/
def fileBytes (img : FsImage) (inode : Word) (i : Nat) : UInt8 :=
  (fileByte img (img.nodeList inode) i).getD 0

/-- The page of the new process holds the file from `0x8048000` on, and the process starts at the
word at offset 24 of the file. -/
structure LoadsProgram (img : FsImage) (inode : Word) (entry : Word) (k' : Kernel) : Prop where
  bytes : ∀ i, i < (img.nodeList inode).bLength.toNat →
    k'.programMem k'.procs.currentPid i = fileBytes img inode i
  entry : 28 ≤ (img.nodeList inode).bLength.toNat → entry = wordAt (fileBytes img inode) 24

section Program

variable {img : FsImage} {res : Residue} {frame : ExecuteFrame} {k k' : Kernel} {cmd : CString}
  {dentry : DirEntry} {buf : Nat → UInt8}

/-! ## The array -/

/-- A program that is loaded from a regular file has been read in one call of `file_read`, which
returned. -/
theorem fileRead_of_loaded (hfound : readDentryByName img (commandWord cmd) = some dentry)
    (htype : dentry.fileType = typeFile)
    (h : executeLoad img res frame k (some cmd) = .loaded buf k') :
    (∃ v, (fileRead img ⟨some .file, dentry.inodeNum, 0, 1⟩ executeLength).exit = .returned v) ∧
      buf = applyStores res.buf
        (fileRead img ⟨some .file, dentry.inodeNum, 0, 1⟩ executeLength).stores := by
  obtain ⟨fd, k₁, hopened, -⟩ := opened_file img res k hfound htype
  have hread : sysRead img res k₁ fd.val (some frame.buf) executeLength = _ :=
    sysRead_file_eq (by simp) hopened.block rfl (by decide : (1 : Word) ≠ freeFlags)
  cases effect_of_executeLoad h with
  | @loaded _ v _ _ _ hexit =>
      rw [hopened.ret, hread] at hexit ⊢
      exact ⟨⟨v, hexit⟩, rfl⟩

/-- The array then holds the bytes of the file, as many as `execute` asks for. -/
theorem buf_of_loaded (hwf : img.WellFormed)
    (hfound : readDentryByName img (commandWord cmd) = some dentry)
    (htype : dentry.fileType = typeFile)
    (h : executeLoad img res frame k (some cmd) = .loaded buf k') {i : Nat}
    (hi : i < executeLength.toNat) (hin : i < (img.nodeList dentry.inodeNum).bLength.toNat) :
    buf i = fileBytes img dentry.inodeNum i := by
  obtain ⟨⟨v, hexit⟩, rfl⟩ := fileRead_of_loaded hfound htype h
  have hinode : dentry.inodeNum < img.inodes := by
    obtain ⟨j, hj, rfl, hname⟩ := readDentryByName_mem hfound
    exact hwf.inode_valid j hj hname htype
  have hfile : OnFile img ⟨some .file, dentry.inodeNum, 0, 1⟩
      (img.nodeList dentry.inodeNum).bLength.toNat := ⟨hinode, rfl, Nat.zero_le _⟩
  have hlen : executeLength.toNat = 10000 := rfl
  have hstart : fileRead img ⟨some .file, dentry.inodeNum, 0, 1⟩ executeLength =
      readData img ⟨some .file, dentry.inodeNum, 0, 1⟩ 0 executeLength.toNat := rfl
  rw [hstart] at hexit ⊢
  rw [hlen] at hi hexit ⊢
  -- a shorter file is read to its end, of a longer one as much as was asked for
  rcases Nat.lt_or_ge (img.nodeList dentry.inodeNum).bLength.toNat 10000 with hshort | hlong
  · have hread := hfile.readData_eof hwf.blocks_valid (by omega) rfl hshort
    cases htail : fileByte img (img.nodeList dentry.inodeNum)
        (img.nodeList dentry.inodeNum).bLength.toNat with
    | none =>
        rw [htail] at hread
        rw [hread] at hexit
        cases hexit
    | some b =>
        rw [htail] at hread
        rw [hread, applyStores_bytesStored, if_pos (by omega), Nat.zero_add]
        rfl
  · have hfits : (0 : Word).toNat + 10000 ≤ (img.nodeList dentry.inodeNum).bLength.toNat := by
      simpa using hlong
    have hread := hfile.readData_fits hwf.blocks_valid (by omega) hfits
    rw [hread, applyStores_bytesStored, if_pos (by omega)]
    exact congrArg (fileBytes img dentry.inodeNum) (Nat.zero_add i)

/-- A regular file that begins with the magic number is loaded, if no page fault comes in
between: a file shorter than the array is read up to the byte behind it. -/
theorem executeLoad_of_program (hwf : img.WellFormed)
    (hfound : readDentryByName img (commandWord cmd) = some dentry)
    (htype : dentry.fileType = typeFile) (hnum : k.procs.numActiveProcesses < maxProcesses)
    (hshort : cmd.strlen < execBufferSize)
    (hsize : 4 ≤ (img.nodeList dentry.inodeNum).bLength.toNat)
    (hmagic : HasMagic (fileBytes img dentry.inodeNum))
    (htail : (img.nodeList dentry.inodeNum).bLength.toNat < executeLength.toNat →
      (fileByte img (img.nodeList dentry.inodeNum)
        (img.nodeList dentry.inodeNum).bLength.toNat).isSome) :
    ∃ buf k₁, executeLoad img res frame k (some cmd) = .loaded buf k₁ := by
  obtain ⟨fd, k₁, hopened, -⟩ := opened_file img res k hfound htype
  have hinode : dentry.inodeNum < img.inodes := by
    obtain ⟨j, hj, rfl, hname⟩ := readDentryByName_mem hfound
    exact hwf.inode_valid j hj hname htype
  have hnot : ¬ dentry.inodeNum > img.inodes := by
    have := BitVec.lt_def.mp hinode
    exact fun h => absurd (BitVec.lt_def.mp h) (by omega)
  -- every byte that the read touches lies in a block of the file
  obtain ⟨⟨v, hexit⟩, hbytes⟩ := fileRead_start_stores res hnot (by omega) fun q hq hle => by
    rcases Nat.lt_or_eq_of_le hle with hlt | rfl
    · exact hwf.fileByte_isSome hinode hlt
    · exact htail hq
  have hstored : HasMagic (applyStores res.buf
      (fileRead img ⟨some .file, dentry.inodeNum, 0, 1⟩ executeLength).stores) := by
    apply (hasMagic_congr _).mp hmagic
    intro j hj
    rw [hbytes j hj, if_pos (by omega)]
    rfl
  have hread : sysRead img res k₁ fd.val (some frame.buf) executeLength = _ :=
    sysRead_file_eq (by simp) hopened.block rfl (by decide : (1 : Word) ≠ freeFlags)
  have hfd : (fd.val : Int) ≠ -1 := by omega
  simp only [executeLoad, if_neg (not_le.mpr hnum), if_neg (not_le.mpr hshort), hopened.ret,
    if_neg hfd, hread, hexit]
  exact ⟨_, _, if_pos hstored⟩

/-! ## The page -/

/-- No `open`, `read` or `close` writes to the pages of the programs. -/
theorem callFrame_programMem : CallFrame Kernel.programMem where
  fds := fun _ _ _ => rfl
  interrupts := fun _ _ => rfl
  rtc := fun _ _ => rfl
  output := fun _ _ _ => rfl
  reader := fun _ _ _ => rfl

/-- The second part of `execute` copies the array to the page of the new process. -/
theorem programMem_executeSpawn (h : executeSpawn frame k cmd buf = some k') (i : Nat) :
    k'.programMem k'.procs.currentPid i =
      if i < executeLength.toNat then buf i else k.programMem k'.procs.currentPid i := by
  obtain ⟨q, hs⟩ := spawns_of_executeSpawn h
  rw [hs.current, hs.programMem, Function.update_self]

/-- If there is a free control block, the program is started. -/
theorem execute_of_loaded {k₁ : Kernel} {p : Pid} (hp : p ≠ sentinelProcess)
    (hfree : (k.procs.controlBlocks p).pid = -1)
    (hload : executeLoad img res frame k (some cmd) = .loaded buf k₁) :
    ∃ entry k', execute img res frame k (some cmd) = .started entry k' := by
  have hslots : k₁.slots = k.slots := callFrame_slots.executeLoad.2 _ hload
  obtain ⟨q, hq⟩ := freePid_of_free (k := k₁) hp (by rw [hslots]; exact hfree)
  have hspawn : ∃ k', executeSpawn frame k₁ cmd buf = some k' := by
    simp only [executeSpawn, createNewPcb, hq]
    exact ⟨_, rfl⟩
  obtain ⟨k', hk'⟩ := hspawn
  refine ⟨wordAt buf 24, k', ?_⟩
  simp only [execute, hload, Option.getD_some, hk']

/-- What lies behind the copied bytes stays as it was. -/
theorem programMem_started {entry : Word}
    (h : execute img res frame k (some cmd) = .started entry k') {i : Nat}
    (hi : executeLength.toNat ≤ i) :
    k'.programMem k'.procs.currentPid i = k.programMem k'.procs.currentPid i := by
  obtain ⟨buf, k₁, hload, hspawn, -⟩ := executeSpawn_of_started h
  have hold : k₁.programMem = k.programMem := callFrame_programMem.executeLoad.2 _ hload
  rw [programMem_executeSpawn hspawn, if_neg (by omega), hold]

end Program

/-- A program that starts has been loaded completely exactly if it is not longer than the array is
read, or the rest of it is what the page of the new process holds already. -/
theorem loadsProgram_iff {img : FsImage} (hwf : img.WellFormed) {res : Residue}
    {frame : ExecuteFrame} {k k' : Kernel} {cmd : CString} {dentry : DirEntry} {entry : Word}
    (hfound : readDentryByName img (commandWord cmd) = some dentry)
    (htype : dentry.fileType = typeFile)
    (hstart : execute img res frame k (some cmd) = .started entry k') :
    LoadsProgram img dentry.inodeNum entry k' ↔
      ∀ i, executeLength.toNat ≤ i → i < (img.nodeList dentry.inodeNum).bLength.toNat →
        k.programMem k'.procs.currentPid i = fileBytes img dentry.inodeNum i := by
  have hbehind := fun {i : Nat} => programMem_started (i := i) hstart
  obtain ⟨buf, k₁, hload, hspawn, rfl⟩ := executeSpawn_of_started hstart
  have hpage := programMem_executeSpawn hspawn
  have hbytes := fun {i : Nat} => buf_of_loaded (i := i) hwf hfound htype hload
  have hlen : executeLength.toNat = 10000 := rfl
  constructor
  · intro hloads i hi hin
    rw [← hbehind hi]
    exact hloads.bytes i hin
  · intro htail
    refine ⟨fun i hin => ?_, fun hsize => ?_⟩
    · rcases Nat.lt_or_ge i executeLength.toNat with hi | hi
      · rw [hpage, if_pos hi]
        exact hbytes hi hin
      · rw [hbehind hi]
        exact htail i hi hin
    · simp only [wordAt]
      rw [hbytes (by omega) (by omega), hbytes (by omega) (by omega), hbytes (by omega) (by omega),
        hbytes (by omega) (by omega)]

/-! ## A program of 10001 bytes -/

/-- An image with the one program `shell` of `n` bytes, which are ones behind the magic number. -/
def programImage (n : Nat) : FsImage where
  numDirEntries := 1
  inodes := 1
  dataBlocks := 3
  dirEntries := fun i =>
    if i = 0 then ⟨fun j => shellName.getD j 0, typeFile, 0, fun _ => 0⟩
    else ⟨fun _ => 0, 0, 0, fun _ => 0⟩
  nodeList := fun _ => ⟨BitVec.ofNat 32 n, fun b => BitVec.ofNat 32 b⟩
  dataList := fun b j =>
    if b < 3 ∧ j < fileSize then some (if b = 0 then magicLead.getD j 1 else 1) else none
  dataList_isSome := by
    intro b hb j hj
    rw [if_pos ⟨hb, hj⟩]
    rfl

theorem programImage_wellFormed {n : Nat} (hn : n ≤ 3 * fileSize) :
    (programImage n).WellFormed where
  blocks_valid := by
    intro inode _ i hi
    simp only [programImage, blockCount, fileSize, BitVec.toNat_ofNat] at hi hn ⊢
    have hthree : (3 : Word).toNat = 3 := rfl
    rw [BitVec.lt_def, BitVec.toNat_ofNat, hthree]
    omega
  inode_valid := by
    intro i _ hname _
    simp only [programImage] at hname ⊢
    split
    · decide
    next hi =>
      rw [if_neg hi] at hname
      exact absurd rfl hname

/-- The first program of the system is started, if it is not shorter than the array. -/
theorem execute_programImage {n : Nat} (hlong : executeLength.toNat ≤ n)
    (hn : n ≤ 3 * fileSize) :
    ∃ entry k', execute (programImage n) emptyResidue ⟨0x7FFFB0, 0x7F6300⟩ (bootKernel 0x7FFFC0)
      (some shellName) = .started entry k' := by
  have hlen : executeLength.toNat = 10000 := rfl
  have hsize : ((programImage n).nodeList 0).bLength.toNat = n := by
    simp only [fileSize] at hn
    simp only [programImage, BitVec.toNat_ofNat]
    omega
  have hload : ∃ buf k₁, executeLoad (programImage n) emptyResidue ⟨0x7FFFB0, 0x7F6300⟩
      (bootKernel 0x7FFFC0) (some shellName) = .loaded buf k₁ := by
    have hfound : readDentryByName (programImage n) (commandWord shellName) =
        some ((programImage n).dirEntries 0) := rfl
    apply executeLoad_of_program (programImage_wellFormed hn) hfound rfl (by decide) (by decide)
    · have hentry : ((programImage n).dirEntries 0).inodeNum = 0 := rfl
      rw [hentry, hsize]
      omega
    · exact hasMagic_iff.mpr ⟨rfl, rfl, rfl, rfl⟩
    · have hentry : ((programImage n).dirEntries 0).inodeNum = 0 := rfl
      rw [hentry, hsize]
      omega
  obtain ⟨buf, k₁, hload⟩ := hload
  exact execute_of_loaded (p := 1) (by decide) rfl hload

/-- A program that is as long as the array is read. -/
theorem loadsProgram_tenThousand :
    ∃ entry k', execute (programImage 10000) emptyResidue ⟨0x7FFFB0, 0x7F6300⟩
        (bootKernel 0x7FFFC0) (some shellName) = .started entry k' ∧
      LoadsProgram (programImage 10000) 0 entry k' := by
  obtain ⟨entry, k', hstart⟩ := execute_programImage (n := 10000) le_rfl (by decide)
  have hfound : readDentryByName (programImage 10000) (commandWord shellName) =
      some ((programImage 10000).dirEntries 0) := rfl
  refine ⟨entry, k', hstart, ?_⟩
  refine (loadsProgram_iff (programImage_wellFormed (by decide)) hfound rfl hstart).mpr ?_
  intro i hi hin
  have hsize : ((programImage 10000).nodeList 0).bLength.toNat = 10000 := rfl
  have hlen : executeLength.toNat = 10000 := rfl
  have hlt : i < ((programImage 10000).nodeList 0).bLength.toNat := hin
  omega

/-- The last byte of a program of 10001 bytes does not arrive. -/
theorem not_loadsProgram_tenThousandOne :
    (programImage 10001).WellFormed ∧
      readDentryByName (programImage 10001) (commandWord shellName) =
        some ((programImage 10001).dirEntries 0) ∧
      HasMagic (fileBytes (programImage 10001) 0) ∧
      ∃ entry k', execute (programImage 10001) emptyResidue ⟨0x7FFFB0, 0x7F6300⟩
          (bootKernel 0x7FFFC0) (some shellName) = .started entry k' ∧
        ¬ LoadsProgram (programImage 10001) 0 entry k' := by
  obtain ⟨entry, k', hstart⟩ := execute_programImage (n := 10001) (by decide) (by decide)
  refine ⟨programImage_wellFormed (by decide), rfl, hasMagic_iff.mpr ⟨rfl, rfl, rfl, rfl⟩, entry,
    k', hstart, fun hloads => ?_⟩
  have hlast : k'.programMem k'.procs.currentPid 10000 = 1 := hloads.bytes 10000 (by decide)
  rw [programMem_started hstart (by decide)] at hlast
  have hclear : (bootKernel 0x7FFFC0).programMem k'.procs.currentPid 10000 = 0 := rfl
  rw [hclear] at hlast
  cases hlast

end Ece391Os
