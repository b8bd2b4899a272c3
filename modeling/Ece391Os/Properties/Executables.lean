import Ece391Os.Model.Syscalls
import Ece391Os.Properties.DescriptorTable
import Mathlib.Tactic.IntervalCases

/-!
# Which entries `execute` accepts

`execute` reads the named entry into an uninitialised array and tests the first four bytes
of the array. What is in these bytes is settled here for each kind of entry: the bytes of a
regular file over the old ones, the name of the first entry over the old ones for a
directory, the old ones alone for the rtc. `onlyExecutables_iff` says when the test accepts
exactly the executables.
-/

set_option autoImplicit false

namespace Ece391Os

/-! ## `directory_read` from the first entry -/

section Iteration

variable {img : FsImage} {behind : Nat → UInt8} {nbytes : Int} {fuel : Nat} {dentry : DirEntry}
  {block : FdBlock}

/-- The loop of `directory_read` returns `0` at the end of the directory. -/
theorem directoryLoop_of_end
    (hend : block.flags = 0 ∨ block.filePosition.toNat = maxDirEntries) :
    directoryLoop img behind nbytes (fuel + 1) dentry block = ⟨.returned 0, block, [], []⟩ := by
  rw [directoryLoop, if_pos hend]

/-- It passes over a slot without a name. -/
theorem directoryLoop_of_empty
    (hgo : ¬ (block.flags = 0 ∨ block.filePosition.toNat = maxDirEntries))
    (hempty : (readDentryByIndex img block.filePosition dentry).filename 0 = 0) :
    directoryLoop img behind nbytes (fuel + 1) dentry block =
      directoryLoop img behind nbytes fuel (readDentryByIndex img block.filePosition dentry)
        { block with filePosition := block.filePosition + 1 } := by
  rw [directoryLoop, if_neg hgo]
  simp only [if_pos hempty]

/-- It delivers a name, if the count is not negative. -/
theorem directoryLoop_of_name
    (hgo : ¬ (block.flags = 0 ∨ block.filePosition.toNat = maxDirEntries))
    (hname : (readDentryByIndex img block.filePosition dentry).filename 0 ≠ 0)
    (hn : 0 ≤ nbytes) :
    directoryLoop img behind nbytes (fuel + 1) dentry block =
      let r := copyName ((readDentryByIndex img block.filePosition dentry).byteAt behind)
        nbytes.toNat 0
      { exit := .returned ((r.1.map fun n : Nat => (n : Int)).getD nbytes)
        block := block.nextEntry
        stores := r.2
        fetches := [] } := by
  rw [directoryLoop, if_neg hgo]
  simp only [if_neg hname]
  rcases copyName ((readDentryByIndex img block.filePosition dentry).byteAt behind)
    nbytes.toNat 0 with ⟨_ | n, stores⟩
  · simp only [Int.toNat_of_nonneg hn, if_true, Option.map_none, Option.getD_none]
  · rfl

theorem toNat_position_succ {p : Word} (hp : p.toNat < maxDirEntries) :
    (p + 1).toNat = p.toNat + 1 := by
  simp only [maxDirEntries] at hp
  bv_omega

end Iteration

section DirectoryRead

variable {img : FsImage}

/-- The index is accepted by `read_dentry_by_index`, and the entry has a name. -/
def namedAt (img : FsImage) (p : Nat) : Bool :=
  decide (¬ BitVec.ofNat 32 p > img.inodes - 1) && decide ((img.dirEntries p).filename 0 ≠ 0)

/-- The first entry that `directory_read` finds. -/
def firstNamed (img : FsImage) : Option Nat := (List.range maxDirEntries).find? (namedAt img)

theorem toNat_ofNat_slot {p : Nat} (hp : p < maxDirEntries) : (BitVec.ofNat 32 p).toNat = p := by
  rw [BitVec.toNat_ofNat]
  simp only [maxDirEntries] at hp
  omega

/-- A named slot is what a read of its index finds. -/
theorem readDentryByIndex_of_namedAt {p : Nat} (hp : p < maxDirEntries) {dentry : DirEntry}
    (h : namedAt img p = true) :
    readDentryByIndex img (BitVec.ofNat 32 p) dentry = img.dirEntries p := by
  have haccepted : ¬ BitVec.ofNat 32 p > img.inodes - 1 :=
    of_decide_eq_true (Bool.and_eq_true_iff.mp h).1
  rw [readDentryByIndex, if_neg haccepted, toNat_ofNat_slot hp]

/-- The slot is named exactly if the read finds a name; a refused index finds the entry before. -/
theorem namedAt_iff {p : Nat} (hp : p < maxDirEntries) {dentry : DirEntry}
    (hdentry : BitVec.ofNat 32 p > img.inodes - 1 → dentry.filename 0 = 0) :
    namedAt img p = true ↔
      (readDentryByIndex img (BitVec.ofNat 32 p) dentry).filename 0 ≠ 0 := by
  rw [namedAt, Bool.and_eq_true_iff, decide_eq_true_eq, decide_eq_true_eq, readDentryByIndex]
  split
  next hrefused =>
    exact ⟨fun h => absurd hrefused h.1, fun h => absurd (hdentry hrefused) h⟩
  next haccepted =>
    rw [toNat_ofNat_slot hp]
    exact and_iff_right haccepted

/-- The loop of `directory_read` at entry `p` with the entries before it passed over: it always
returns, and it stores the name of the next named entry, if there is one. -/
theorem directoryLoop_spec {behind : Nat → UInt8} {nbytes : Int} (hn : 0 ≤ nbytes) {fuel p : Nat}
    {dentry : DirEntry} {block : FdBlock} (hfuel : p + fuel = maxDirEntries)
    (hpos : block.filePosition = BitVec.ofNat 32 p) (hflags : block.flags ≠ 0)
    (hdentry : BitVec.ofNat 32 p > img.inodes - 1 → dentry.filename 0 = 0) :
    (∃ v, (directoryLoop img behind nbytes (fuel + 1) dentry block).exit = .returned v) ∧
      (directoryLoop img behind nbytes (fuel + 1) dentry block).stores =
        match (List.range' p fuel).find? (namedAt img) with
        | none => []
        | some q => (copyName ((img.dirEntries q).byteAt behind) nbytes.toNat 0).2 := by
  induction fuel generalizing p dentry block with
  | zero =>
      have hend : block.filePosition.toNat = maxDirEntries := by
        rw [hpos, BitVec.toNat_ofNat]
        simp only [maxDirEntries] at hfuel ⊢
        omega
      rw [directoryLoop_of_end (Or.inr hend)]
      exact ⟨⟨0, rfl⟩, rfl⟩
  | succ fuel ih =>
      have hp : p < maxDirEntries := by omega
      have htoNat := toNat_ofNat_slot hp
      have hgo : ¬ (block.flags = 0 ∨ block.filePosition.toNat = maxDirEntries) := by
        rw [hpos, htoNat]
        rintro (h | h)
        · exact hflags h
        · omega
      have hnamed := namedAt_iff hp hdentry
      rw [← hpos] at hnamed
      rw [List.range'_succ, List.find?_cons]
      cases hname : namedAt img p with
      | false =>
          -- the loop goes on at the next entry
          have hempty : (readDentryByIndex img block.filePosition dentry).filename 0 = 0 := by
            by_contra hne
            rw [hnamed.mpr hne] at hname
            cases hname
          have hnext : block.filePosition + 1 = BitVec.ofNat 32 (p + 1) := by
            apply BitVec.eq_of_toNat_eq
            rw [hpos, BitVec.toNat_add, htoNat, BitVec.toNat_ofNat]
            rfl
          rw [directoryLoop_of_empty hgo hempty]
          exact ih (by omega) hnext hflags fun _ => hempty
      | true =>
          rw [directoryLoop_of_name hgo (hnamed.mp hname) hn, hpos,
            readDentryByIndex_of_namedAt hp hname]
          exact ⟨⟨_, rfl⟩, rfl⟩

/-- `directory_read` on a directory descriptor just opened. -/
theorem directoryRead_spec (img : FsImage) (res : Residue) {nbytes : Int} (hn : 0 ≤ nbytes)
    {block : FdBlock} (hpos : block.filePosition = 0) (hflags : block.flags ≠ 0) :
    (∃ v, (directoryRead img res block nbytes).exit = .returned v) ∧
      (directoryRead img res block nbytes).stores =
        match firstNamed img with
        | none => []
        | some q => (copyName ((img.dirEntries q).byteAt res.behind) nbytes.toNat 0).2 := by
  have hzero : ¬ BitVec.ofNat 32 0 > img.inodes - 1 := by
    intro h
    have := BitVec.lt_def.mp h
    simp at this
  rw [directoryRead, firstNamed, List.range_eq_range']
  apply directoryLoop_spec hn (Nat.zero_add _) hpos hflags
  exact fun h => absurd h hzero

end DirectoryRead

/-! ## The bytes that the test sees -/

/-- The first four bytes are the magic number. -/
def HasMagic (bytes : Nat → UInt8) : Prop := (List.range 4).map bytes = magicLead

instance (bytes : Nat → UInt8) : Decidable (HasMagic bytes) :=
  inferInstanceAs (Decidable ((List.range 4).map bytes = magicLead))

theorem hasMagic_iff {bytes : Nat → UInt8} :
    HasMagic bytes ↔ bytes 0 = 0x7f ∧ bytes 1 = 0x45 ∧ bytes 2 = 0x4c ∧ bytes 3 = 0x46 := by
  simp [HasMagic, magicLead, List.range_succ]

theorem hasMagic_iff_getD {bytes : Nat → UInt8} :
    HasMagic bytes ↔ ∀ j, j < 4 → bytes j = magicLead.getD j 0 := by
  rw [hasMagic_iff]
  constructor
  · rintro ⟨h0, h1, h2, h3⟩ j hj
    interval_cases j
    · exact h0
    · exact h1
    · exact h2
    · exact h3
  · intro h
    exact ⟨h 0 (by decide), h 1 (by decide), h 2 (by decide), h 3 (by decide)⟩

theorem magicLead_ne_zero : ∀ j, j < 4 → magicLead.getD j 0 ≠ 0 := by decide

theorem hasMagic_congr {bytes bytes' : Nat → UInt8} (h : ∀ i, i < 4 → bytes i = bytes' i) :
    HasMagic bytes ↔ HasMagic bytes' := by
  rw [hasMagic_iff, hasMagic_iff, h 0 (by decide), h 1 (by decide), h 2 (by decide),
    h 3 (by decide)]

/-- A copied name makes up the magic number exactly if it starts with it: a shorter name stores
its `NUL` in one of the four bytes. -/
theorem hasMagic_copyName {name : Nat → UInt8} {rem : Nat} (hrem : 4 ≤ rem) (buf : Nat → UInt8) :
    HasMagic (applyStores buf (copyName name rem 0).2) ↔ HasMagic name := by
  have hbyte : ∀ j, j < 4 → (∀ l, l < j → name l ≠ 0) →
      applyStores buf (copyName name rem 0).2 j = name j := by
    intro j hj hall
    rw [applyStores_copyName, if_pos ⟨Nat.zero_le j, by omega, fun l _ hl => hall l hl⟩]
  rw [hasMagic_iff_getD, hasMagic_iff_getD]
  constructor
  · intro h j
    -- no byte of the magic number is `NUL`, so what is in front of byte `j` lets the copy go on
    induction j using Nat.strong_induction_on with
    | _ j ih =>
        intro hj
        have hfront : ∀ l, l < j → name l ≠ 0 := by
          intro l hl
          rw [ih l hl (by omega)]
          exact magicLead_ne_zero l (by omega)
        exact (hbyte j hj hfront).symm.trans (h j hj)
  · intro h j hj
    have hfront : ∀ l, l < j → name l ≠ 0 := by
      intro l hl
      rw [h l (by omega)]
      exact magicLead_ne_zero l (by omega)
    exact (hbyte j hj hfront).trans (h j hj)

/-- The named entry is a regular file whose own first four bytes are the magic number. -/
def Executable (img : FsImage) (name : CString) : Prop :=
  ∃ dentry, readDentryByName img name = some dentry ∧ dentry.fileType = typeFile ∧
    dentry.inodeNum < img.inodes ∧ 4 ≤ (img.nodeList dentry.inodeNum).bLength.toNat ∧
    (List.range 4).map (fileByte img (img.nodeList dentry.inodeNum)) = magicLead.map some

/-- A read returns and does not leave the magic number in the array. -/
def Refuses (res : Residue) (r : CallResult) : Prop :=
  (∃ v, r.exit = .returned v) ∧ ¬ HasMagic (applyStores res.buf r.stores)

/-- What a regular file must be like: without an index node or without bytes, the old content
of the array decides; otherwise all bytes that the loop fetches are mapped, and those that it
stores over the old content do not make up the magic number. -/
def FileFits (img : FsImage) (res : Residue) (inode : Word) : Prop :=
  let node := img.nodeList inode
  let n := node.bLength.toNat
  if inode > img.inodes ∨ n = 0 then ¬ HasMagic res.buf
  else (∀ q, q < executeLength.toNat → q ≤ n → (fileByte img node q).isSome) ∧
    ¬ HasMagic fun i => if i ≤ n then (fileByte img node i).getD 0 else res.buf i

/-- What a directory must be like: without a named entry, the old content of the array decides;
otherwise the name of the first one does not start with the magic number. -/
def DirFits (img : FsImage) (res : Residue) : Prop :=
  if img.numDirEntries = 0 ∨ img.numDirEntries = freeFlags then ¬ HasMagic res.buf
  else match firstNamed img with
    | none => ¬ HasMagic res.buf
    | some q => ¬ HasMagic (img.dirEntries q).filename

/-- What an entry that is no executable must be like for `execute` to refuse it. -/
structure EntryFits (img : FsImage) (res : Residue) (frame : ExecuteFrame) (k : Kernel)
    (dentry : DirEntry) : Prop where
  rtc : dentry.fileType = typeRtc → HasRtc k.fdTable ∨ ¬ HasMagic res.buf
  dir : dentry.fileType = typeDir → ¬ Room k.fdTable ∨ DirFits img res
  file : dentry.fileType = typeFile → FileFits img res dentry.inodeNum
  unknown : opTableOf dentry.fileType = none → res.ret = freeFlags ∨
    Refuses res (sysRead img res k.cli res.ret.toInt (some frame.buf) executeLength)

section Reads

variable {img : FsImage} {res : Residue} {k : Kernel} {fd : Fin 8} {buf : Word}

/-- `file_read` from the first byte of a file that is not empty. -/
theorem fileRead_start {inode : Word} (hinode : ¬ inode > img.inodes)
    (hn : (img.nodeList inode).bLength.toNat ≠ 0) :
    fileRead img ⟨some .file, inode, 0, 1⟩ executeLength =
      readFrom img (img.nodeList inode) ⟨some .file, inode, 0, 1⟩ executeLength.toNat 0 0 := by
  have hzero : (img.nodeList inode).bLength ≠ 0 := by
    intro hzero
    rw [hzero] at hn
    exact hn rfl
  have hpos : ¬ (0 : Word) > (img.nodeList inode).bLength := by
    intro h
    have := BitVec.lt_def.mp h
    simp at this
  simp only [fileRead, readData, if_neg hinode, if_neg hzero, if_neg hpos]
  rfl

/-- The read of such a file stores its bytes, up to the one behind the last, or faults. -/
theorem fileRead_start_stores (res : Residue) {inode : Word} (hinode : ¬ inode > img.inodes)
    (hn : (img.nodeList inode).bLength.toNat ≠ 0)
    (hmap : ∀ q, q < executeLength.toNat → q ≤ (img.nodeList inode).bLength.toNat →
      (fileByte img (img.nodeList inode) q).isSome) :
    (∃ v, (fileRead img ⟨some .file, inode, 0, 1⟩ executeLength).exit = .returned v) ∧
      ∀ j, j < 4 → applyStores res.buf
          (fileRead img ⟨some .file, inode, 0, 1⟩ executeLength).stores j =
        if j ≤ (img.nodeList inode).bLength.toNat then
          (fileByte img (img.nodeList inode) j).getD 0 else res.buf j := by
  rw [fileRead_start hinode hn]
  have hlen : executeLength.toNat = 10000 := rfl
  rw [hlen] at hmap ⊢
  rcases Nat.lt_or_ge (img.nodeList inode).bLength.toNat 10000 with hlt | hge
  · have hread : readFrom img (img.nodeList inode) ⟨some .file, inode, 0, 1⟩ 10000 0 0 = _ :=
      readFrom_eof rfl rfl (Nat.zero_le _) (by omega) fun q _ hq => hmap q (by omega) hq.le
    obtain ⟨b, hb⟩ := Option.isSome_iff_exists.mp (hmap _ hlt le_rfl)
    rw [hb] at hread
    rw [hread]
    refine ⟨⟨_, rfl⟩, fun j _ => ?_⟩
    simp only [applyStores_bytesStored, Nat.zero_add]
    exact if_congr (by omega) rfl rfl
  · have hread : readFrom img (img.nodeList inode) ⟨some .file, inode, 0, 1⟩ 10000 0 (0 + 0) = _ :=
      readFrom_full rfl (by omega) fun m hm => hmap _ (by omega) (by omega)
    simp only [Nat.zero_add] at hread
    rw [hread]
    refine ⟨⟨_, rfl⟩, fun j hj => ?_⟩
    simp only [applyStores_bytesStored, Nat.zero_add]
    exact if_congr (by omega) rfl rfl

/-- A regular file just opened. -/
theorem refuses_file_iff {inode : Word}
    (hblock : k.fdTable fd = ⟨some .file, inode, 0, 1⟩) :
    Refuses res (sysRead img res k fd.val (some buf) executeLength) ↔ FileFits img res inode := by
  have hflags : (1 : Word) ≠ freeFlags := by decide
  rw [sysRead_file_eq (by simp) hblock rfl hflags]
  simp only [Refuses, FileFits]
  by_cases hinode : inode > img.inodes
  · have hread : fileRead img ⟨some .file, inode, 0, 1⟩ executeLength =
        ⟨.returned (-1), ⟨some .file, inode, 0, 1⟩, [], []⟩ := by
      simp only [fileRead, readData, if_pos hinode]
    rw [hread, if_pos (Or.inl hinode)]
    exact ⟨fun h => h.2, fun h => ⟨⟨_, rfl⟩, h⟩⟩
  · by_cases hn : (img.nodeList inode).bLength.toNat = 0
    · have hzero : (img.nodeList inode).bLength = 0 := BitVec.eq_of_toNat_eq (by simpa using hn)
      have hread : fileRead img ⟨some .file, inode, 0, 1⟩ executeLength =
          ⟨.returned 0, ⟨some .file, inode, 0, 1⟩, [], []⟩ := by
        simp only [fileRead, readData, if_neg hinode, if_pos hzero]
      rw [hread, if_pos (Or.inr hn)]
      exact ⟨fun h => h.2, fun h => ⟨⟨_, rfl⟩, h⟩⟩
    · rw [if_neg (not_or.mpr ⟨hinode, hn⟩)]
      -- a read of unmapped memory faults, and then nothing is returned at all
      by_cases hmap : ∀ q, q < executeLength.toNat → q ≤ (img.nodeList inode).bLength.toNat →
          (fileByte img (img.nodeList inode) q).isSome
      · obtain ⟨hexit, hbytes⟩ := fileRead_start_stores res hinode hn hmap
        rw [hasMagic_congr hbytes]
        exact ⟨fun h => ⟨hmap, h.2⟩, fun h => ⟨hexit, h.2⟩⟩
      · constructor
        · rintro ⟨⟨v, hexit⟩, _⟩
          simp only [not_forall, Option.not_isSome_iff_eq_none] at hmap
          obtain ⟨q, hq, hqn, hnone⟩ := hmap
          have hfault : (readFrom img (img.nodeList inode) ⟨some .file, inode, 0, 1⟩
              executeLength.toNat 0 0).exit = .pageFault :=
            readFrom_fault rfl rfl (Nat.zero_le q) (by omega) hqn hnone
          rw [fileRead_start hinode hn, hfault] at hexit
          cases hexit
        · exact fun h => absurd h.1 hmap

/-- A directory just opened. -/
theorem refuses_dir_iff (hblock : k.fdTable fd = ⟨some .dir, 0, 0, img.numDirEntries⟩) :
    Refuses res (sysRead img res k fd.val (some buf) executeLength) ↔ DirFits img res := by
  have hcli : k.cli.fdTable fd = ⟨some .dir, 0, 0, img.numDirEntries⟩ := hblock
  simp only [DirFits]
  -- the count of entries is kept in `flags`, where one value means a free descriptor
  by_cases hfree : img.numDirEntries = freeFlags
  · have hread : sysRead img res k fd.val (some buf) executeLength =
        ⟨.returned (-1), k.cli, []⟩ := by
      have hdriver : k.driver fd = none := if_pos (by rw [hblock]; exact hfree)
      rw [sysRead_driver, hdriver, Option.elim_none]
    rw [hread, if_pos (Or.inr hfree)]
    exact ⟨fun h => h.2, fun h => ⟨⟨_, rfl⟩, h⟩⟩
  · have hread : sysRead img res k fd.val (some buf) executeLength =
        ⟨(directoryRead img res ⟨some .dir, 0, 0, img.numDirEntries⟩ executeLength).exit,
          k.cli.setFd fd
            (directoryRead img res ⟨some .dir, 0, 0, img.numDirEntries⟩ executeLength).block,
          (directoryRead img res ⟨some .dir, 0, 0, img.numDirEntries⟩ executeLength).stores⟩ := by
      have hdriver : k.driver fd = some .dir := by
        rw [driver_of_in_use (by rw [hblock]; exact hfree), hblock]
      rw [sysRead_driver, hdriver, Option.elim_some, OpTable.read, hcli]
    rw [hread]
    by_cases hzero : img.numDirEntries = 0
    · have hempty : directoryRead img res ⟨some .dir, 0, 0, img.numDirEntries⟩ executeLength =
          ⟨.returned 0, ⟨some .dir, 0, 0, img.numDirEntries⟩, [], []⟩ := by
        simp only [directoryRead, directoryLoop, hzero, true_or, if_true]
      rw [hempty, if_pos (Or.inl hzero)]
      exact ⟨fun h => h.2, fun h => ⟨⟨_, rfl⟩, h⟩⟩
    · have hloop := directoryRead_spec img res (by decide : 0 ≤ executeLength)
        (rfl : (⟨some .dir, 0, 0, img.numDirEntries⟩ : FdBlock).filePosition = 0) hzero
      rw [if_neg (not_or.mpr ⟨hzero, hfree⟩)]
      cases hfirst : firstNamed img with
      | none =>
          rw [hfirst] at hloop
          simp only [Refuses, hloop.2]
          exact ⟨fun h => h.2, fun h => ⟨hloop.1, h⟩⟩
      | some q =>
          rw [hfirst] at hloop
          simp only [Refuses, hloop.2]
          -- what is tested is the first name that the directory lists
          have hname : HasMagic (applyStores res.buf (copyName
              ((img.dirEntries q).byteAt res.behind) executeLength.toNat 0).2) ↔
              HasMagic (img.dirEntries q).filename := by
            rw [hasMagic_copyName (by decide)]
            apply hasMagic_congr
            intro i hi
            rw [DirEntry.byteAt, if_pos (by omega)]
          rw [hname]
          exact ⟨fun h => h.2, fun h => ⟨hloop.1, h⟩⟩

/-- The rtc just opened: the read stores nothing. -/
theorem refuses_rtc_iff {filePosition : Word}
    (hblock : k.fdTable fd = ⟨some .rtc, 0, filePosition, 1⟩) :
    Refuses res (sysRead img res k fd.val (some buf) executeLength) ↔ ¬ HasMagic res.buf := by
  have hflags : (k.fdTable fd).flags ≠ freeFlags := by
    rw [hblock]
    exact (by decide : (1 : Word) ≠ freeFlags)
  have hdriver : k.driver fd = some .rtc := by
    rw [driver_of_in_use hflags, hblock]
  rw [sysRead_driver, hdriver]
  exact ⟨fun h => h.2, fun h => ⟨⟨0, rfl⟩, h⟩⟩

end Reads

/-! ## `execute` -/

/-- A process is created only for an executable, and every other entry is refused with `-1`. -/
def OnlyExecutables (img : FsImage) (res : Residue) (frame : ExecuteFrame) (k : Kernel)
    (command : Option CString) : Prop :=
  match execute img res frame k command with
  | .started _ _ => Executable img (commandWord (command.getD []))
  | .stuck => Executable img (commandWord (command.getD []))
  | .returned value _ => value = -1

/-- The calls in which that holds: a command that passes the first tests and names an entry that
is no executable names one that is refused. -/
def LoadFits (img : FsImage) (res : Residue) (frame : ExecuteFrame) (k : Kernel)
    (command : Option CString) : Prop :=
  ∀ cmd, command = some cmd → k.procs.numActiveProcesses < maxProcesses →
    cmd.strlen < execBufferSize → ¬ Executable img (commandWord cmd) →
    ∀ dentry, readDentryByName img (commandWord cmd) = some dentry →
      EntryFits img res frame k dentry

section Execute

variable {img : FsImage} {res : Residue} {frame : ExecuteFrame} {k : Kernel} {cmd : CString}
  {command : Option CString}

/-- The slot search of `file_open` and `rtc_open` always comes to a slot. -/
theorem exists_slotSearch_fdtSize (fds : FdTable) :
    ∃ fd, slotSearch fdtSize fds openSlots = some fd := by
  by_cases hroom : Room fds
  · obtain ⟨fd, hfd, _⟩ := slotSearch_of_room (by decide : 7 ≤ fdtSize) hroom
    exact ⟨fd, hfd⟩
  · exact ⟨0, slotSearch_fdtSize_of_full fun i hi hfree => hroom ⟨i, hi, hfree⟩⟩

/-- `open` fails, or the read of the first bytes refuses: what `execute` answers with `-1`. -/
def NameRefused (img : FsImage) (res : Residue) (frame : ExecuteFrame) (k : Kernel)
    (name : CString) : Prop :=
  (sysOpen img res k (some name)).1 = -1 ∨
    Refuses res (sysRead img res (sysOpen img res k (some name)).2
      (sysOpen img res k (some name)).1 (some frame.buf) executeLength)

/-- The first part of `execute` refuses a command exactly if `open` fails or the read refuses. -/
theorem executeLoad_returned_iff (hnum : k.procs.numActiveProcesses < maxProcesses)
    (hlen : cmd.strlen < execBufferSize) :
    (∃ k', executeLoad img res frame k (some cmd) = .returned (-1) k') ↔
      NameRefused img res frame k (commandWord cmd) := by
  simp only [NameRefused, executeLoad, if_neg (not_le.mpr hnum), if_neg (not_le.mpr hlen)]
  by_cases hopen : (sysOpen img res k (some (commandWord cmd))).1 = -1
  · rw [if_pos hopen]
    exact ⟨fun _ => Or.inl hopen, fun _ => ⟨_, rfl⟩⟩
  · rw [if_neg hopen]
    simp only [Refuses, hopen, false_or]
    cases hexit : (sysRead img res (sysOpen img res k (some (commandWord cmd))).2
        (sysOpen img res k (some (commandWord cmd))).1 (some frame.buf) executeLength).exit with
    | pageFault => simp
    | endless => simp
    | returned v =>
        simp only [Exit.returned.injEq, exists_eq', true_and, HasMagic]
        split
        next hmagic => simp [hmagic]
        next hmagic => simp [hmagic]

/-! The type of the entry decides which part of `EntryFits` speaks. -/

theorem entryFits_of_rtc {dentry : DirEntry} (hrtc : dentry.fileType = typeRtc) :
    EntryFits img res frame k dentry ↔ HasRtc k.fdTable ∨ ¬ HasMagic res.buf := by
  refine ⟨fun h => h.rtc hrtc, fun h => ⟨fun _ => h, ?_, ?_, ?_⟩⟩
  · exact fun hdir => absurd (hrtc.symm.trans hdir) (by decide)
  · exact fun hfile => absurd (hrtc.symm.trans hfile) (by decide)
  · exact fun hnone => absurd hrtc (opTableOf_eq_none.mp hnone).1

theorem entryFits_of_dir {dentry : DirEntry} (hdir : dentry.fileType = typeDir) :
    EntryFits img res frame k dentry ↔ ¬ Room k.fdTable ∨ DirFits img res := by
  refine ⟨fun h => h.dir hdir, fun h => ⟨?_, fun _ => h, ?_, ?_⟩⟩
  · exact fun hrtc => absurd (hrtc.symm.trans hdir) (by decide)
  · exact fun hfile => absurd (hdir.symm.trans hfile) (by decide)
  · exact fun hnone => absurd hdir (opTableOf_eq_none.mp hnone).2.1

theorem entryFits_of_file {dentry : DirEntry} (hfile : dentry.fileType = typeFile) :
    EntryFits img res frame k dentry ↔ FileFits img res dentry.inodeNum := by
  refine ⟨fun h => h.file hfile, fun h => ⟨?_, ?_, fun _ => h, ?_⟩⟩
  · exact fun hrtc => absurd (hrtc.symm.trans hfile) (by decide)
  · exact fun hdir => absurd (hdir.symm.trans hfile) (by decide)
  · exact fun hnone => absurd hfile (opTableOf_eq_none.mp hnone).2.2

theorem entryFits_of_unknown {dentry : DirEntry} (hunknown : opTableOf dentry.fileType = none) :
    EntryFits img res frame k dentry ↔ res.ret = freeFlags ∨
      Refuses res (sysRead img res k.cli res.ret.toInt (some frame.buf) executeLength) := by
  obtain ⟨hrtc, hdir, hfile⟩ := opTableOf_eq_none.mp hunknown
  refine ⟨fun h => h.unknown hunknown, fun h => ⟨?_, ?_, ?_, fun _ => h⟩⟩
  · exact fun h' => absurd h' hrtc
  · exact fun h' => absurd h' hdir
  · exact fun h' => absurd h' hfile

theorem fdIndex_ne_failure (fd : Fin 8) : (fd.val : Int) ≠ -1 := by omega

/-- A second descriptor for the clock is refused; a first one is opened in any slot. -/
theorem nameRefused_of_rtc {name : CString} {dentry : DirEntry}
    (hfound : readDentryByName img name = some dentry) (hrtc : dentry.fileType = typeRtc) :
    NameRefused img res frame k name ↔ HasRtc k.fdTable ∨ ¬ HasMagic res.buf := by
  rw [NameRefused, sysOpen_of_rtc hfound hrtc]
  by_cases hhas : HasRtc k.fdTable
  · have hany : (openSlots.any fun i => (k.cli.cli.fdTable i).isOpenRtc) = true := by
      rw [← Bool.not_eq_false, not_hasRtc_iff, not_not]
      exact hhas
    simp only [rtcOpen, hany, if_true, hhas, true_or]
  · have hany : (openSlots.any fun i => (k.cli.cli.fdTable i).isOpenRtc) = false :=
      not_hasRtc_iff.mpr hhas
    obtain ⟨fd, hfd⟩ := exists_slotSearch_fdtSize k.cli.cli.fdTable
    simp only [rtcOpen, hany, hfd, Bool.false_eq_true, if_false, fdIndex_ne_failure, hhas,
      false_or]
    apply refuses_rtc_iff
    rw [Kernel.sti_fdTable, Kernel.setFd_fdTable, Function.update_self]

/-- A directory is refused without a free slot, and otherwise read. -/
theorem nameRefused_of_dir {name : CString} {dentry : DirEntry}
    (hfound : readDentryByName img name = some dentry) (hdir : dentry.fileType = typeDir) :
    NameRefused img res frame k name ↔ ¬ Room k.fdTable ∨ DirFits img res := by
  rw [NameRefused, sysOpen_of_dir hfound hdir]
  by_cases hroom : Room k.fdTable
  · obtain ⟨fd, hfd, _⟩ := slotSearch_of_room (by decide : 7 ≤ fdtSize - 1) hroom
    have hfd : slotSearch (fdtSize - 1) k.cli.fdTable openSlots = some fd := hfd
    simp only [directoryOpen, hfound, hfd, fdIndex_ne_failure, hroom, not_true, false_or]
    apply refuses_dir_iff
    rw [Kernel.setFd_fdTable, Function.update_self]
  · have hfull : ∀ i : Fin 8, 2 ≤ i → ¬ (k.cli.fdTable i).Free := fun i hi hfree =>
      hroom ⟨i, hi, hfree⟩
    simp only [directoryOpen, hfound, slotSearch_directory_of_full hfull, true_or, hroom,
      not_false_eq_true]

/-- A file is always opened, over a slot in use if none is free, and read. -/
theorem nameRefused_of_file {name : CString} {dentry : DirEntry}
    (hfound : readDentryByName img name = some dentry) (hfile : dentry.fileType = typeFile) :
    NameRefused img res frame k name ↔ FileFits img res dentry.inodeNum := by
  rw [NameRefused, sysOpen_of_file hfound hfile]
  obtain ⟨fd, hfd⟩ := exists_slotSearch_fdtSize k.cli.fdTable
  simp only [fileOpen, hfound, hfd, fdIndex_ne_failure, false_or]
  apply refuses_file_iff
  rw [Kernel.setFd_fdTable, Function.update_self]

/-- For an unknown type `open` returns what its variable held before, and the read goes to that
descriptor. -/
theorem nameRefused_of_unknown {name : CString} {dentry : DirEntry}
    (hfound : readDentryByName img name = some dentry)
    (hunknown : opTableOf dentry.fileType = none) :
    NameRefused img res frame k name ↔ res.ret = freeFlags ∨
      Refuses res (sysRead img res k.cli res.ret.toInt (some frame.buf) executeLength) := by
  obtain ⟨hrtc, hdir, hfile⟩ := opTableOf_eq_none.mp hunknown
  have hret : res.ret.toInt = -1 ↔ res.ret = freeFlags := by
    constructor
    · exact fun h => BitVec.eq_of_toInt_eq (h.trans (by decide))
    · intro h
      rw [h]
      decide
  rw [NameRefused, sysOpen_of_unknown hfound hrtc hdir hfile, hret]

/-- An entry that `open` finds is refused exactly if it fits. -/
theorem nameRefused_iff_entryFits {name : CString} {dentry : DirEntry}
    (hfound : readDentryByName img name = some dentry) :
    NameRefused img res frame k name ↔ EntryFits img res frame k dentry := by
  -- one case for each driver, in the order in which `open` compares the types
  by_cases hrtc : dentry.fileType = typeRtc
  · rw [entryFits_of_rtc hrtc]
    exact nameRefused_of_rtc hfound hrtc
  by_cases hdir : dentry.fileType = typeDir
  · rw [entryFits_of_dir hdir]
    exact nameRefused_of_dir hfound hdir
  by_cases hfile : dentry.fileType = typeFile
  · rw [entryFits_of_file hfile]
    exact nameRefused_of_file hfound hfile
  have hunknown : opTableOf dentry.fileType = none := opTableOf_eq_none.mpr ⟨hrtc, hdir, hfile⟩
  rw [entryFits_of_unknown hunknown]
  exact nameRefused_of_unknown hfound hunknown

/-- A refusal of `execute` is always `-1`. -/
theorem executeLoad_value {v : Int} {k' : Kernel}
    (h : executeLoad img res frame k command = .returned v k') : v = -1 := by
  cases effect_of_executeLoad h <;> rfl

/-- The first part of `execute` refuses a command exactly if a command that passes the first tests
names no entry but one that is refused. -/
theorem executeLoad_returned_iff_entryFits :
    (∃ k', executeLoad img res frame k command = .returned (-1) k') ↔
      ∀ cmd, command = some cmd → k.procs.numActiveProcesses < maxProcesses →
        cmd.strlen < execBufferSize →
        ∀ dentry, readDentryByName img (commandWord cmd) = some dentry →
          EntryFits img res frame k dentry := by
  cases command with
  | none => exact iff_of_true ⟨k, rfl⟩ nofun
  | some cmd =>
      by_cases hnum : k.procs.numActiveProcesses < maxProcesses
      · by_cases hlen : cmd.strlen < execBufferSize
        · rw [executeLoad_returned_iff hnum hlen]
          cases hfound : readDentryByName img (commandWord cmd) with
          | none =>
              have hopen : (sysOpen img res k (some (commandWord cmd))).1 = -1 :=
                congrArg Prod.fst (sysOpen_of_not_found hfound)
              refine iff_of_true (Or.inl hopen) fun cmd' hcmd _ _ dentry hd => ?_
              cases hcmd
              rw [hfound] at hd
              cases hd
          | some dentry =>
              rw [nameRefused_iff_entryFits hfound]
              constructor
              · intro h cmd' hcmd _ _ d hd
                cases hcmd
                have hsame : dentry = d := Option.some.inj (hfound.symm.trans hd)
                exact hsame ▸ h
              · intro h
                exact h cmd rfl hnum hlen dentry hfound
        · -- a long command and a full table are refused without a look at the entry
          refine iff_of_true ⟨k, ?_⟩ fun cmd' hcmd _ hlen' => ?_
          · simp only [executeLoad, if_neg (not_le.mpr hnum), if_pos (not_lt.mp hlen)]
          · cases hcmd
            exact absurd hlen' hlen
      · refine iff_of_true ⟨k, ?_⟩ fun cmd' _ hnum' => absurd hnum' hnum
        simp only [executeLoad, if_pos (not_lt.mp hnum)]

/-- A command that names no executable is handled rightly exactly if the first part of `execute`
refuses it. -/
theorem onlyExecutables_iff_returned (hexec : ¬ Executable img (commandWord (command.getD []))) :
    OnlyExecutables img res frame k command ↔
      ∃ k', executeLoad img res frame k command = .returned (-1) k' := by
  simp only [OnlyExecutables, execute]
  cases hload : executeLoad img res frame k command with
  | returned v k' =>
      have hv := executeLoad_value hload
      subst hv
      simp
  | stuck => simp [hexec]
  | loaded buf k' =>
      cases hspawn : executeSpawn frame k' (command.getD []) buf <;> simp [hspawn, hexec]

end Execute

/-- `execute` creates a process only for an executable, and refuses every other entry, exactly in
the calls of `LoadFits`. -/
theorem onlyExecutables_iff (img : FsImage) (res : Residue) (frame : ExecuteFrame) (k : Kernel)
    (command : Option CString) :
    OnlyExecutables img res frame k command ↔ LoadFits img res frame k command := by
  by_cases hexec : Executable img (commandWord (command.getD []))
  · refine ⟨fun _ cmd hcmd _ _ hnot => ?_, fun _ => ?_⟩
    · subst hcmd
      exact absurd hexec hnot
    · simp only [OnlyExecutables, execute]
      cases hload : executeLoad img res frame k command with
      | returned v k' => exact executeLoad_value hload
      | stuck => exact hexec
      | loaded buf k' =>
          cases hspawn : executeSpawn frame k' (command.getD []) buf <;> simp [hspawn, hexec]
  · rw [onlyExecutables_iff_returned hexec, executeLoad_returned_iff_entryFits]
    constructor
    · intro h cmd hcmd hnum hlen _
      exact h cmd hcmd hnum hlen
    · intro h cmd hcmd hnum hlen
      subst hcmd
      exact h cmd rfl hnum hlen hexec

/-! ## The rtc after an executable -/

/-- `ls` and `rtc`. -/
def lsName : CString := [108, 115]
def rtcName : CString := [114, 116, 99]

/-- An image with the programs `shell` and `ls` and the rtc. -/
def shellImage : FsImage :=
  imageOf [⟨shellName, typeFile, magicLead⟩, ⟨lsName, typeFile, magicLead⟩, ⟨rtcName, typeRtc, []⟩]

/-- The kernel after a call of `execute` that started a process. -/
def ExecuteResult.kernelD (r : ExecuteResult) (k : Kernel) : Kernel :=
  match r with
  | .started _ k' => k'
  | .returned _ _ | .stuck => k

/-- The kernel in which the first shell runs. -/
def firstShell : Kernel :=
  (execute shellImage emptyResidue ⟨0x7FFFB0, 0x7F6300⟩ (bootKernel 0x7FFFC0)
    (some shellName)).kernelD (bootKernel 0x7FFFC0)

/-- The stack of the shell after it executed a program: the bytes of the program are still in
`buf`. -/
def staleResidue : Residue := { emptyResidue with buf := fun i => magicLead.getD i 0 }

/-- The shell then executes `rtc`, which creates a process. -/
theorem not_onlyExecutables_rtc :
    ¬ OnlyExecutables shellImage staleResidue ⟨0x7F7FB1, 0x7EE300⟩ firstShell (some rtcName) := by
  have hstarted : (match execute shellImage staleResidue ⟨0x7F7FB1, 0x7EE300⟩ firstShell
      (some rtcName) with
      | .started _ _ => true
      | .returned _ _ | .stuck => false) = true := by decide
  intro h
  rw [OnlyExecutables] at h
  split at h
  · obtain ⟨dentry, hfound, htype, _⟩ := h
    have hentry : (readDentryByName shellImage rtcName).map DirEntry.fileType = some typeRtc := by
      decide
    have hname : commandWord ((some rtcName).getD []) = rtcName := by decide
    rw [hname] at hfound
    rw [hfound, Option.map_some, htype] at hentry
    exact absurd hentry (by decide)
  · rw [‹execute _ _ _ _ _ = _›] at hstarted
    cases hstarted
  · rw [‹execute _ _ _ _ _ = _›] at hstarted
    cases hstarted

end Ece391Os
