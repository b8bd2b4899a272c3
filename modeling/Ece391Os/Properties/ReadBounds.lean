import Ece391Os.Model.SystemCall
import Ece391Os.Properties.FileReading

/-!
# What a read stores, and from where

`fileRead_sound` says that the bytes a read of a file delivers are those of the file.
`staysInside_iff` says in which calls `read_data` keeps to the index nodes of the image, to the
blocks of the file and to the bytes that it counts, and `keepsToBuffer_iff` in which calls `read`
and `getargs` keep to the buffer of their caller.
-/

set_option autoImplicit false

namespace Ece391Os

/-! ## Stores and fetches -/

section Transfers

variable {img : FsImage} {node : NodeBlock}

theorem mem_bytesStored {p m i : Nat} {s : Nat × UInt8} (h : s ∈ bytesStored img node p m i) :
    i ≤ s.1 ∧ s.1 < i + m := by
  induction m generalizing i with
  | zero => cases h
  | succ m ih =>
      rcases List.mem_cons.mp h with rfl | hrest
      · exact ⟨le_rfl, by simp only; omega⟩
      · obtain ⟨hle, hlt⟩ := ih hrest
        exact ⟨by omega, by omega⟩

/-- Every index up to the count is stored. -/
theorem exists_mem_bytesStored (p : Nat) {m i j : Nat} (hle : i ≤ j) (hlt : j < i + m) :
    ∃ s ∈ bytesStored img node p m i, s.1 = j := by
  induction m generalizing i with
  | zero => omega
  | succ m ih =>
      rcases eq_or_ne i j with rfl | hne
      · exact ⟨_, List.mem_cons_self, rfl⟩
      · obtain ⟨s, hs, hindex⟩ := ih (i := i + 1) (by omega) (by omega)
        exact ⟨s, List.mem_cons_of_mem _ hs, hindex⟩

theorem mem_bytesFetched_iff {m q : Nat} {f : Word × Nat} :
    f ∈ bytesFetched node m q ↔ ∃ l, l < m ∧ f = dataIndex node (q + l) := by
  induction m generalizing q with
  | zero => simp [bytesFetched]
  | succ m ih =>
      rw [bytesFetched, List.mem_cons, ih]
      constructor
      · rintro (rfl | ⟨l, hl, rfl⟩)
        · exact ⟨0, by omega, rfl⟩
        · exact ⟨l + 1, by omega, by rw [show q + 1 + l = q + (l + 1) by omega]⟩
      · rintro ⟨l, hl, rfl⟩
        cases l with
        | zero => exact Or.inl rfl
        | succ l => exact Or.inr ⟨l, by omega, by rw [show q + 1 + l = q + (l + 1) by omega]⟩

end Transfers

/-! ## The bytes that are delivered -/

/-- The kinds of calls of `read_data` on an open file: the file is empty, the request lies inside
it, it is cut short at its end, or it starts at the first byte and runs past the end. -/
theorem OnFile.request_cases {img : FsImage} {block : FdBlock} {n : Nat}
    (h : OnFile img block n) (m : Nat) :
    n = 0 ∨ 0 < n ∧ block.filePosition.toNat + m ≤ n ∨
      0 < block.filePosition.toNat ∧ n < block.filePosition.toNat + m ∨
      0 < n ∧ block.filePosition.toNat = 0 ∧ n < m := by
  have hle := h.position_le
  omega

/-- Whenever a read of a regular file returns a positive count, each counted byte of the buffer is
the byte of the file at that place behind the position: that of the data block which the index
node names for it. -/
theorem fileRead_sound {img : FsImage} (hwf : img.WellFormed) {block : FdBlock}
    (hinode : block.inode < img.inodes) {nbytes r : Int}
    (hread : (fileRead img block nbytes).exit = .returned r) (buf : Nat → UInt8) {k : Nat}
    (hk : (k : Int) < r) :
    img.dataList
        ((img.nodeList block.inode).dataBlocks ((block.filePosition.toNat + k) / fileSize))
        ((block.filePosition.toNat + k) % fileSize) =
      some (applyStores buf (fileRead img block nbytes).stores k) := by
  set m := (BitVec.ofInt 32 nbytes).toNat
  have hread' : (readData img block block.filePosition m).exit = .returned r := hread
  have hstores : (fileRead img block nbytes).stores =
      (readData img block block.filePosition m).stores := rfl
  rw [hstores]
  -- the buffer holds the byte of the file, if it was stored and lies in the file
  have hbyte : ∀ c : Nat, k < c →
      block.filePosition.toNat + k < (img.nodeList block.inode).bLength.toNat →
      fileByte img (img.nodeList block.inode) (block.filePosition.toNat + k) =
        some (applyStores buf (bytesStored img (img.nodeList block.inode)
          block.filePosition.toNat c 0) k) := by
    intro c hc hin
    obtain ⟨b, hb⟩ := Option.isSome_iff_exists.mp (hwf.fileByte_isSome hinode hin)
    rw [applyStores_bytesStored, if_pos (by omega), hb]
    rfl
  rcases Nat.lt_or_ge (img.nodeList block.inode).bLength.toNat block.filePosition.toNat
    with hpast | hle
  · -- behind the end of the file nothing is counted
    have hgt : block.filePosition > (img.nodeList block.inode).bLength := BitVec.lt_def.mpr hpast
    have hnot : ¬ block.inode > img.inodes := by
      have := BitVec.lt_def.mp hinode
      exact fun h => absurd (BitVec.lt_def.mp h) (by omega)
    simp only [readData, if_neg hnot, if_pos hgt, ite_self] at hread'
    have hr : r = 0 := (Exit.returned.inj hread').symm
    omega
  · have hfile : OnFile img block (img.nodeList block.inode).bLength.toNat := ⟨hinode, rfl, hle⟩
    rcases hfile.request_cases m with hzero | ⟨hn, hfits⟩ | ⟨hpos, hcut⟩ | ⟨hn, hstart, heof⟩
    · have hempty : OnFile img block 0 := hzero ▸ hfile
      rw [hempty.readData_empty] at hread'
      have hr : r = 0 := (Exit.returned.inj hread').symm
      omega
    · rw [hfile.readData_fits hwf.blocks_valid hn hfits] at hread' ⊢
      have hr : r = m := (Exit.returned.inj hread').symm
      exact hbyte m (by omega) (by omega)
    · rw [hfile.readData_cut hwf.blocks_valid hpos hcut] at hread'
      have hr : r = 0 := (Exit.returned.inj hread').symm
      omega
    · -- the byte behind the file is stored as well, but not counted
      have hend := hfile.readData_eof hwf.blocks_valid hn hstart heof
      cases htail : fileByte img (img.nodeList block.inode)
          (img.nodeList block.inode).bLength.toNat with
      | none =>
          rw [htail] at hend
          rw [hend] at hread'
          cases hread'
      | some b =>
          rw [htail] at hend
          rw [hend] at hread' ⊢
          have hr : r = (img.nodeList block.inode).bLength.toNat :=
            (Exit.returned.inj hread').symm
          have hfound := hbyte ((img.nodeList block.inode).bLength.toNat + 1) (by omega) (by omega)
          rw [hstart] at hfound ⊢
          exact hfound

/-- The file `hello`, open at position `p`. -/
def helloAt (p : Word) : FdBlock := ⟨some .file, 0, p, 1⟩

theorem wellFormed_fiveByteImage : fiveByteImage.WellFormed := imageOf_wellFormed (by decide)

/-- A read of three bytes at position 1: the third byte. -/
theorem fileRead_sound_hello :
    fiveByteImage.dataList 0 3 =
      some (applyStores (fun _ => 0) (fileRead fiveByteImage (helloAt 1) 3).stores 2) := by
  have hread : (fileRead fiveByteImage (helloAt 1) 3).exit = .returned 3 := by decide
  exact fileRead_sound wellFormed_fiveByteImage (by decide) hread (fun _ => 0) (k := 2) (by decide)

/-! ## What `read_data` keeps to -/

/-- The index nodes whose block numbers and length `read_data` looks at: it compares the number
with that of the nodes first. -/
def nodesUsed (img : FsImage) (block : FdBlock) : List Word :=
  if block.inode > img.inodes then [] else [block.inode]

/-- `read_data` uses index nodes of the image only, fetches bytes of the blocks of the file only,
and stores bytes that it counts only. -/
structure StaysInside (img : FsImage) (block : FdBlock) (m : Nat) : Prop where
  nodes : ∀ i ∈ nodesUsed img block, i < img.inodes
  fetches : ∀ f ∈ (readData img block block.filePosition m).fetches,
    ∃ k, k < blockCount (img.nodeList block.inode).bLength.toNat ∧
      f.1 = (img.nodeList block.inode).dataBlocks k ∧ f.2 < fileSize
  stores : ∀ v, (readData img block block.filePosition m).exit = .returned v →
    ∀ s ∈ (readData img block block.filePosition m).stores, (s.1 : Int) < v

section StaysInside

variable {img : FsImage} {block : FdBlock} {n : Nat}

/-- The bytes of a file lie in its blocks. -/
theorem fetch_inside {node : NodeBlock} {q : Nat} (hq : q < node.bLength.toNat) :
    ∃ k, k < blockCount node.bLength.toNat ∧ (dataIndex node q).1 = node.dataBlocks k ∧
      (dataIndex node q).2 < fileSize := by
  refine ⟨q / fileSize, ?_, rfl, Nat.mod_lt _ (by simp [fileSize])⟩
  simp only [blockCount, fileSize]
  omega

/-- The node of an open file is one of the image. -/
theorem OnFile.nodes (h : OnFile img block n) : ∀ i ∈ nodesUsed img block, i < img.inodes := by
  intro i hi
  simp only [nodesUsed] at hi
  split at hi
  · cases hi
  · rw [List.mem_singleton.mp hi]
    exact h.inode_lt

/-- A call that neither fetches nor stores, with a node of the image if it uses one. -/
theorem staysInside_of_silent {v : Int} {m : Nat}
    (hnodes : ∀ i ∈ nodesUsed img block, i < img.inodes)
    (hread : readData img block block.filePosition m = ⟨.returned v, block, [], []⟩) :
    StaysInside img block m := by
  refine ⟨hnodes, ?_, ?_⟩
  · rw [hread]
    intro f hf
    cases hf
  · rw [hread]
    intro v _ s hs
    cases hs

/-- A request inside the file. -/
theorem OnFile.staysInside_fits (h : OnFile img block n) (hblocks : img.BlocksValid) (hn : 0 < n)
    {m : Nat} (hfits : block.filePosition.toNat + m ≤ n) : StaysInside img block m := by
  have hlen := h.length_eq
  refine ⟨h.nodes, ?_, ?_⟩
  · rw [h.readData_fits hblocks hn hfits]
    intro f hf
    obtain ⟨l, hl, rfl⟩ := mem_bytesFetched_iff.mp hf
    exact fetch_inside (by omega)
  · rw [h.readData_fits hblocks hn hfits]
    intro v hv s hs
    have hlt := (mem_bytesStored hs).2
    have hval : v = m := (Exit.returned.inj hv).symm
    omega

/-- A request that is cut short stores what is left of the file and counts nothing. -/
theorem OnFile.staysInside_cut (h : OnFile img block n) (hblocks : img.BlocksValid) {m : Nat}
    (hpos : 0 < block.filePosition.toNat) (hcut : n < block.filePosition.toNat + m) :
    StaysInside img block m ↔ block.filePosition.toNat = n := by
  have hlen := h.length_eq
  have hle := h.position_le
  have hread := h.readData_cut hblocks hpos hcut
  constructor
  · intro hstays
    by_contra hne
    have hstored : ∃ s ∈ bytesStored img (img.nodeList block.inode) block.filePosition.toNat
        (n - block.filePosition.toNat) 0, s.1 = 0 :=
      exists_mem_bytesStored _ le_rfl (by omega)
    obtain ⟨s, hs, -⟩ := hstored
    have hcount := hstays.stores 0 (by rw [hread]) s (by rw [hread]; exact hs)
    omega
  · intro heq
    rw [heq, Nat.sub_self] at hread
    exact staysInside_of_silent h.nodes hread

/-- A request from the first byte past the end of the file fetches and stores the byte behind it:
if that byte is not mapped, its block is none of the file's. -/
theorem OnFile.not_staysInside_eof (h : OnFile img block n) (hblocks : img.BlocksValid)
    (hn : 0 < n) {m : Nat} (hpos : block.filePosition.toNat = 0) (heof : n < m) :
    ¬ StaysInside img block m := by
  have hlen := h.length_eq
  have hread := h.readData_eof hblocks hn hpos heof
  intro hstays
  cases htail : fileByte img (img.nodeList block.inode) n with
  | none =>
      rw [htail] at hread
      have hfetch : dataIndex (img.nodeList block.inode) n ∈
          (readData img block block.filePosition m).fetches := by
        rw [hread]
        exact mem_bytesFetched_iff.mpr ⟨n, by omega, by rw [Nat.zero_add]⟩
      obtain ⟨k, hk, hblock, hoffset⟩ := hstays.fetches _ hfetch
      have hmapped := img.dataList_isSome _ (hblocks _ h.inode_lt k hk) _ hoffset
      rw [← hblock] at hmapped
      have hnone : img.dataList (dataIndex (img.nodeList block.inode) n).1
          (dataIndex (img.nodeList block.inode) n).2 = none := htail
      rw [hnone] at hmapped
      cases hmapped
  | some b =>
      rw [htail] at hread
      have hstored : ∃ s ∈ bytesStored img (img.nodeList block.inode) 0 (n + 1) 0, s.1 = n :=
        exists_mem_bytesStored 0 (Nat.zero_le n) (by omega)
      obtain ⟨s, hs, hindex⟩ := hstored
      have hcount := hstays.stores n (by rw [hread]) s (by rw [hread]; exact hs)
      omega

/-- A node past the end of the list is refused. -/
theorem staysInside_of_refused (hinode : block.inode > img.inodes) (m : Nat) :
    StaysInside img block m := by
  apply staysInside_of_silent (v := -1)
  · rw [nodesUsed, if_pos hinode]
    intro i hi
    cases hi
  · simp only [readData, if_pos hinode]

end StaysInside

/-- For every position up to the length, `read_data` keeps to the file exactly if the index node is
not the first one behind the list and, for a node of the list, the file is empty, the position is
at its end, or the request does not reach past it. -/
theorem staysInside_iff {img : FsImage} (hblocks : img.BlocksValid) {block : FdBlock}
    (hle : block.filePosition.toNat ≤ (img.nodeList block.inode).bLength.toNat) (m : Nat) :
    StaysInside img block m ↔
      block.inode ≠ img.inodes ∧ (block.inode < img.inodes →
        (img.nodeList block.inode).bLength.toNat = 0 ∨
          block.filePosition.toNat = (img.nodeList block.inode).bLength.toNat ∨
          block.filePosition.toNat + m ≤ (img.nodeList block.inode).bLength.toNat) := by
  rcases BitVec.lt_trichotomy block.inode img.inodes with hlt | heq | hgt
  · have hfile : OnFile img block (img.nodeList block.inode).bLength.toNat := ⟨hlt, rfl, hle⟩
    have hne : block.inode ≠ img.inodes := BitVec.ne_of_lt hlt
    have hcases : StaysInside img block m ↔
        ((img.nodeList block.inode).bLength.toNat = 0 ∨
          block.filePosition.toNat = (img.nodeList block.inode).bLength.toNat ∨
          block.filePosition.toNat + m ≤ (img.nodeList block.inode).bLength.toNat) := by
      rcases hfile.request_cases m with hzero | ⟨hn, hfits⟩ | ⟨hpos, hcut⟩ | ⟨hn, hstart, heof⟩
      · have hempty : OnFile img block 0 := hzero ▸ hfile
        have hstays := staysInside_of_silent hempty.nodes (hempty.readData_empty m)
        exact ⟨fun _ => Or.inl hzero, fun _ => hstays⟩
      · have hstays := hfile.staysInside_fits hblocks hn hfits
        exact ⟨fun _ => Or.inr (Or.inr hfits), fun _ => hstays⟩
      · rw [hfile.staysInside_cut hblocks hpos hcut]
        omega
      · have hnot := hfile.not_staysInside_eof hblocks hn hstart heof
        refine ⟨fun hstays => absurd hstays hnot, fun hcond => ?_⟩
        omega
    rw [hcases]
    exact ⟨fun h => ⟨hne, fun _ => h⟩, fun h => h.2 hlt⟩
  · -- the node behind the last one passes the comparison
    have hnot : ¬ block.inode > img.inodes := by
      rw [heq]
      exact BitVec.lt_irrefl _
    constructor
    · intro hstays
      have hused : block.inode ∈ nodesUsed img block := by
        rw [nodesUsed, if_neg hnot]
        exact List.mem_singleton_self _
      exact absurd (hstays.nodes _ hused) (by rw [heq]; exact BitVec.lt_irrefl _)
    · exact fun h => absurd heq h.1
  · have hnot : ¬ block.inode < img.inodes := by
      intro hlt
      exact absurd (BitVec.lt_def.mp hlt) (by have := BitVec.lt_def.mp hgt; omega)
    refine ⟨fun _ => ⟨fun heq => ?_, fun hlt => absurd hlt hnot⟩, fun _ => ?_⟩
    · rw [heq] at hgt
      exact BitVec.lt_irrefl _ hgt
    · exact staysInside_of_refused hgt m

/-- A request inside the file. -/
theorem staysInside_hello : StaysInside fiveByteImage (helloAt 1) 3 :=
  (staysInside_iff wellFormed_fiveByteImage.blocks_valid (by decide) 3).mpr
    ⟨by decide, fun _ => Or.inr (Or.inr (by decide))⟩

/-- A request of ten bytes at the first byte stores a sixth one. -/
theorem not_staysInside_hello :
    fiveByteImage.BlocksValid ∧ (helloAt 0).inode = (fiveByteImage.dirEntries 0).inodeNum ∧
      (helloAt 0).filePosition.toNat ≤ (fiveByteImage.nodeList (helloAt 0).inode).bLength.toNat ∧
      ¬ StaysInside fiveByteImage (helloAt 0) 10 := by
  have hblocks : fiveByteImage.BlocksValid := wellFormed_fiveByteImage.blocks_valid
  refine ⟨hblocks, rfl, by decide, ?_⟩
  have hfile : OnFile fiveByteImage (helloAt 0) 5 := ⟨by decide, by decide, by decide⟩
  exact hfile.not_staysInside_eof hblocks (by decide) rfl (by decide)

/-! ## The buffer of the caller -/

section Buffer

variable {img : FsImage} {res : Residue} {k : Kernel}

theorem index_lt_of_mem_readLoop {node : NodeBlock} {block : FdBlock} {rem i j loop : Nat}
    {curr : Word} {s : Nat × UInt8} (h : s ∈ (readLoop img node block rem i j loop curr).stores) :
    s.1 < i + rem := by
  induction rem generalizing i j loop curr with
  | zero => simp [readLoop] at h
  | succ rem ih =>
      rw [readLoop] at h
      split at h
      · split at h
        · simp at h
        · rw [List.mem_singleton.mp h]
          simp only
          omega
      · split at h
        · simp at h
        · split at h
          · simp at h
          next b _ =>
            split at h
            · rcases List.mem_cons.mp h with rfl | h
              · simp only
                omega
              · have := ih h
                omega
            · rcases List.mem_cons.mp h with rfl | h
              · simp only
                omega
              · have := ih h
                omega

theorem index_lt_of_mem_copyName {name : Nat → UInt8} {rem i : Nat} {s : Nat × UInt8}
    (h : s ∈ (copyName name rem i).2) : s.1 < i + rem := by
  induction rem generalizing i with
  | zero => simp [copyName] at h
  | succ rem ih =>
      rw [copyName] at h
      split at h
      · rw [List.mem_singleton.mp h]
        simp only
        omega
      · rcases List.mem_cons.mp h with rfl | h
        · simp only
          omega
        · have := ih h
          omega

theorem index_lt_of_mem_directoryLoop {behind : Nat → UInt8} {nbytes : Int} {fuel : Nat}
    {dentry : DirEntry} {block : FdBlock} {s : Nat × UInt8}
    (h : s ∈ (directoryLoop img behind nbytes fuel dentry block).stores) :
    s.1 < nbytes.toNat := by
  -- over the rounds of the loop; only the copy that ends it counts among the stores
  induction fuel generalizing dentry block with
  | zero => simp [directoryLoop] at h
  | succ fuel ih =>
      simp only [directoryLoop] at h
      split at h
      · simp at h
      · split at h
        · exact ih h
        · rcases hcopy : copyName ((readDentryByIndex img block.filePosition dentry).byteAt behind)
            nbytes.toNat 0 with ⟨_ | n, stores⟩
          · have hmem : ∀ s ∈ stores, s.1 < nbytes.toNat := by
              intro s hs
              have hmem := congrArg Prod.snd hcopy
              simp only at hmem
              rw [← hmem] at hs
              have := index_lt_of_mem_copyName hs
              omega
            simp only [hcopy] at h
            split at h
            · exact hmem s h
            · exact ih h
          · have hmem : s ∈ (copyName
                ((readDentryByIndex img block.filePosition dentry).byteAt behind)
                nbytes.toNat 0).2 := by
              rw [hcopy]
              simpa only [hcopy] using h
            have := index_lt_of_mem_copyName hmem
            omega

theorem index_lt_of_mem_fileRead {block : FdBlock} {nbytes : Nat} (hn : nbytes < 2 ^ 31)
    {s : Nat × UInt8} (h : s ∈ (fileRead img block nbytes).stores) : s.1 < nbytes := by
  simp only [fileRead, readData, toNat_ofInt_natCast hn] at h
  split at h
  · simp at h
  · split at h
    · simp at h
    · split at h
      · simp at h
      · have := index_lt_of_mem_readLoop h
        omega

theorem index_lt_of_mem_terminalRead {nbytes : Nat} {s : Nat × UInt8}
    (h : s ∈ (terminalRead res k nbytes).stores) : s.1 < nbytes := by
  simp only [terminalRead] at h
  split at h
  · simp at h
  · obtain ⟨i, hi, rfl⟩ := List.mem_map.mp h
    exact List.mem_range.mp hi

/-- `read` stores inside the count it is given. -/
theorem index_lt_of_mem_sysRead {fd : Int} {buf : Option Word} {nbytes : Nat} (hn : nbytes < 2 ^ 31)
    {s : Nat × UInt8} (h : s ∈ (sysRead img res k fd buf nbytes).stores) : s.1 < nbytes := by
  rcases sysRead_dispatch img res k fd buf nbytes with hread | ⟨i, op, -, -, hread⟩
  · rw [hread] at h
    cases h
  · rw [hread] at h
    cases op with
    | stdin => exact index_lt_of_mem_terminalRead h
    | stdout => cases h
    | file => exact index_lt_of_mem_fileRead hn h
    | dir => exact index_lt_of_mem_directoryLoop h
    | rtc => cases h

end Buffer

/-- The calls that fill a buffer. -/
inductive BufferCall where
  | read (fd : Int)
  | getargs
  deriving DecidableEq, Repr

/-- The stores of a call through `buf`. -/
def BufferCall.stores (img : FsImage) (res : Residue) (k : Kernel) (buf : Option Word)
    (nbytes : Int) : BufferCall → Stores
  | .read fd => (sysRead img res k fd buf nbytes).stores
  | .getargs => (Ece391Os.getargs k buf nbytes).stores

/-- `args_size` in `getargs`. -/
def Kernel.argsSize (k : Kernel) : Nat :=
  CString.strlen ((List.range argsBufferSize).map
    (k.procs.controlBlocks k.procs.currentPid).args)

/-- The call stores into the first `nbytes` bytes of the buffer only. -/
def KeepsToBuffer (img : FsImage) (res : Residue) (k : Kernel) (buf : Option Word) (nbytes : Int)
    (call : BufferCall) : Prop :=
  ∀ s ∈ call.stores img res k buf nbytes, (s.1 : Int) < nbytes

/-- A call with a positive count keeps to the buffer exactly if it is not a `getargs` whose
arguments are as long as the count. -/
theorem keepsToBuffer_iff (img : FsImage) (res : Residue) (k : Kernel) (buf : Option Word)
    {nbytes : Int} (hpos : 1 ≤ nbytes) (hmax : nbytes < 2 ^ 31) (call : BufferCall) :
    KeepsToBuffer img res k buf nbytes call ↔
      ¬ (call = .getargs ∧ buf ≠ none ∧ (k.argsSize : Int) = nbytes) := by
  obtain ⟨n, rfl⟩ : ∃ n : Nat, nbytes = n := Int.eq_ofNat_of_zero_le (by omega)
  cases call with
  | read fd =>
      constructor
      · intro _ h
        cases h.1
      · intro _ s hs
        exact_mod_cast index_lt_of_mem_sysRead (by omega) hs
  | getargs =>
      simp only [KeepsToBuffer, BufferCall.stores, true_and]
      have hcli : CString.strlen ((List.range argsBufferSize).map
          (k.cli.procs.controlBlocks k.cli.procs.currentPid).args) = k.argsSize := rfl
      simp only [Ece391Os.getargs, hcli]
      split
      next hnull => exact ⟨fun _ h => absurd hnull h.1, fun _ s hs => by cases hs⟩
      · split
        · omega
        · split
          next hfail =>
            refine ⟨fun _ h => ?_, fun _ s hs => by cases hs⟩
            rcases hfail with hlong | hempty
            · omega
            · omega
          next hnull _ hfits =>
            constructor
            · -- the terminating `NUL` is the last store
              rintro h ⟨-, hsize⟩
              have hlast := h (k.argsSize, 0) (List.mem_append_right _ List.mem_cons_self)
              omega
            · intro hne s hs
              have hsize : k.argsSize ≠ n := fun heq => hne ⟨hnull, by rw [heq]⟩
              rcases List.mem_append.mp hs with hs | hs
              · obtain ⟨i, hi, rfl⟩ := List.mem_map.mp hs
                have hlt := List.mem_range.mp hi
                simp only
                omega
              · rw [List.mem_singleton.mp hs]
                simp only
                omega

/-- A process with the arguments `abc`. -/
def abcKernel : Kernel :=
  (bootKernel 0).setPcb 0 { initialPcb 0 0 with args := fun i => [97, 98, 99].getD i 0 }

theorem keepsToBuffer_abc :
    KeepsToBuffer fiveByteImage emptyResidue abcKernel (some 0x8400000) 4 .getargs :=
  (keepsToBuffer_iff fiveByteImage emptyResidue abcKernel (some 0x8400000) (by decide) (by decide)
    .getargs).mpr (by decide +kernel)

/-- With room for three bytes `getargs` stores four. -/
theorem not_keepsToBuffer_abc :
    ¬ KeepsToBuffer fiveByteImage emptyResidue abcKernel (some 0x8400000) 3 .getargs := by
  intro h
  have hstore : ((3, 0) : Nat × UInt8) ∈
      BufferCall.stores fiveByteImage emptyResidue abcKernel (some 0x8400000) 3 .getargs := by
    decide +kernel
  exact absurd (h _ hstore) (by decide)

end Ece391Os
