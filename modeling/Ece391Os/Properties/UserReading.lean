import Ece391Os.Properties.ReadBounds
import Ece391Os.Properties.UserLibrary

/-!
# Reading into the arrays of a program

The rules of `ece391_read` for a regular file, for the directory and for the console, and of
`ece391_getargs`: what each call returns, which bytes of the array it fills, and where the
descriptor stands afterwards.
-/

set_option autoImplicit false

namespace Ece391Os

open Interaction Program

/-! ## Stores into an array -/

/-- The array `b'` is `b` with `text` from index `i` on; a call may have changed other bytes among
the `n` from there on as well. -/
structure Buffer.Filled (b : Buffer) (i n : Nat) (text : List UInt8) (b' : Buffer) : Prop where
  size_eq : b'.size = b.size
  text_eq : ∀ j, j < text.length → b'.bytes (i + j) = text.getD j 0
  outside : ∀ j, j < i ∨ i + n ≤ j → b'.bytes j = b.bytes j

section Stores

variable {b : Buffer} {i n : Nat} {stores : Stores}

/-- Stores that are made from index `i` on. -/
theorem applyStores_shift (bytes : Nat → UInt8) (i j : Nat) (stores : Stores) :
    applyStores bytes (stores.map fun s => (i + s.1, s.2)) j =
      if j < i then bytes j else applyStores (fun l => bytes (i + l)) stores (j - i) := by
  induction stores generalizing bytes with
  | nil =>
      show bytes j = if j < i then bytes j else bytes (i + (j - i))
      split
      · rfl
      · rw [Nat.add_sub_cancel' (by omega)]
  | cons s stores ih =>
      have hcons : applyStores bytes ((s :: stores).map fun s => (i + s.1, s.2)) j =
          applyStores (Function.update bytes (i + s.1) s.2)
            (stores.map fun s => (i + s.1, s.2)) j := rfl
      have hupdate : (fun l => Function.update bytes (i + s.1) s.2 (i + l)) =
          Function.update (fun l => bytes (i + l)) s.1 s.2 := by
        funext l
        rcases eq_or_ne l s.1 with rfl | hne
        · rw [Function.update_self, Function.update_self]
        · rw [Function.update_of_ne hne, Function.update_of_ne (by omega)]
      rw [hcons, ih, hupdate]
      split
      next hlt => rw [Function.update_of_ne (by omega)]
      next => rfl

/-- Stores do not reach an index behind all of theirs. -/
theorem applyStores_of_le (hstores : ∀ s ∈ stores, s.1 < n) (bytes : Nat → UInt8) {j : Nat}
    (hj : n ≤ j) : applyStores bytes stores j = bytes j := by
  induction stores generalizing bytes with
  | nil => rfl
  | cons s stores ih =>
      have hs := hstores s List.mem_cons_self
      have hcons : applyStores bytes (s :: stores) j =
          applyStores (Function.update bytes s.1 s.2) stores j := rfl
      rw [hcons, ih fun s hs => hstores s (List.mem_cons_of_mem _ hs),
        Function.update_of_ne (by omega)]

/-- A call that stores inside the `n` bytes from index `i` on, and puts a text there. -/
theorem receive_filled (hsize : i + n ≤ b.size) (hstores : ∀ s ∈ stores, s.1 < n)
    {text : List UInt8} (htext : ∀ bytes j, j < text.length →
      applyStores bytes stores j = text.getD j 0) :
    ∃ b', b.receive i stores = some b' ∧ b.Filled i n text b' := by
  have hall : (stores.all fun s => decide (i + s.1 < b.size)) = true := by
    apply List.all_eq_true.mpr
    intro s hs
    have hlt := hstores s hs
    exact decide_eq_true (by omega)
  refine ⟨_, if_pos hall, rfl, fun j hj => ?_, fun j hj => ?_⟩
  · show applyStores b.bytes (stores.map fun s => (i + s.1, s.2)) (i + j) = text.getD j 0
    rw [applyStores_shift, if_neg (by omega), Nat.add_sub_cancel_left]
    exact htext _ j hj
  · show applyStores b.bytes (stores.map fun s => (i + s.1, s.2)) j = b.bytes j
    rw [applyStores_shift]
    split
    · rfl
    next hge =>
      rw [applyStores_of_le hstores _ (by omega), Nat.add_sub_cancel' (by omega)]

/-- A text with its terminator at the beginning of an array. -/
theorem Buffer.Filled.holds {t : List UInt8} {b' : Buffer} (h : b.Filled 0 n (t ++ [0]) b')
    (hclean : (0 : UInt8) ∉ t) (hsize : t.length < b.size) : b'.Holds t := by
  have hlen : (t ++ [0]).length = t.length + 1 := List.length_append
  constructor
  case inside => rw [h.size_eq]; exact hsize
  case chars =>
    intro j hj
    have hbyte := h.text_eq j (by omega)
    rw [Nat.zero_add, List.getD_append _ _ _ _ hj] at hbyte
    exact hbyte
  case nul =>
    have hbyte := h.text_eq t.length (by omega)
    rw [Nat.zero_add, List.getD_append_right _ _ _ _ (Nat.le_refl _), Nat.sub_self] at hbyte
    exact hbyte
  case clean => exact hclean

/-- A text that a program has terminated itself. -/
theorem Buffer.Filled.terminated {t : List UInt8} {b' : Buffer} (h : b.Filled 0 n t b')
    (hclean : (0 : UInt8) ∉ t) (hsize : t.length < b.size) :
    ({ b' with bytes := Function.update b'.bytes t.length 0 } : Buffer).Holds t := by
  constructor
  case inside =>
    show t.length < b'.size
    rw [h.size_eq]
    exact hsize
  case chars =>
    intro j hj
    have hbyte := h.text_eq j hj
    rw [Nat.zero_add] at hbyte
    show Function.update b'.bytes t.length 0 j = t.getD j 0
    rw [Function.update_of_ne (by omega), hbyte]
  case nul => exact Function.update_self _ _ _
  case clean => exact hclean

end Stores

/-! ## Regular files -/

/-- The descriptor refers to a regular file with the given content and stands at position `pos`. -/
structure FileAt (img : FsImage) (content : List UInt8) (pos : Nat) (b : FdBlock) : Prop where
  onFile : OnFile img b content.length
  bytes : ∀ q, q < content.length →
    fileByte img (img.nodeList b.inode) q = some (content.getD q 0)
  position : b.filePosition.toNat = pos
  ops : b.fileOperationsPointer = some .file
  in_use : ¬ b.Free

/-- The number of bytes that a read of `n` bytes delivers from position `pos` of a file of length
`len`: a request that runs past the end is only served from the beginning of the file. -/
def fileCount (len pos n : Nat) : Nat :=
  if pos + n ≤ len then n else if pos = 0 then len else 0

section Files

variable {img : FsImage} {content : List UInt8} {pos : Nat} {block : FdBlock}

theorem fileCount_le {len pos n : Nat} (hpos : pos ≤ len) : pos + fileCount len pos n ≤ len := by
  rw [fileCount]
  split
  · assumption
  · split
    · omega
    · omega

theorem fileCount_le_request {len pos n : Nat} : fileCount len pos n ≤ n := by
  rw [fileCount]
  split
  · exact le_rfl
  · split
    · omega
    · exact Nat.zero_le n

/-- The request lies inside the file, or it is one for the whole of a shorter file, or it is cut
short. -/
theorem fileCount_cases (len pos n : Nat) :
    pos + n ≤ len ∧ fileCount len pos n = n ∨ pos = 0 ∧ len < n ∧ fileCount len pos n = len ∨
      0 < pos ∧ len < pos + n ∧ fileCount len pos n = 0 := by
  rw [fileCount]
  split
  · exact Or.inl ⟨by assumption, rfl⟩
  · split
    · exact Or.inr (Or.inl ⟨by assumption, by omega, rfl⟩)
    · exact Or.inr (Or.inr ⟨by omega, by omega, rfl⟩)

theorem FileAt.advance (h : FileAt img content pos block) {m : Nat}
    (hm : pos + m ≤ content.length) : FileAt img content (pos + m) (block.advance m) := by
  have hlen := h.onFile.length_eq
  have hlt := (img.nodeList block.inode).bLength.isLt
  have hpos : (block.advance m).filePosition.toNat = pos + m := by
    rw [advance_filePosition_toNat, h.position]
    exact Nat.mod_eq_of_lt (by omega)
  constructor
  case onFile => exact ⟨h.onFile.inode_lt, hlen, by rw [hpos]; exact hm⟩
  case bytes => exact h.bytes
  case position => exact hpos
  case ops => exact h.ops
  case in_use => exact h.in_use

/-- The stored bytes are those of the content. -/
theorem FileAt.applyStores_eq (h : FileAt img content pos block) {m j : Nat} (hj : j < m)
    (hm : pos + m ≤ content.length) (bytes : Nat → UInt8) {m' : Nat} (hm' : m ≤ m') :
    applyStores bytes (bytesStored img (img.nodeList block.inode) pos m' 0) j =
      ((content.drop pos).take m).getD j 0 := by
  rw [applyStores_bytesStored, if_pos ⟨Nat.zero_le _, by omega⟩, h.bytes _ (by omega),
    Option.getD_some]
  simp only [List.getD_eq_getElem?_getD, List.getElem?_take_of_lt hj, List.getElem?_drop]

@[simp] theorem advance_zero (b : FdBlock) : b.advance 0 = b := by
  rw [FdBlock.advance, BitVec.add_zero]

/-- Behind the end of a file that ends in its first block, another byte of the block is mapped. -/
theorem OnFile.fileByte_end (h : OnFile img block content.length) (hblocks : img.BlocksValid)
    (hpos : 0 < content.length) (hmax : content.length < fileSize) :
    ∃ c, fileByte img (img.nodeList block.inode) content.length = some c := by
  have hfirst : content.length / fileSize = 0 := Nat.div_eq_of_lt hmax
  have hblock : 0 < blockCount (img.nodeList block.inode).bLength.toNat := by
    rw [h.length_eq, blockCount]
    simp only [fileSize]
    omega
  rw [fileByte, dataIndex, hfirst]
  exact Option.isSome_iff_exists.mp (img.dataList_isSome _ (hblocks _ h.inode_lt 0 hblock) _
    (Nat.mod_lt _ (by decide)))

/-- What a read of a regular file does. -/
theorem FileAt.fileRead_eq (h : FileAt img content pos block) (hblocks : img.BlocksValid) {n : Nat}
    (hn : 0 < n) (hmax : n ≤ fileSize) :
    ∃ stores fetches, fileRead img block n =
        ⟨.returned (fileCount content.length pos n : Nat),
          block.advance (fileCount content.length pos n), stores, fetches⟩ ∧
      (∀ s ∈ stores, s.1 < n) ∧
      ∀ bytes j, j < fileCount content.length pos n → applyStores bytes stores j =
        ((content.drop pos).take (fileCount content.length pos n)).getD j 0 := by
  have hsize : fileSize = 4096 := rfl
  obtain ⟨hfile, hbytes, rfl, hops, huse⟩ := h
  have hat : FileAt img content block.filePosition.toNat block := ⟨hfile, hbytes, rfl, hops, huse⟩
  have hle := hfile.position_le
  rw [fileRead_natCast (by omega)]
  rcases hfile.request_cases n with hzero | ⟨hlen, hfits⟩ | ⟨hpos, hcut⟩ | ⟨hlen, hstart, heof⟩
  · -- an empty file
    have hempty : OnFile img block 0 := hzero ▸ hfile
    have hcount : fileCount content.length block.filePosition.toNat n = 0 := by
      rw [fileCount, if_neg (by omega), if_pos (by omega), hzero]
    rw [hcount, hempty.readData_empty, advance_zero]
    exact ⟨[], [], rfl, fun _ hs => absurd hs List.not_mem_nil, fun _ _ hj => by omega⟩
  · have hcount : fileCount content.length block.filePosition.toNat n = n := if_pos hfits
    rw [hcount, hfile.readData_fits hblocks hlen hfits]
    exact ⟨_, _, rfl, fun s hs => by have := (mem_bytesStored hs).2; omega,
      fun bytes j hj => hat.applyStores_eq hj hfits bytes le_rfl⟩
  · -- the rest of the file is stored and not counted
    have hcount : fileCount content.length block.filePosition.toNat n = 0 := by
      rw [fileCount, if_neg (by omega), if_neg (by omega)]
    rw [hcount, hfile.readData_cut hblocks hpos hcut, advance_zero]
    exact ⟨_, _, rfl, fun s hs => by have := (mem_bytesStored hs).2; omega,
      fun _ _ hj => by omega⟩
  · -- one byte behind the file is stored and not counted
    have hcount : fileCount content.length block.filePosition.toNat n = content.length := by
      rw [fileCount, if_neg (by omega), if_pos hstart]
    obtain ⟨c, hc⟩ := hfile.fileByte_end hblocks hlen (by omega)
    rw [hcount, hfile.readData_eof hblocks hlen hstart heof, hc]
    refine ⟨_, _, rfl, fun s hs => by have := (mem_bytesStored hs).2; omega, fun bytes j hj => ?_⟩
    have hstored := hat.applyStores_eq hj (by omega) bytes (Nat.le_succ content.length)
    rw [hstart] at hstored ⊢
    exact hstored

end Files

section Reads

variable {img : FsImage} {env : Environment} {p : Pid} {v : View} {s : UserProcess}

/-- A read that has an answer fills the array. -/
theorem ensures_read {fd nbytes value : Int} {stores : Stores} {s' : UserProcess}
    (hanswer : answer img env s (.read fd nbytes) = some (⟨value, stores⟩, s')) {b : Buffer}
    {i n : Nat} (hsize : i + n ≤ b.size) (hstores : ∀ s ∈ stores, s.1 < n) {text : List UInt8}
    (htext : ∀ bytes j, j < text.length → applyStores bytes stores j = text.getD j 0) :
    Ensures (answer img env) (ece391Read fd b i nbytes) s fun r t =>
      r.1 = value ∧ b.Filled i n text r.2 ∧ t = s' := by
  obtain ⟨b', hreceive, hfilled⟩ := receive_filled hsize hstores htext
  apply (ensures_of_answer hanswer).seq
  rintro r t ⟨rfl, rfl⟩
  apply Ensures.require hreceive
  exact ensures_pure ⟨rfl, hfilled, rfl⟩

/-- A read of a regular file into an array that has room for the request. -/
theorem ensures_read_file (h : Sees p v s) (hkeeps : env.Keeps p) (hblocks : img.BlocksValid)
    {fd : Fin 8} {content : List UInt8} {pos : Nat} (hfile : FileAt img content pos (v.fds fd))
    {b : Buffer} {i n : Nat} (hn : 0 < n) (hmax : n ≤ fileSize) (hsize : i + n ≤ b.size) :
    Ensures (answer img env) (ece391Read fd.val b i n) s fun r s' =>
      r.1 = (fileCount content.length pos n : Nat) ∧
        b.Filled i n ((content.drop pos).take (fileCount content.length pos n)) r.2 ∧
        ∃ block, FileAt img content (pos + fileCount content.length pos n) block ∧
          Sees p { v with
            fds := Function.update v.fds fd block
            reads := v.reads + 1 } s' := by
  have hin := h.enter hkeeps
  obtain ⟨stores, fetches, hread, hstores, htext⟩ := hfile.fileRead_eq hblocks hn hmax
  generalize hm : fileCount content.length pos n = m at hread htext ⊢
  have hcount : pos + m ≤ content.length :=
    hm ▸ fileCount_le (hfile.position ▸ hfile.onFile.position_le)
  have hlen : ((content.drop pos).take m).length = m := by
    rw [List.length_take, List.length_drop]
    omega
  generalize hk : (env.between s.calls s.kernel).cli.setFd fd ((v.fds fd).advance m) = k
  have hops : ((v.fds fd).advance m).fileOperationsPointer = some .file := hfile.ops
  have hprivate : ((v.fds fd).advance m).Private :=
    FdBlock.private_of_ops hops (by decide) (by decide)
  have hruns : Runs p (Function.update v.fds fd ((v.fds fd).advance m)) v.args k :=
    hk ▸ hin.cli.setFd (h.ne_one hfile.ops (by decide)) hprivate
  have hanswer : answer img env s (.read fd.val n) =
      some (⟨(m : Nat), stores⟩, { s.after k with reads := s.reads + 1 }) := by
    simp only [answer, sysRead_file_eq (Option.some_ne_none _) (congrFun hin.fdTable fd) hfile.ops
      hfile.in_use, hread, CallResult.value?, Option.map_some, hk]
  apply (ensures_read hanswer hsize hstores fun bytes j hj =>
    htext bytes j (by rw [← hlen]; exact hj)).mono
  rintro r t ⟨hvalue, hfilled, rfl⟩
  exact ⟨hvalue, hfilled, _, hfile.advance hcount,
    Runs.sees hruns (congrArg (· + 1) h.reads) h.written h.executed⟩

/-! ## The directory -/

/-- A directory descriptor counts its entries in `flags`, and there are too few for the free
marker. -/
theorem BeforeEntries.in_use {block : FdBlock} {l : List Nat} (h : BeforeEntries img block l) :
    ¬ block.Free := by
  intro hfree
  have hfree : block.flags = freeFlags := hfree
  have hflags := h.flags
  have hle : l.length ≤ maxDirEntries := by
    rw [← h.rest, namedFrom]
    exact (List.length_filter_le _ _).trans (by rw [List.length_range']; exact Nat.sub_le _ _)
  rw [hfree] at hflags
  have hbig : freeFlags.toNat = 4294967295 := rfl
  have hmax : maxDirEntries = 63 := rfl
  omega

/-- What a read delivers in front of the entries `l`, and where it leaves the descriptor. -/
def NextName (img : FsImage) (l : List Nat) (text : List UInt8) (block : FdBlock) : Prop :=
  match l with
  | [] => text = []
  | q :: l => text = (img.dirEntries q).name ∧ BeforeEntries img block l

/-- What `directory_read` does with an array for a name. -/
theorem BeforeEntries.directoryRead_eq (himg : img.Listed) {block : FdBlock} {l : List Nat}
    (h : BeforeEntries img block l) (res : Residue) :
    ∃ (text : List UInt8) (block' : FdBlock) (stores : Stores),
      directoryRead img res block filenameSize =
        ⟨.returned text.length, block', stores, []⟩ ∧
      block'.fileOperationsPointer = block.fileOperationsPointer ∧
      (∀ s ∈ stores, s.1 < filenameSize) ∧
      (∀ bytes j, j < text.length → applyStores bytes stores j = text.getD j 0) ∧
      NextName img l text block' := by
  cases l with
  | nil =>
      refine ⟨[], block, [], directoryLoop_end h, rfl, fun _ hs => absurd hs List.not_mem_nil,
        fun _ _ hj => absurd hj (Nat.not_lt_zero _), rfl⟩
  | cons q l =>
      have hread : directoryRead img res block filenameSize =
          Ece391Os.deliver img res.behind filenameSize block q :=
        directoryLoop_at himg (Int.natCast_nonneg _) h (Nat.le_add_left _ _)
      have hnot : ¬ Overruns (img.dirEntries q) filenameSize := fun hover =>
        absurd hover.2.1 (lt_irrefl _)
      obtain ⟨hexit, hstores⟩ := (@delivers_iff img res.behind filenameSize block q).mpr hnot
      have hlen : (img.dirEntries q).name.length ≤ filenameSize := PaddedText.length_read_le _ _ _
      rw [min_eq_right (by exact_mod_cast hlen)] at hexit hstores
      refine ⟨(img.dirEntries q).name, (Ece391Os.deliver img res.behind filenameSize block q).block,
        (Ece391Os.deliver img res.behind filenameSize block q).stores, ?_, rfl, fun s hs => ?_,
        fun bytes j hj => hstores bytes j (by exact_mod_cast hj), rfl, h.deliver⟩
      · rw [hread, ← hexit]
        rfl
      · have hlt := index_lt_of_mem_copyName hs
        rw [Nat.zero_add] at hlt
        exact hlt

/-- A read of the directory into an array that has room for a name: it delivers the name of the
next entry, or nothing behind the last one. -/
theorem ensures_read_dir (h : Sees p v s) (hkeeps : env.Keeps p) (himg : img.Listed) {fd : Fin 8}
    {l : List Nat} (hdir : BeforeEntries img (v.fds fd) l)
    (hops : (v.fds fd).fileOperationsPointer = some .dir) {b : Buffer} {i : Nat}
    (hsize : i + filenameSize ≤ b.size) :
    Ensures (answer img env) (ece391Read fd.val b i filenameSize) s fun r s' =>
      ∃ (text : List UInt8) (block : FdBlock), r.1 = text.length ∧
        b.Filled i filenameSize text r.2 ∧ block.fileOperationsPointer = some .dir ∧
        Sees p { v with
          fds := Function.update v.fds fd block
          reads := v.reads + 1 } s' ∧
        NextName img l text block := by
  have hin := h.enter hkeeps
  obtain ⟨text, block, stores, hread, hpointer, hstores, htext, hrest⟩ := hdir.directoryRead_eq himg
    { env.res s.calls with line := env.typed s.reads }
  have hanswer : answer img env s (.read fd.val filenameSize) = some (⟨text.length, stores⟩,
      { s.after ((env.between s.calls s.kernel).cli.setFd fd block) with
        reads := s.reads + 1 }) := by
    have hdriver : (env.between s.calls s.kernel).driver fd = some .dir :=
      hin.driver hdir.in_use hops
    have hcli : (env.between s.calls s.kernel).cli.fdTable fd = v.fds fd :=
      congrFun hin.cli.fdTable fd
    simp only [answer, sysRead_driver, hdriver, Option.elim_some, OpTable.read, hcli, hread,
      CallResult.value?, Option.map_some]
  have hprivate : block.Private :=
    FdBlock.private_of_ops (hpointer.trans hops) (by decide) (by decide)
  apply (ensures_read hanswer hsize hstores htext).mono
  rintro r t ⟨hvalue, hfilled, rfl⟩
  exact ⟨text, block, hvalue, hfilled, hpointer.trans hops, Runs.sees
    (hin.cli.setFd (h.ne_one hops (by decide)) hprivate) (congrArg (· + 1) h.reads) h.written
    h.executed, hrest⟩

/-! ## The clock -/

/-- A read of the clock delivers nothing. -/
theorem ensures_read_rtc (h : Sees p v s) (hkeeps : env.Keeps p) {fd : Fin 8}
    (huse : ¬ (v.fds fd).Free) (hops : (v.fds fd).fileOperationsPointer = some .rtc) {b : Buffer}
    {i n : Nat} (hsize : i + n ≤ b.size) :
    Ensures (answer img env) (ece391Read fd.val b i n) s fun r s' =>
      r.1 = 0 ∧ b.Filled i n [] r.2 ∧ Sees p { v with reads := v.reads + 1 } s' := by
  have hin := h.enter hkeeps
  have hdriver : (env.between s.calls s.kernel).driver fd = some .rtc := hin.driver huse hops
  generalize hk : (rtcRead (env.between s.calls s.kernel).cli).kernel = k
  have hruns : Runs p v.fds v.args k := hk ▸ hin.of_procs rfl
  have hread : rtcRead (env.between s.calls s.kernel).cli = ⟨.returned 0, k, []⟩ := by
    rw [← hk]
    rfl
  have hanswer : answer img env s (.read fd.val n) =
      some (⟨0, []⟩, { s.after k with reads := s.reads + 1 }) := by
    simp only [answer, sysRead_driver, hdriver, Option.elim_some, OpTable.read, hread,
      CallResult.value?, Option.map_some]
  have hnone : ∀ w ∈ ([] : Stores), w.1 < n := fun _ hw => absurd hw List.not_mem_nil
  have htext : ∀ bytes j, j < ([] : List UInt8).length →
      applyStores bytes [] j = ([] : List UInt8).getD j 0 :=
    fun _ _ hj => absurd hj (Nat.not_lt_zero _)
  apply (ensures_read hanswer hsize hnone htext).mono
  rintro r t ⟨hvalue, hfilled, rfl⟩
  exact ⟨hvalue, hfilled, Runs.sees hruns (congrArg (· + 1) h.reads) h.written h.executed⟩

/-! ## The console -/

/-- The row begins with a line and its newline. -/
structure TypedLine (row : Row) (t : List UInt8) : Prop where
  inside : t.length < maxBufferSize
  chars : ∀ j, j < t.length → row j = t.getD j 0
  newline : row t.length = 10
  no_nul : (0 : UInt8) ∉ t
  no_newline : (10 : UInt8) ∉ t

section Lines

variable {row : Row} {t : List UInt8}

theorem TypedLine.ne_newline (h : TypedLine row t) {j : Nat} (hj : j < t.length) : row j ≠ 10 := by
  rw [h.chars j hj, List.getD_eq_getElem _ _ hj]
  exact fun heq => h.no_newline (heq ▸ List.getElem_mem hj)

theorem TypedLine.ne_nul (h : TypedLine row t) {j : Nat} (hj : j ≤ t.length) : row j ≠ 0 := by
  rcases Nat.lt_or_eq_of_le hj with hlt | rfl
  · rw [h.chars j hlt, List.getD_eq_getElem _ _ hlt]
    exact fun heq => h.no_nul (heq ▸ List.getElem_mem hlt)
  · rw [h.newline]
    decide

/-- A `NUL` that `terminal_read` stores behind the row does not touch the line. -/
theorem TypedLine.setReadByte {rows : Terminal → Row} {cip : Terminal} (h : TypedLine (rows cip) t)
    {n : Nat} (hn : maxBufferSize ≤ n) :
    TypedLine (readByte (Ece391Os.setReadByte rows cip n 0) cip) t := by
  have hinside := h.inside
  have hbyte : ∀ j, j < maxBufferSize →
      readByte (Ece391Os.setReadByte rows cip n 0) cip j = rows cip j := by
    intro j hj
    rw [readByte_own _ _ hj, setReadByte_row _ _ _ _ hj, Function.update_of_ne (by omega)]
  constructor
  case inside => exact h.inside
  case chars =>
    intro j hj
    rw [hbyte j (by omega), h.chars j hj]
  case newline => rw [hbyte _ hinside, h.newline]
  case no_nul => exact h.no_nul
  case no_newline => exact h.no_newline

/-- The scan of `terminal_read` finds the newline of the line. -/
theorem TypedLine.scanNewline_eq {rows : Terminal → Row} {cip : Terminal} {beyond : Nat}
    (h : TypedLine (readByte rows cip) t) : scanNewline rows cip beyond = t.length :=
  Ece391Os.scanNewline_eq (Nat.lt_of_lt_of_le h.inside (maxBufferSize_le_bytesLeft cip)) h.newline
    fun _ hj => h.ne_newline hj

/-- The copy of the row begins with the line. -/
theorem TypedLine.getD_text (h : TypedLine row t) {n j : Nat} (hj : j ≤ t.length) (hn : j < n) :
    (CString.text ((List.range n).map row)).getD j 0 = (t ++ [10]).getD j 0 := by
  have hlen : j < (PaddedText.read 0 n row).length := by
    obtain ⟨-, -, hend⟩ :=
      PaddedText.length_read_iff.mp (rfl : (PaddedText.read 0 n row).length = _)
    by_contra hge
    exact h.ne_nul (by omega) (hend (by omega))
  have hread : (CString.text ((List.range n).map row)).getD j 0 = row j :=
    PaddedText.getD_read hlen 0
  rw [hread]
  rcases Nat.lt_or_eq_of_le hj with hlt | rfl
  · rw [h.chars j hlt, List.getD_append _ _ _ _ hlt]
  · rw [h.newline, List.getD_append_right _ _ _ _ (Nat.le_refl _), Nat.sub_self]
    rfl

end Lines

/-- The stores of the first `m` values of a function. -/
theorem applyStores_mapRange (bytes f : Nat → UInt8) (m j : Nat) :
    applyStores bytes ((List.range m).map fun i => (i, f i)) j =
      if j < m then f j else bytes j := by
  induction m with
  | zero => rfl
  | succ m ih =>
      have hlast : applyStores bytes ((List.range (m + 1)).map fun i => (i, f i)) =
          Function.update (applyStores bytes ((List.range m).map fun i => (i, f i))) m (f m) := by
        rw [applyStores, applyStores, List.range_succ, List.map_append, List.foldl_append]
        rfl
      rw [hlast]
      rcases eq_or_ne j m with rfl | hne
      · rw [Function.update_self, if_pos (Nat.lt_succ_self j)]
      · rw [Function.update_of_ne hne, ih]
        exact if_congr (by omega) rfl rfl

theorem terminalRead_procs (res : Residue) (k : Kernel) (nbytes : Int) :
    (terminalRead res k nbytes).kernel.procs = k.procs := by
  simp only [terminalRead]
  split
  · rfl
  · rfl

/-- `terminal_read` of a typed line with a count beyond the row. -/
theorem TypedLine.terminalRead {res : Residue} {t : List UInt8} (h : TypedLine res.line t)
    (k : Kernel) {n : Nat} (hn : maxBufferSize < n) : ∃ text : List UInt8,
      (Ece391Os.terminalRead res k n).exit = .returned (t.length + 1) ∧
        (Ece391Os.terminalRead res k n).stores =
          ((List.range n).map fun i => (i, text.getD i 0)) ∧
          ∀ j, j ≤ t.length → text.getD j 0 = (t ++ [10]).getD j 0 := by
  have hone : ¬ (n : Int) < 1 := by omega
  have hinside := h.inside
  have hrow : TypedLine (Function.update k.terms.readBuffer k.sched.currentProcess res.line
      k.sched.currentProcess) t := by
    rw [Function.update_self]
    exact h
  have hset := hrow.setReadByte (Nat.le_sub_one_of_lt hn)
  simp only [Ece391Os.terminalRead, if_neg hone, Int.toNat_natCast, finishRead,
    hset.scanNewline_eq]
  exact ⟨_, trivial, rfl, fun j hj => hset.getD_text hj (by omega)⟩

/-- A read of the console into an array that has room for the longest line. -/
theorem ensures_read_console (h : Sees p v s) (hkeeps : env.Keeps p)
    (hstdin : (v.fds 0).fileOperationsPointer = some .stdin) (huse : ¬ (v.fds 0).Free)
    {t : List UInt8} (hline : TypedLine (env.typed v.reads) t) {b : Buffer} {n : Nat}
    (hn : maxBufferSize < n) (hsize : n ≤ b.size) :
    Ensures (answer img env) (ece391Read 0 b 0 n) s fun r s' =>
      r.1 = t.length + 1 ∧ b.Filled 0 n (t ++ [10]) r.2 ∧
        Sees p { v with reads := v.reads + 1 } s' := by
  have hin := h.enter hkeeps
  have hdriver : (env.between s.calls s.kernel).driver 0 = some .stdin :=
    hin.driver huse hstdin
  generalize hres : { env.res s.calls with line := env.typed s.reads } = res
  generalize hk : (terminalRead res (env.between s.calls s.kernel).cli n).kernel = k
  have hline' : TypedLine res.line t := by
    rw [← hres, h.reads]
    exact hline
  obtain ⟨text, hexit, hstored, hchars⟩ :=
    hline'.terminalRead (env.between s.calls s.kernel).cli hn
  generalize hstores : ((List.range n).map fun i => (i, text.getD i 0)) = stores at hstored
  have hread : terminalRead res (env.between s.calls s.kernel).cli n =
      ⟨.returned (t.length + 1), k, stores⟩ := by
    rw [← hk, ← hexit, ← hstored]
  have hprocs : k.procs = (env.between s.calls s.kernel).procs := hk ▸ terminalRead_procs _ _ _
  have hanswer : answer img env s (.read 0 n) = some (⟨t.length + 1, stores⟩,
      { s.after k with reads := s.reads + 1 }) := by
    have hcall := fun res => @sysRead_driver img res (env.between s.calls s.kernel) 0 env.address n
    rw [hdriver] at hcall
    have hzero : ((0 : Fin 8).val : Int) = 0 := rfl
    rw [hzero] at hcall
    simp only [answer, hcall, hres, Option.elim_some, OpTable.read, hread, CallResult.value?,
      Option.map_some]
  have hlen : (t ++ [10]).length = t.length + 1 := List.length_append
  have hinside := hline.inside
  have hin_range : ∀ w ∈ stores, w.1 < n := by
    intro w hw
    rw [← hstores] at hw
    obtain ⟨l, hl, rfl⟩ := List.mem_map.mp hw
    exact List.mem_range.mp hl
  have htext : ∀ bytes j, j < (t ++ [10]).length →
      applyStores bytes stores j = (t ++ [10]).getD j 0 := by
    intro bytes j hj
    rw [← hstores, applyStores_mapRange, if_pos (by omega)]
    exact hchars j (by omega)
  apply (ensures_read hanswer (by omega) hin_range htext).mono
  rintro r s' ⟨hvalue, hfilled, rfl⟩
  exact ⟨hvalue, hfilled, Runs.sees (hin.of_procs hprocs) (congrArg (· + 1) h.reads) h.written
    h.executed⟩

/-! ## The arguments -/

/-- The text in an argument buffer. -/
def argumentOf (args : Nat → UInt8) : List UInt8 := PaddedText.read 0 argsBufferSize args

theorem argumentOf_length {args : Nat → UInt8} {t : List UInt8} (h : argumentOf args = t) :
    CString.strlen ((List.range argsBufferSize).map args) = t.length := by
  rw [CString.strlen_eq_length_text, ← h]
  rfl

/-- `clear_args` touches the arguments of its caller only. -/
theorem Runs.clearArgs {fds : FdTable} {args : Nat → UInt8} {k : Kernel}
    (h : Runs p fds args k) : ∃ args', Runs p fds args' (clearArgs k) := by
  have hpids := congrArg Prod.fst (slots_clearArgs k)
  have hmaintained : Maintained (Ece391Os.clearArgs k) :=
    ⟨h.slots.of_tables (funext (clearArgs_fdTableOf k)), h.accounted.of_slots (slots_clearArgs k)⟩
  refine ⟨_, ⟨hmaintained, h.current, fun hfree => h.live ((congrFun hpids p).symm.trans hfree)⟩,
    (clearArgs_fdTableOf k p).trans h.fds_eq, rfl⟩

/-- A process with arguments gets them, with their terminator, in an array that has room for
both. -/
theorem ensures_getargs (h : Sees p v s) (hkeeps : env.Keeps p) {t : List UInt8}
    (hargs : argumentOf v.args = t) (ht : t ≠ []) {b : Buffer} {n : Nat} (hn : t.length ≤ n)
    (hsize : t.length < b.size) :
    Ensures (answer img env) (ece391Getargs b n) s fun r s' =>
      r.1 = 0 ∧ r.2.size = b.size ∧ r.2.Holds t ∧ ∃ args, Sees p { v with args := args } s' := by
  have hin := (h.enter hkeeps).cli
  have hpos : 0 < t.length := List.length_pos_iff.mpr ht
  have hown : ((env.between s.calls s.kernel).cli.procs.controlBlocks
      (env.between s.calls s.kernel).cli.procs.currentPid).args = v.args := by
    rw [hin.current]
    exact hin.args_eq
  generalize hstores :
    ((List.range t.length).map fun i => (i, v.args i)) ++ [(t.length, 0)] = stores
  have hanswer : answer img env s (.getargs n) =
      some (⟨0, stores⟩, s.after (clearArgs (env.between s.calls s.kernel).cli)) := by
    simp only [answer, getargs, hown, argumentOf_length hargs, reduceCtorEq, if_false,
      if_neg (by omega : ¬ (n : Int) ≤ 0),
      if_neg (by omega : ¬ ((t.length : Int) > n ∨ t.length ≤ 0)), hstores, CallResult.value?,
      Option.map_some]
  have hlen : (t ++ [0]).length = t.length + 1 := List.length_append
  -- the copy stores the text and the terminator, inside the array
  have hinside : ∀ w ∈ stores, w.1 < t.length + 1 := by
    intro w hw
    rw [← hstores] at hw
    rcases List.mem_append.mp hw with hw | hw
    · obtain ⟨l, hl, rfl⟩ := List.mem_map.mp hw
      exact Nat.lt_succ_of_lt (List.mem_range.mp hl)
    · rw [List.mem_singleton.mp hw]
      exact Nat.lt_succ_self _
  have htext : ∀ bytes j, j < (t ++ [0]).length →
      applyStores bytes stores j = (t ++ [0]).getD j 0 := by
    intro bytes j hj
    have hlast : applyStores bytes stores = Function.update
        (applyStores bytes ((List.range t.length).map fun i => (i, v.args i))) t.length 0 := by
      rw [← hstores, applyStores, List.foldl_append]
      rfl
    rw [hlast]
    rcases Nat.lt_or_eq_of_le (Nat.le_of_lt_succ (hlen ▸ hj)) with hlt | rfl
    · rw [Function.update_of_ne (by omega), applyStores_mapRange, if_pos hlt,
        List.getD_append _ _ _ _ hlt, ← hargs]
      exact (PaddedText.getD_read (by rw [← hargs] at hlt; exact hlt) 0).symm
    · rw [Function.update_self, List.getD_append_right _ _ _ _ (Nat.le_refl _), Nat.sub_self]
      rfl
  obtain ⟨b', hreceive, hfilled⟩ := receive_filled (b := b) (i := 0) (n := t.length + 1)
    (by omega) hinside htext
  obtain ⟨args, hruns⟩ := hin.clearArgs
  apply (ensures_of_answer hanswer).seq
  rintro r s' ⟨rfl, rfl⟩
  apply Ensures.require hreceive
  have hclean : (0 : UInt8) ∉ t := hargs ▸ PaddedText.not_mem_read _ _ _
  exact ensures_pure ⟨rfl, hfilled.size_eq, hfilled.holds hclean hsize, args,
    Runs.sees hruns h.reads h.written h.executed⟩

end Reads

end Ece391Os
