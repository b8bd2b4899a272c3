import Ece391Os.Model.UserPrograms
import Ece391Os.Properties.UserReading

/-!
# `cat` and `ls`

What the two programs print. `cat` asks for 1024 bytes at a time, and a request that runs past the
end of a file is served only from its beginning: of a longer file the last bytes are missing
(`ensures_cat`). `ls` prints the names of the directory, one on each line (`ensures_ls`).
-/

set_option autoImplicit false

namespace Ece391Os

open Interaction Program

section Messages

variable {img : FsImage} {env : Environment} {p : Pid} {v : View} {s : UserProcess}

/-- A program that prints a message and ends. -/
theorem ensures_message (h : Sees p v s) (hkeeps : env.Keeps p)
    {t : String} (ht : (0 : UInt8) ∉ bytesOf t) {α : Type} (a : α) :
    Ensures (answer img env) (do ece391Fdputs 1 (literal t); pure a) s fun r s' =>
      r = a ∧ Sees p { v with written := v.written ++ bytesOf t } s' := by
  apply (ensures_fdputs h hkeeps (literal_holds ht)).seq
  intro _ s' hs'
  exact ensures_pure ⟨rfl, hs'⟩

/-- A `write` of the first bytes of an array. -/
theorem ensures_write_text (h : Sees p v s) (hkeeps : env.Keeps p)
    {b : Buffer} {t : List UInt8} (hsize : t.length ≤ b.size)
    (hbytes : ∀ j, j < t.length → b.bytes j = t.getD j 0) (ht : t ≠ []) :
    Ensures (answer img env) (ece391Write 1 b t.length) s fun r s' =>
      r = t.length ∧ Sees p { v with written := v.written ++ t } s' := by
  have hpos : 0 < t.length := List.length_pos_iff.mpr ht
  have htext : (List.range (t.length : Int).toNat).map b.bytes = t := by
    apply List.ext_getElem
    · rw [List.length_map, List.length_range, Int.toNat_natCast]
    · intro i hi hit
      rw [List.getElem_map, List.getElem_range, hbytes i hit, List.getD_eq_getElem _ _ hit]
  rw [ece391Write, if_pos (by exact_mod_cast hsize)]
  apply (ensures_write h hkeeps b.bytes t.length).seq
  intro r s' hr
  rw [htext, if_neg (by omega)] at hr
  exact ensures_pure hr

end Messages

/-! ## `cat` -/

/-- The number of bytes that `cat` prints of a file of the given length. -/
def catLength (len : Nat) : Nat := if len < bufsize then len else bufsize * (len / bufsize)

theorem catLength_eq_iff (len : Nat) : catLength len = len ↔ len < bufsize ∨ bufsize ∣ len := by
  rw [catLength]
  split
  next hlt => exact iff_of_true rfl (Or.inl hlt)
  next hge =>
    rw [or_iff_right hge]
    exact Nat.mul_div_eq_iff_dvd

theorem catLength_le (len : Nat) : catLength len ≤ len := by
  rw [catLength]
  split
  · exact le_rfl
  · exact Nat.mul_div_le len bufsize

/-- What `cat` prints is the whole text exactly if the text is shorter than the buffer or a multiple
of it. -/
theorem take_catLength_eq_iff (content : List UInt8) :
    content.take (catLength content.length) = content ↔
      content.length < bufsize ∨ bufsize ∣ content.length := by
  rw [← catLength_eq_iff, List.take_eq_self_iff]
  have hle := catLength_le content.length
  constructor
  · intro h
    omega
  · intro h
    omega

/-- Process `p` reads a file through descriptor `fd` and stands at position `pos`. -/
def Reading (img : FsImage) (p : Pid) (fds : FdTable) (fd : Fin 8) (content : List UInt8)
    (pos : Nat) (written : List UInt8) (s : UserProcess) : Prop :=
  ∃ block args reads executed, FileAt img content pos block ∧
    Sees p ⟨Function.update fds fd block, args, reads, written, executed⟩ s

section Cat

variable {img : FsImage} {env : Environment} {p : Pid} {s : UserProcess} {fds : FdTable}
  {fd : Fin 8} {content written : List UInt8} {pos : Nat}

/-- A read through that descriptor. -/
theorem Reading.read (h : Reading img p fds fd content pos written s) (hkeeps : env.Keeps p)
    (hblocks : img.BlocksValid) {b : Buffer} {i n : Nat} (hn : 0 < n) (hmax : n ≤ fileSize)
    (hsize : i + n ≤ b.size) :
    Ensures (answer img env) (ece391Read fd.val b i n) s fun r s' =>
      r.1 = (fileCount content.length pos n : Nat) ∧
        b.Filled i n ((content.drop pos).take (fileCount content.length pos n)) r.2 ∧
        Reading img p fds fd content (pos + fileCount content.length pos n) written s' := by
  obtain ⟨block, args, reads, executed, hfile, hsees⟩ := h
  have hat : FileAt img content pos (Function.update fds fd block fd) := by
    rw [Function.update_self]
    exact hfile
  apply (ensures_read_file hsees hkeeps hblocks hat hn hmax hsize).mono
  rintro r s' ⟨hvalue, hfilled, block', hfile', hsees'⟩
  simp only [Function.update_idem] at hsees'
  exact ⟨hvalue, hfilled, block', args, reads + 1, executed, hfile', hsees'⟩

theorem Reading.written_eq (h : Reading img p fds fd content pos written s) :
    s.written = written := by
  obtain ⟨block, args, reads, executed, -, hsees⟩ := h
  exact hsees.written

/-- The bytes that a read has put at the beginning of an array are printed. -/
theorem Reading.write (h : Reading img p fds fd content pos written s) (hkeeps : env.Keeps p)
    {b b' : Buffer} {n : Nat} {t : List UInt8} (hfilled : b.Filled 0 n t b')
    (hn : t.length ≤ b.size) (ht : t ≠ []) :
    Ensures (answer img env) (ece391Write 1 b' t.length) s fun r s' =>
      r = t.length ∧ Reading img p fds fd content pos (written ++ t) s' := by
  obtain ⟨block, args, reads, executed, hfile, hsees⟩ := h
  have hbytes : ∀ j, j < t.length → b'.bytes j = t.getD j 0 := by
    intro j hj
    have hbyte := hfilled.text_eq j hj
    rwa [Nat.zero_add] at hbyte
  apply (ensures_write_text hsees hkeeps (by rw [hfilled.size_eq]; exact hn) hbytes ht).mono
  rintro r s' ⟨hr, hsees'⟩
  exact ⟨hr, block, args, reads, executed, hfile, hsees'⟩

/-- The rounds of `cat`: whole buffers have been printed so far, or the whole of a short file. -/
def CatPrinted (img : FsImage) (p : Pid) (fds : FdTable) (fd : Fin 8) (content before : List UInt8)
    (buf : Buffer) (s : UserProcess) : Prop :=
  buf.size = bufsize ∧ ∃ pos, Reading img p fds fd content pos (before ++ content.take pos) s ∧
    pos ≤ content.length ∧
    (bufsize ∣ pos ∨ pos = content.length ∧ content.length < bufsize)

theorem catRound_spec (hkeeps : env.Keeps p) (hblocks : img.BlocksValid)
    {before : List UInt8} {buf : Buffer}
    (h : CatPrinted img p fds fd content before buf s) :
    Ensures (answer img env) (catRound fd.val buf) s
      (AfterRound (CatPrinted img p fds fd content before)
        (fun _ t => before.length + content.length - t.written.length)
        (fun status t => status = 0 ∧
          t.written = before ++ content.take (catLength content.length))
        (before.length + content.length - s.written.length)) := by
  obtain ⟨hsize, pos, hreading, hle, hpos⟩ := h
  have hbuf : bufsize = 1024 := rfl
  have hcount := @fileCount_le content.length pos bufsize hle
  have hpart : (before ++ content.take pos).length = before.length + pos := by
    rw [List.length_append, List.length_take, min_eq_left hle]
  apply (hreading.read hkeeps hblocks (i := 0) (n := bufsize) (by decide) (by decide)
    (by rw [hsize]; exact le_rfl)).seq
  rintro ⟨cnt, buf'⟩ s₁ ⟨hcnt, hfilled, hreading₁⟩
  simp only at hcnt hfilled
  have hwritten : s.written = before ++ content.take pos := hreading.written_eq
  by_cases hzero : fileCount content.length pos bufsize = 0
  · -- the end: nothing is left, or less than a buffer of a longer file
    have hend : pos = catLength content.length := by
      rw [fileCount] at hzero
      rw [catLength]
      split at hzero
      · omega
      · split at hzero
        · rw [if_pos (by omega)]
          omega
        · rcases hpos with ⟨k, rfl⟩ | ⟨rfl, hshort⟩
          · have hdiv : content.length / bufsize = k := by
              apply Nat.div_eq_of_lt_le
              · rw [Nat.mul_comm]
                exact hle
              · rw [Nat.mul_comm, Nat.mul_succ]
                omega
            have hlong : bufsize ≤ content.length := by
              cases k with
              | zero => omega
              | succ k => exact (Nat.le_mul_of_pos_right bufsize (Nat.succ_pos k)).trans hle
            rw [if_neg (by omega), hdiv]
          · rw [if_pos hshort]
    rw [hzero] at hcnt hreading₁
    simp only [hcnt, Nat.cast_zero, if_true]
    apply ensures_pure
    exact ⟨rfl, by rw [← hend]; exact hreading₁.written_eq⟩
  · -- a part of the file is written, and the next round reads on behind it
    generalize hm : fileCount content.length pos bufsize = m at hcnt hfilled hreading₁ hcount hzero
    have hlen : ((content.drop pos).take m).length = m := by
      rw [List.length_take, List.length_drop]
      omega
    have hne : (content.drop pos).take m ≠ [] := by
      intro hnil
      rw [hnil] at hlen
      exact hzero hlen.symm
    simp only [hcnt, if_neg (by omega : ¬ (m : Int) = 0), if_neg (by omega : ¬ (m : Int) = -1)]
    have hmax : m ≤ bufsize := hm ▸ fileCount_le_request
    have hwrite := hreading₁.write hkeeps hfilled (by omega) hne
    rw [hlen] at hwrite
    apply hwrite.seq
    rintro r s₂ ⟨rfl, hreading₂⟩
    simp only [if_neg (by omega : ¬ (m : Int) = -1)]
    apply ensures_pure
    rw [List.append_assoc, ← List.take_add] at hreading₂
    have hpart₂ : (before ++ content.take (pos + m)).length = before.length + (pos + m) := by
      rw [List.length_append, List.length_take, min_eq_left hcount]
    refine ⟨⟨hfilled.size_eq.trans hsize, pos + m, hreading₂, hcount, ?_⟩, ?_⟩
    · -- a read takes a whole buffer or, of a file that is shorter than it, all
      rw [fileCount] at hm
      split at hm
      · rcases hpos with hdvd | ⟨hend, hshort⟩
        · exact Or.inl (hm ▸ Nat.dvd_add hdvd (dvd_refl bufsize))
        · omega
      · split at hm
        · exact Or.inr (by omega)
        · exact absurd hm.symm hzero
    · show before.length + content.length - s₂.written.length <
        before.length + content.length - s.written.length
      rw [hwritten, hreading₂.written_eq, hpart, hpart₂]
      omega

end Cat

/-- The content of a file: the bytes of its blocks, as far as its length goes. -/
def FsImage.content (img : FsImage) (inode : Word) : List UInt8 :=
  (List.range (img.nodeList inode).bLength.toNat).map fun q =>
    (fileByte img (img.nodeList inode) q).getD 0

/-- A process that has just been started: it runs, and the descriptors from `2` on are free. -/
structure Fresh (p : Pid) (v : View) (s : UserProcess) : Prop where
  sees : Sees p v s
  closed : ∀ i : Fin 8, 2 ≤ i → (v.fds i).Free

section Programs

variable {img : FsImage} {env : Environment} {p : Pid} {v : View} {s : UserProcess}

/-- A descriptor that `file_open` has made stands at the beginning of the content. -/
theorem fileAt_of_open (hwf : img.WellFormed) {name : CString} {dentry : DirEntry}
    (hfound : readDentryByName img name = some dentry) (htype : dentry.fileType = typeFile) :
    FileAt img (img.content dentry.inodeNum) 0 ⟨some .file, dentry.inodeNum, 0, 1⟩ := by
  obtain ⟨i, hi, rfl, hname⟩ := readDentryByName_mem hfound
  have hinode : (img.dirEntries i).inodeNum < img.inodes := hwf.inode_valid i hi hname htype
  have hlen : (img.content (img.dirEntries i).inodeNum).length =
      (img.nodeList (img.dirEntries i).inodeNum).bLength.toNat := by
    rw [FsImage.content, List.length_map, List.length_range]
  constructor
  case onFile => exact ⟨hinode, hlen.symm, Nat.zero_le _⟩
  case bytes =>
    intro q hq
    obtain ⟨c, hc⟩ := Option.isSome_iff_exists.mp (hwf.fileByte_isSome hinode (hlen ▸ hq))
    rw [List.getD_eq_getElem _ _ hq]
    simp only [FsImage.content, List.getElem_map, List.getElem_range, hc, Option.getD_some]
  case position => rfl
  case ops => rfl
  case in_use => exact (by decide : (1 : Word) ≠ freeFlags)

theorem Fresh.room (h : Fresh p v s) : Room v.fds := ⟨2, le_rfl, h.closed 2 le_rfl⟩

theorem length_of_found {name : CString} (hclean : (0 : UInt8) ∉ name) {dentry : DirEntry}
    (h : readDentryByName img name = some dentry) : name.length ≤ 32 := by
  simp only [readDentryByName] at h
  split at h
  · cases h
  · split at h
    · cases h
    next hle =>
      rw [CString.strlen_eq_length_text, text_of_clean hclean] at hle
      omega

theorem ne_nil_of_found {name : CString} {dentry : DirEntry}
    (h : readDentryByName img name = some dentry) : name ≠ [] := by
  rintro rfl
  cases h

/-- `cat` of a regular file prints the first `catLength` bytes of it and ends with status 0. That is
the whole file exactly if it is shorter than the buffer or a multiple of it. -/
theorem ensures_cat (hwf : img.WellFormed) (hkeeps : env.Keeps p) (hfresh : Fresh p v s)
    {dentry : DirEntry} (hfound : readDentryByName img (argumentOf v.args) = some dentry)
    (htype : dentry.fileType = typeFile) (stack : Nat → UInt8) {rounds : Nat}
    (hrounds : (img.content dentry.inodeNum).length < rounds) :
    Ensures (answer img env) (cat rounds stack) s fun status s' =>
      status = 0 ∧
        s'.written = v.written ++ (img.content dentry.inodeNum).take
          (catLength (img.content dentry.inodeNum).length) ∧
        (s'.written = v.written ++ img.content dentry.inodeNum ↔
          (img.content dentry.inodeNum).length < bufsize ∨
            bufsize ∣ (img.content dentry.inodeNum).length) := by
  have hroom : Room v.fds := hfresh.room
  obtain ⟨hsees, -⟩ := hfresh
  generalize hcontent : img.content dentry.inodeNum = content at hrounds ⊢
  have hne : argumentOf v.args ≠ [] := ne_nil_of_found hfound
  have hlength := length_of_found (PaddedText.not_mem_read _ _ _) hfound
  have hargs : (argumentOf v.args).length < bufsize := lt_of_le_of_lt hlength (by decide)
  apply (ensures_getargs hsees hkeeps rfl hne (b := ⟨bufsize, stack⟩) (n := bufsize)
    (Nat.le_of_lt hargs) hargs).seq
  rintro ⟨r, buf⟩ s₁ ⟨rfl, hsize, hholds, args, hsees₁⟩
  simp only [ne_eq, not_true_eq_false, if_false]
  apply (ensures_open_file hsees₁ hkeeps hholds hfound htype hroom).seq
  rintro ret s₂ ⟨fd, hlow, rfl, hsees₂⟩
  simp only [if_neg (by omega : ¬ (fd.val : Int) = -1)]
  have hfile : FileAt img content 0 ⟨some .file, dentry.inodeNum, 0, 1⟩ :=
    hcontent ▸ fileAt_of_open hwf hfound htype
  suffices hprinted : Ensures (answer img env) (loop (catRound fd.val) rounds buf) s₂
      fun status s' => status = 0 ∧
        s'.written = v.written ++ content.take (catLength content.length) by
    apply hprinted.mono
    rintro status s' ⟨hstatus, hwritten⟩
    refine ⟨hstatus, hwritten, ?_⟩
    rw [hwritten, List.append_right_inj]
    exact take_catLength_eq_iff content
  apply ensures_loop (CatPrinted img p v.fds fd content v.written)
    (fun _ t => v.written.length + content.length - t.written.length)
  · intro buf t h
    exact catRound_spec hkeeps hwf.blocks_valid h
  · have hstart : Reading img p v.fds fd content 0 v.written s₂ := ⟨_, _, _, _, hfile, hsees₂⟩
    refine ⟨hsize, 0, ?_, Nat.zero_le _, Or.inl (dvd_zero _)⟩
    rw [List.take_zero, List.append_nil]
    exact hstart
  · have hwritten := hsees₂.written
    simp only at hwritten
    rw [hwritten]
    omega

end Programs

/-! ## `ls` -/

/-- Process `p` reads the directory through descriptor `fd` and stands in front of the entries
`rest`. -/
def ListingAt (img : FsImage) (p : Pid) (fds : FdTable) (fd : Fin 8) (rest : List Nat) (reads : Nat)
    (written : List UInt8) (s : UserProcess) : Prop :=
  ∃ block args executed, BeforeEntries img block rest ∧
    block.fileOperationsPointer = some .dir ∧
    Sees p ⟨Function.update fds fd block, args, reads, written, executed⟩ s

/-- The lines that `ls` prints for the entries `l`. -/
def listing (img : FsImage) (l : List Nat) : List UInt8 :=
  l.flatMap fun q => (img.dirEntries q).name ++ [10]

section Ls

variable {img : FsImage} {env : Environment} {p : Pid} {v : View} {s : UserProcess} {fds : FdTable}
  {fd : Fin 8} {rest : List Nat} {reads : Nat} {written : List UInt8}

/-- A read through that descriptor. -/
theorem ListingAt.read (h : ListingAt img p fds fd rest reads written s) (hkeeps : env.Keeps p)
    (himg : img.Listed) {b : Buffer} {i : Nat} (hsize : i + filenameSize ≤ b.size) :
    Ensures (answer img env) (ece391Read fd.val b i filenameSize) s fun r s' =>
      ∃ text : List UInt8, r.1 = text.length ∧ b.Filled i filenameSize text r.2 ∧
        match rest with
        | [] => text = [] ∧ s'.written = written
        | q :: rest => text = (img.dirEntries q).name ∧
            ListingAt img p fds fd rest (reads + 1) written s' := by
  obtain ⟨block, args, executed, hbefore, hops, hsees⟩ := h
  have hat : BeforeEntries img (Function.update fds fd block fd) rest := by
    rw [Function.update_self]
    exact hbefore
  have hdir : (Function.update fds fd block fd).fileOperationsPointer = some .dir := by
    rw [Function.update_self]
    exact hops
  apply (ensures_read_dir hsees hkeeps himg hat hdir hsize).mono
  rintro r s' ⟨text, block', hvalue, hfilled, hops', hsees', hnext⟩
  refine ⟨text, hvalue, hfilled, ?_⟩
  simp only [Function.update_idem] at hsees'
  cases rest with
  | nil => exact ⟨hnext, hsees'.written⟩
  | cons q rest => exact ⟨hnext.1, block', args, executed, hnext.2, hops', hsees'⟩

/-- The rounds of `ls`: the entries in front of the descriptor have been printed. -/
def LsPrinted (img : FsImage) (p : Pid) (fds : FdTable) (fd : Fin 8) (reads : Nat)
    (before : List UInt8) (buf : Buffer) (s : UserProcess) : Prop :=
  buf.size = sbufsize ∧ ∃ passed rest, namedFrom img 0 = passed ++ rest ∧
    ListingAt img p fds fd rest (reads + passed.length) (before ++ listing img passed) s

theorem lsRound_spec (hkeeps : env.Keeps p) (himg : img.Listed)
    {before : List UInt8} {buf : Buffer}
    (h : LsPrinted img p fds fd reads before buf s) :
    Ensures (answer img env) (lsRound fd.val buf) s
      (AfterRound (LsPrinted img p fds fd reads before)
        (fun _ t => reads + (namedFrom img 0).length - t.reads)
        (fun status t => status = 0 ∧ t.written = before ++ listing img (namedFrom img 0))
        (reads + (namedFrom img 0).length - s.reads)) := by
  obtain ⟨hsize, passed, rest, hsplit, hlisting⟩ := h
  have hbuf : sbufsize = 33 := rfl
  have hname : filenameSize = 32 := rfl
  have hread := hlisting.read hkeeps himg (b := buf) (i := 0) (by omega)
  have hrequest : ((filenameSize : Nat) : Int) = (sbufsize : Int) - 1 := rfl
  rw [hrequest] at hread
  apply hread.seq
  rintro ⟨cnt, buf'⟩ s₁ ⟨text, hcnt, hfilled, hnext⟩
  simp only at hcnt hfilled
  cases rest with
  | nil =>
      -- no entry is left: the read returns 0
      obtain ⟨rfl, hwritten⟩ := hnext
      simp only [hcnt, List.length_nil, Nat.cast_zero, if_true]
      apply ensures_pure
      rw [hsplit, List.append_nil]
      exact ⟨rfl, hwritten⟩
  | cons q rest =>
      obtain ⟨rfl, block, args, executed, hbefore, hops, hsees⟩ := hnext
      have hlen : (img.dirEntries q).name.length ≤ filenameSize := PaddedText.length_read_le _ _ _
      have hpos : 0 < (img.dirEntries q).name.length := by
        have hmem : q ∈ namedFrom img 0 := by
          rw [hsplit]
          exact List.mem_append_right _ List.mem_cons_self
        exact length_name_pos (mem_namedFrom.mp hmem).2.2
      generalize hq : (img.dirEntries q).name = name at hcnt hfilled hlen hpos
      have hsize' : buf'.size = sbufsize := hfilled.size_eq.trans hsize
      have hlength : (name ++ [10]).length = name.length + 1 := List.length_append
      have hcount : ((name.length : Nat) : Int) + 1 = ((name ++ [10]).length : Nat) := by
        rw [hlength, Nat.cast_add, Nat.cast_one]
      simp only [hcnt, if_neg (by omega : ¬ (name.length : Int) = 0),
        if_neg (by omega : ¬ (name.length : Int) = -1), hcount]
      apply Ensures.require (Buffer.store_of_lt (by omega) 10)
      -- the array now holds the name and the newline
      have hbytes : ∀ j, j < (name ++ [10]).length →
          Function.update buf'.bytes name.length 10 j = (name ++ [10]).getD j 0 := by
        intro j hj
        rcases Nat.lt_or_eq_of_le (Nat.le_of_lt_succ (hlength ▸ hj)) with hlt | rfl
        · have hbyte := hfilled.text_eq j hlt
          rw [Nat.zero_add] at hbyte
          rw [Function.update_of_ne (by omega), hbyte, List.getD_append _ _ _ _ hlt]
        · rw [Function.update_self, List.getD_append_right _ _ _ _ (Nat.le_refl _), Nat.sub_self]
          rfl
      apply (ensures_write_text hsees hkeeps
        (b := { buf' with bytes := Function.update buf'.bytes name.length 10 })
        (by show (name ++ [10]).length ≤ buf'.size; omega) hbytes (by simp)).seq
      rintro r s₂ ⟨rfl, hsees₂⟩
      simp only [if_neg (by omega : ¬ (((name ++ [10]).length : Nat) : Int) = -1)]
      apply ensures_pure
      refine ⟨⟨hsize', passed ++ [q], rest, by rw [hsplit, List.append_assoc]; rfl, block, args,
        executed, hbefore, hops, ?_⟩, ?_⟩
      · have hlisted : listing img (passed ++ [q]) = listing img passed ++ (name ++ [10]) := by
          rw [listing, List.flatMap_append, List.flatMap_singleton, hq]
          rfl
        rw [hlisted, List.length_append, List.length_singleton, ← List.append_assoc,
          ← Nat.add_assoc]
        exact hsees₂
      · show reads + (namedFrom img 0).length - s₂.reads <
          reads + (namedFrom img 0).length - s.reads
        obtain ⟨_, _, _, -, -, hseen⟩ := hlisting
        rw [hsees₂.reads, hseen.reads, hsplit, List.length_append, List.length_cons]
        simp only
        omega

/-- `ls` prints the name of each entry on a line of its own, in the order of the directory, and
ends with status 0. -/
theorem ensures_ls (hkeeps : env.Keeps p) (himg : img.Listed) (hfresh : Fresh p v s)
    {dentry : DirEntry} (hfound : readDentryByName img [46] = some dentry)
    (htype : dentry.fileType = typeDir) (stack : Nat → UInt8) {rounds : Nat}
    (hrounds : (namedFrom img 0).length < rounds) :
    Ensures (answer img env) (ls rounds stack) s fun status s' =>
      status = 0 ∧ s'.written = v.written ++ listing img (namedFrom img 0) := by
  have hroom : Room v.fds := hfresh.room
  obtain ⟨hsees, -⟩ := hfresh
  have hdot : (literal ".").Holds [46] := literal_holds (by decide)
  apply (ensures_open_dir hsees hkeeps hdot hfound htype hroom).seq
  rintro ret s₁ ⟨fd, hlow, rfl, hsees₁⟩
  simp only [if_neg (by omega : ¬ (fd.val : Int) = -1)]
  have hbefore : BeforeEntries img ⟨some .dir, 0, 0, img.numDirEntries⟩ (namedFrom img 0) :=
    ⟨Nat.zero_le _, rfl, himg.count⟩
  apply ensures_loop (LsPrinted img p v.fds fd v.reads v.written)
    (fun _ t => v.reads + (namedFrom img 0).length - t.reads)
  · intro buf t h
    exact lsRound_spec hkeeps himg h
  · have hstart : ListingAt img p v.fds fd (namedFrom img 0) v.reads v.written s₁ :=
      ⟨_, _, _, hbefore, rfl, hsees₁⟩
    refine ⟨rfl, [], namedFrom img 0, rfl, ?_⟩
    rw [List.length_nil, Nat.add_zero, listing, List.flatMap_nil, List.append_nil]
    exact hstart
  · have hreads := hsees₁.reads
    simp only at hreads
    rw [hreads]
    omega

end Ls

end Ece391Os
