import Ece391Os.Library.EventRun
import Ece391Os.Properties.FileReading
import Mathlib.Order.Fin.Basic

/-!
# Allocation of descriptors

`OpenMeets` and `CloseMeets` say what `open` and `close` are for, in terms of the table
before and after a call. `FdTable.Ordered` is the invariant of a table under runs of
process creation, process destruction, `open` and `close`. The calls meet their purpose
exactly in the steps of `StepFits` (`allSteps_stepMeets_iff`): `file_open` and `rtc_open`
test for a full table with an index that their loop does not reach, the dispatch of `open`
has no default, and a directory descriptor keeps the entry count of the image where the
free marker stands.
-/

set_option autoImplicit false

namespace Ece391Os

open EventRun

/-! ## What the calls are for -/

/-- A descriptor is free. -/
def FdBlock.Free (b : FdBlock) : Prop := b.flags = freeFlags

instance (b : FdBlock) : Decidable b.Free := inferInstanceAs (Decidable (b.flags = freeFlags))

/-- `fd` is the lowest free descriptor from `2` on. -/
structure IsLowestFree (fds : FdTable) (fd : Fin 8) : Prop where
  two_le : 2 ≤ fd
  free : (fds fd).Free
  lowest : ∀ j, 2 ≤ j → j < fd → ¬ (fds j).Free

/-- The operation table of a file type. -/
def opTableOf (fileType : Word) : Option OpTable :=
  if fileType = typeRtc then some .rtc
  else if fileType = typeDir then some .dir
  else if fileType = typeFile then some .file
  else none

/-- The process has the rtc open. -/
def HasRtc (fds : FdTable) : Prop :=
  ∃ i : Fin 8, 2 ≤ i ∧ ¬ (fds i).Free ∧ (fds i).fileOperationsPointer = some .rtc

/-- The named entry can be opened. -/
structure CanOpen (img : FsImage) (fds : FdTable) (filename : Option CString)
    (dentry : DirEntry) : Prop where
  found : filename.bind (readDentryByName img) = some dentry
  known : (opTableOf dentry.fileType).isSome
  room : ∃ i : Fin 8, 2 ≤ i ∧ (fds i).Free
  rtc_once : dentry.fileType = typeRtc → ¬ HasRtc fds

/-- The descriptor is in use and refers to the named entry, at its beginning. -/
structure RefersTo (img : FsImage) (dentry : DirEntry) (b : FdBlock) : Prop where
  ops : b.fileOperationsPointer = opTableOf dentry.fileType
  in_use : ¬ b.Free
  file : dentry.fileType = typeFile → b.inode = dentry.inodeNum ∧ b.filePosition = 0
  dir : dentry.fileType = typeDir → b.flags = img.numDirEntries ∧ b.filePosition = 0
  rtc : dentry.fileType = typeRtc → b.flags = 1

/-- What `open` is for: the lowest free descriptor comes to refer to the entry, or the call
returns `-1` and the table is unchanged. -/
def OpenMeets (img : FsImage) (fds : FdTable) (filename : Option CString) (ret : Int)
    (fds' : FdTable) : Prop :=
  (∃ dentry fd b, CanOpen img fds filename dentry ∧ IsLowestFree fds fd ∧
    RefersTo img dentry b ∧ ret = fd.val ∧ fds' = Function.update fds fd b) ∨
  ((∀ dentry, ¬ CanOpen img fds filename dentry) ∧ ret = -1 ∧ fds' = fds)

/-- What `close` is for: an open descriptor from `2` on is freed, and no other. -/
def CloseMeets (fds : FdTable) (fd ret : Int) (fds' : FdTable) : Prop :=
  (∃ i : Fin 8, ∃ b, fd = i.val ∧ 2 ≤ i ∧ ¬ (fds i).Free ∧ b.Free ∧
    b.fileOperationsPointer = none ∧ ret = 0 ∧ fds' = Function.update fds i b) ∨
  ((∀ i : Fin 8, fd = i.val → 2 ≤ i → (fds i).Free) ∧ ret = -1 ∧ fds' = fds)

/-- Descriptors `0` and `1` are stdin and stdout. -/
structure StdStreams (fds : FdTable) : Prop where
  stdin : (fds 0).fileOperationsPointer = some .stdin
  stdin_in_use : ¬ (fds 0).Free
  stdout : (fds 1).fileOperationsPointer = some .stdout
  stdout_in_use : ¬ (fds 1).Free

/-! ## The slot search -/

section SlotSearch

variable {fds : FdTable}

/-- Taken slots in front of a free one are passed over. -/
theorem slotSearch_append_free {full : Nat} {fd : Fin 8} {pre post : List (Fin 8)}
    (hpre : ∀ i ∈ pre, ¬ (fds i).Free ∧ i.val ≠ full) (hfree : (fds fd).Free) :
    slotSearch full fds (pre ++ fd :: post) = some fd := by
  induction pre with
  | nil =>
      rw [List.nil_append, slotSearch]
      exact if_pos hfree
  | cons i pre ih =>
      obtain ⟨htaken, hval⟩ := hpre i List.mem_cons_self
      have htaken : (fds i).flags ≠ freeFlags := htaken
      rw [List.cons_append, slotSearch, if_neg htaken, if_neg hval]
      exact ih fun j hj => hpre j (List.mem_cons_of_mem i hj)

/-- Without a free slot and without the slot `full` the search runs out of the loop. -/
theorem slotSearch_of_taken {full : Nat} {l : List (Fin 8)}
    (hl : ∀ i ∈ l, ¬ (fds i).Free ∧ i.val ≠ full) : slotSearch full fds l = some 0 := by
  induction l with
  | nil => rfl
  | cons i l ih =>
      obtain ⟨htaken, hval⟩ := hl i List.mem_cons_self
      have htaken : (fds i).flags ≠ freeFlags := htaken
      rw [slotSearch, if_neg htaken, if_neg hval]
      exact ih fun j hj => hl j (List.mem_cons_of_mem i hj)

theorem mem_openSlots {i : Fin 8} : i ∈ openSlots ↔ 2 ≤ i := by
  revert i
  decide

/-- On a table with a free slot the search finds the lowest one, whatever its test for a full
table. -/
theorem slotSearch_of_room {full : Nat} (hfull : 7 ≤ full)
    (hroom : ∃ i : Fin 8, 2 ≤ i ∧ (fds i).Free) :
    ∃ fd, slotSearch full fds openSlots = some fd ∧ IsLowestFree fds fd := by
  have hsome : (openSlots.find? fun i => decide (fds i).Free).isSome := by
    obtain ⟨i, hi, hfree⟩ := hroom
    exact List.find?_isSome.mpr ⟨i, mem_openSlots.mpr hi, decide_eq_true hfree⟩
  obtain ⟨fd, hfd⟩ := Option.isSome_iff_exists.mp hsome
  obtain ⟨hfree, pre, post, hsplit, hpre⟩ := List.find?_eq_some_iff_append.mp hfd
  have hfree : (fds fd).Free := of_decide_eq_true hfree
  have htaken : ∀ i ∈ pre, ¬ (fds i).Free := fun i hi => by simpa using hpre i hi
  have hsorted : (pre ++ fd :: post).Pairwise (· < ·) := hsplit ▸ (by decide)
  have hbefore : ∀ i ∈ pre, i < fd := fun i hi =>
    (List.pairwise_append.mp hsorted).2.2 i hi fd List.mem_cons_self
  have hafter : ∀ i ∈ post, fd < i := fun i hi =>
    (List.pairwise_cons.mp (List.pairwise_append.mp hsorted).2.1).1 i hi
  refine ⟨fd, ?_, ⟨mem_openSlots.mp (List.mem_of_find?_eq_some hfd), hfree, ?_⟩⟩
  · rw [hsplit]
    apply slotSearch_append_free _ hfree
    intro i hi
    have hlt := hbefore i hi
    exact ⟨htaken i hi, by omega⟩
  · intro j hj hlt
    have hmem : j ∈ pre ++ fd :: post := hsplit ▸ mem_openSlots.mpr hj
    rcases List.mem_append.mp hmem with hmem | hmem
    · exact htaken j hmem
    · rcases List.mem_cons.mp hmem with rfl | hmem
      · exact absurd hlt (lt_irrefl j)
      · exact absurd (hafter j hmem) (lt_asymm hlt)

/-- `directory_open` sees that the table is full. -/
theorem slotSearch_directory_of_full (hfull : ∀ i : Fin 8, 2 ≤ i → ¬ (fds i).Free) :
    slotSearch (fdtSize - 1) fds openSlots = none := by
  have htaken : ∀ i : Fin 8, 2 ≤ i → (fds i).flags ≠ freeFlags := hfull
  simp [slotSearch, openSlots, htaken, fdtSize]

/-- `file_open` and `rtc_open` do not: their search ends on descriptor `0`. -/
theorem slotSearch_fdtSize_of_full (hfull : ∀ i : Fin 8, 2 ≤ i → ¬ (fds i).Free) :
    slotSearch fdtSize fds openSlots = some 0 := by
  apply slotSearch_of_taken
  intro i hi
  have hlt := i.isLt
  exact ⟨hfull i (mem_openSlots.mp hi), by simp only [fdtSize]; omega⟩

end SlotSearch

/-! ## One call of `open` -/

/-- There is a free descriptor from `2` on. -/
def Room (fds : FdTable) : Prop := ∃ i : Fin 8, 2 ≤ i ∧ (fds i).Free

/-- The calls of `open` that do what they are for: the type of the entry is known, or the
uninitialised return value happens to be `-1`; a regular file, or the rtc in a process that
does not have it open, finds a free descriptor; and the entry count that a directory
descriptor keeps in `flags` is not the free marker. -/
structure OpenFits (img : FsImage) (res : Residue) (fds : FdTable) (dentry : DirEntry) :
    Prop where
  known : opTableOf dentry.fileType = none → res.ret = freeFlags
  file_room : dentry.fileType = typeFile → Room fds
  rtc_room : dentry.fileType = typeRtc → ¬ HasRtc fds → Room fds
  dir_count : dentry.fileType = typeDir → Room fds → img.numDirEntries ≠ freeFlags

section OpenCall

variable {img : FsImage} {res : Residue} {fds : FdTable} {filename : Option CString}
  {dentry : DirEntry}

theorem OpenMeets.ret_cases {ret : Int} {fds' : FdTable}
    (h : OpenMeets img fds filename ret fds') : ret = -1 ∨ 2 ≤ ret := by
  rcases h with ⟨_, fd, _, _, hlow, _, hret, _⟩ | ⟨_, hret, _⟩
  · have := Fin.le_def.mp hlow.two_le
    exact Or.inr (by rw [hret]; exact_mod_cast this)
  · exact Or.inl hret

/-- A call that opens the lowest free descriptor. -/
theorem openMeets_of_slot {fd : Fin 8} {b : FdBlock} (dentry : DirEntry)
    (hcan : CanOpen img fds filename dentry) (hlow : IsLowestFree fds fd)
    (hb : RefersTo img dentry b) :
    OpenMeets img fds filename fd.val (Function.update fds fd b) :=
  Or.inl ⟨dentry, fd, b, hcan, hlow, hb, rfl, rfl⟩

/-- A refused call on an entry that cannot be opened. -/
theorem openMeets_of_refused (hfound : filename.bind (readDentryByName img) = some dentry)
    (hcannot : ¬ CanOpen img fds filename dentry) : OpenMeets img fds filename (-1) fds := by
  refine Or.inr ⟨fun d hd => ?_, rfl, rfl⟩
  have hsame : d = dentry := Option.some.inj (hd.found.symm.trans hfound)
  exact hcannot (hsame ▸ hd)

/-- A descriptor of the table that a call of `open` made refers to the entry. -/
theorem OpenMeets.refersTo {fd : Fin 8} {b : FdBlock}
    (h : OpenMeets img fds filename fd.val (Function.update fds fd b))
    (hfound : filename.bind (readDentryByName img) = some dentry) : RefersTo img dentry b := by
  rcases h with ⟨d, fd', b', hcan, _, hb', hret, htable⟩ | ⟨_, hret, _⟩
  · have hfd : fd' = fd := Fin.ext (by exact_mod_cast hret.symm)
    subst hfd
    have hb : b = b' := by
      have := congrFun htable fd'
      rwa [Function.update_self, Function.update_self] at this
    have hd : d = dentry := Option.some.inj (hcan.found.symm.trans hfound)
    exact hb ▸ hd ▸ hb'
  · omega

theorem not_hasRtc_iff : (openSlots.any fun i => (fds i).isOpenRtc) = false ↔ ¬ HasRtc fds := by
  rw [← Bool.not_eq_true, not_iff_not, List.any_eq_true]
  constructor
  · rintro ⟨i, hi, hopen⟩
    simp only [FdBlock.isOpenRtc, Bool.and_eq_true, decide_eq_true_eq] at hopen
    exact ⟨i, mem_openSlots.mp hi, hopen.1, hopen.2⟩
  · rintro ⟨i, hi, hfree, hops⟩
    refine ⟨i, mem_openSlots.mpr hi, ?_⟩
    simp only [FdBlock.isOpenRtc, Bool.and_eq_true, decide_eq_true_eq]
    exact ⟨hfree, hops⟩

variable {k : Kernel}

/-- `file_open` on a regular file. -/
theorem fileOpen_meets_iff {name : CString} (hfound : readDentryByName img name = some dentry)
    (htype : dentry.fileType = typeFile) :
    OpenMeets img k.fdTable (some name) (fileOpen img k name).1 (fileOpen img k name).2.fdTable ↔
      Room k.fdTable := by
  constructor
  · intro h
    by_contra hroom
    have hfull : ∀ i : Fin 8, 2 ≤ i → ¬ (k.fdTable i).Free := fun i hi hfree =>
      hroom ⟨i, hi, hfree⟩
    simp only [fileOpen, hfound, slotSearch_fdtSize_of_full hfull] at h
    have hret := h.ret_cases
    simp at hret
  · intro hroom
    obtain ⟨fd, hfd, hlow⟩ := slotSearch_of_room (by decide : 7 ≤ fdtSize) hroom
    simp only [fileOpen, hfound, hfd, Kernel.setFd_fdTable]
    refine openMeets_of_slot dentry ⟨hfound, ?_, hroom, ?_⟩ hlow
      ⟨?_, ?_, ?_, ?_, fun _ => rfl⟩
    · rw [htype]
      rfl
    · rw [htype]
      exact fun h => absurd h (by decide)
    · rw [htype]
      rfl
    · exact (by decide : (1 : Word) ≠ freeFlags)
    · exact fun _ => ⟨rfl, rfl⟩
    · rw [htype]
      exact fun h => absurd h (by decide)

/-- `directory_open` on a directory. -/
theorem directoryOpen_meets_iff {name : CString}
    (hfound : readDentryByName img name = some dentry) (htype : dentry.fileType = typeDir) :
    OpenMeets img k.fdTable (some name) (directoryOpen img k name).1
        (directoryOpen img k name).2.fdTable ↔
      (Room k.fdTable → img.numDirEntries ≠ freeFlags) := by
  by_cases hroom : Room k.fdTable
  · obtain ⟨fd, hfd, hlow⟩ := slotSearch_of_room (by decide : 7 ≤ fdtSize - 1) hroom
    simp only [directoryOpen, hfound, hfd, Kernel.setFd_fdTable]
    constructor
    · intro h _
      exact (h.refersTo hfound).in_use
    · -- the count of entries is stored in `flags`, where it has to differ from that of a free slot
      intro hcount
      refine openMeets_of_slot dentry ⟨hfound, ?_, hroom, ?_⟩ hlow
        ⟨?_, ?_, ?_, fun _ => ⟨rfl, rfl⟩, ?_⟩
      · rw [htype]
        rfl
      · rw [htype]
        exact fun h => absurd h (by decide)
      · rw [htype]
        rfl
      · exact hcount hroom
      · rw [htype]
        exact fun h => absurd h (by decide)
      · rw [htype]
        exact fun h => absurd h (by decide)
  · have hfull : ∀ i : Fin 8, 2 ≤ i → ¬ (k.fdTable i).Free := fun i hi hfree =>
      hroom ⟨i, hi, hfree⟩
    simp only [directoryOpen, hfound, slotSearch_directory_of_full hfull]
    exact ⟨fun _ h => absurd h hroom, fun _ =>
      openMeets_of_refused hfound fun hcan => hroom hcan.room⟩

/-- `rtc_open` on the rtc. -/
theorem rtcOpen_meets_iff (res : Residue) {name : CString}
    (hfound : readDentryByName img name = some dentry) (htype : dentry.fileType = typeRtc) :
    OpenMeets img k.fdTable (some name) (rtcOpen res k).1 (rtcOpen res k).2.fdTable ↔
      (¬ HasRtc k.fdTable → Room k.fdTable) := by
  by_cases hrtc : HasRtc k.fdTable
  · -- the first loop finds the clock open and refuses
    have hany : (openSlots.any fun i => (k.cli.fdTable i).isOpenRtc) = true := by
      rw [← Bool.not_eq_false, not_hasRtc_iff, not_not]
      exact hrtc
    simp only [rtcOpen, hany, if_true]
    exact ⟨fun _ h => absurd hrtc h, fun _ =>
      openMeets_of_refused hfound fun hcan => hcan.rtc_once htype hrtc⟩
  · have hany : (openSlots.any fun i => (k.cli.fdTable i).isOpenRtc) = false :=
      not_hasRtc_iff.mpr hrtc
    by_cases hroom : Room k.fdTable
    · obtain ⟨fd, hfd, hlow⟩ := slotSearch_of_room (by decide : 7 ≤ fdtSize) hroom
      have hfd : slotSearch fdtSize k.cli.fdTable openSlots = some fd := hfd
      have hmeets : OpenMeets img k.fdTable (some name) fd.val
          (Function.update k.fdTable fd ⟨some .rtc, 0, res.filePosition, 1⟩) := by
        refine openMeets_of_slot dentry ⟨hfound, ?_, hroom, fun _ => hrtc⟩ hlow
          ⟨?_, ?_, ?_, ?_, fun _ => rfl⟩
        · rw [htype]
          rfl
        · rw [htype]
          rfl
        · exact (by decide : (1 : Word) ≠ freeFlags)
        · rw [htype]
          exact fun h => absurd h (by decide)
        · rw [htype]
          exact fun h => absurd h (by decide)
      simp only [rtcOpen, hany, hfd, Bool.false_eq_true, if_false, Kernel.sti_fdTable,
        Kernel.setFd_fdTable]
      exact ⟨fun _ _ => hroom, fun _ => hmeets⟩
    · have hfull : ∀ i : Fin 8, 2 ≤ i → ¬ (k.cli.fdTable i).Free := fun i hi hfree =>
        hroom ⟨i, hi, hfree⟩
      -- without a free slot the search ends on descriptor `0`, which is no refusal
      simp only [rtcOpen, hany, slotSearch_fdtSize_of_full hfull, Bool.false_eq_true, if_false]
      constructor
      · intro h
        have hret := h.ret_cases
        simp at hret
      · exact fun h => absurd (h hrtc) hroom

theorem opTableOf_eq_none {w : Word} :
    opTableOf w = none ↔ w ≠ typeRtc ∧ w ≠ typeDir ∧ w ≠ typeFile := by
  simp only [opTableOf]
  split_ifs with h1 h2 h3 <;> simp_all

/-- `open` does what it is for exactly in the calls of `OpenFits`. -/
theorem sysOpen_meets_iff : OpenMeets img k.fdTable filename (sysOpen img res k filename).1
      (sysOpen img res k filename).2.fdTable ↔
    ∀ dentry, filename.bind (readDentryByName img) = some dentry →
      OpenFits img res k.fdTable dentry := by
  cases filename with
  | none =>
      refine ⟨fun _ _ h => absurd h (by simp), fun _ => Or.inr ⟨fun d hd => ?_, rfl, rfl⟩⟩
      exact absurd hd.found (by simp)
  | some name =>
      cases hfound : readDentryByName img name with
      | none =>
          have hnone : (some name).bind (readDentryByName img) = none := hfound
          rw [sysOpen_of_not_found hfound]
          refine ⟨fun _ _ h => ?_, fun _ => Or.inr ⟨fun d hd => ?_, rfl, rfl⟩⟩
          · rw [hnone] at h
            cases h
          · have := hd.found
            rw [hnone] at this
            cases this
      | some dentry =>
          have hsome : (some name).bind (readDentryByName img) = some dentry := hfound
          have hforall : (∀ d, (some name).bind (readDentryByName img) = some d →
              OpenFits img res k.fdTable d) ↔ OpenFits img res k.fdTable dentry :=
            ⟨fun h => h dentry hsome, fun h d hd => Option.some.inj (hsome.symm.trans hd) ▸ h⟩
          rw [hforall]
          -- the types in the order in which `open` compares them; each driver has its own condition
          by_cases hrtc : dentry.fileType = typeRtc
          · have hiff := rtcOpen_meets_iff (k := k.cli) res hfound hrtc
            rw [sysOpen_of_rtc hfound hrtc]
            refine hiff.trans ⟨fun h => ⟨?_, ?_, fun _ => h, ?_⟩, fun h => h.rtc_room hrtc⟩
            · exact fun hnone => absurd hrtc (opTableOf_eq_none.mp hnone).1
            · exact fun hfile => absurd (hrtc.symm.trans hfile) (by decide)
            · exact fun hdir => absurd (hrtc.symm.trans hdir) (by decide)
          · by_cases hdir : dentry.fileType = typeDir
            · have hiff := directoryOpen_meets_iff (k := k.cli) hfound hdir
              rw [sysOpen_of_dir hfound hdir]
              refine hiff.trans ⟨fun h => ⟨?_, ?_, ?_, fun _ => h⟩, fun h => h.dir_count hdir⟩
              · exact fun hnone => absurd hdir (opTableOf_eq_none.mp hnone).2.1
              · exact fun hfile => absurd (hdir.symm.trans hfile) (by decide)
              · exact fun h' => absurd h' hrtc
            · by_cases hfile : dentry.fileType = typeFile
              · have hiff := fileOpen_meets_iff (k := k.cli) hfound hfile
                rw [sysOpen_of_file hfound hfile]
                refine hiff.trans ⟨fun h => ⟨?_, fun _ => h, ?_, ?_⟩, fun h => h.file_room hfile⟩
                · exact fun hnone => absurd hfile (opTableOf_eq_none.mp hnone).2.2
                · exact fun h' => absurd h' hrtc
                · exact fun h' => absurd h' hdir
              · have hunknown : opTableOf dentry.fileType = none :=
                  opTableOf_eq_none.mpr ⟨hrtc, hdir, hfile⟩
                rw [sysOpen_of_unknown hfound hrtc hdir hfile]
                -- no driver serves such an entry, so the only right answer is `-1`, which is left
                -- to what the uninitialised variable held
                have hcannot : ¬ CanOpen img k.fdTable (some name) dentry := fun hcan => by
                  have := hcan.known
                  rw [hunknown] at this
                  cases this
                constructor
                · intro h
                  refine ⟨fun _ => ?_, fun h' => absurd h' hfile, fun h' => absurd h' hrtc,
                    fun h' => absurd h' hdir⟩
                  rcases h with ⟨d, _, _, hcan, _⟩ | ⟨_, hret, _⟩
                  · have hd : d = dentry := Option.some.inj (hcan.found.symm.trans hsome)
                    exact absurd (hd ▸ hcan) hcannot
                  · exact BitVec.eq_of_toInt_eq (hret.trans (by decide))
                · intro h
                  have hret : res.ret.toInt = -1 := by
                    rw [h.known hunknown]
                    decide
                  rw [hret]
                  exact openMeets_of_refused hsome hcannot

end OpenCall

/-! ## One call of `close` -/

/-- The invariant of a descriptor table: the standard streams, a driver behind each
descriptor in use, none behind a free one, and `flags` as the driver of the rtc expects
them. -/
structure FdTable.Sound (fds : FdTable) : Prop where
  std : StdStreams fds
  free_none : ∀ i : Fin 8, 2 ≤ i → (fds i).Free → (fds i).fileOperationsPointer = none
  driver : ∀ i : Fin 8, 2 ≤ i → ¬ (fds i).Free →
    (fds i).fileOperationsPointer = some .file ∨ (fds i).fileOperationsPointer = some .dir ∨
      (fds i).fileOperationsPointer = some .rtc ∧ (fds i).flags ≠ 0

section CloseCall

variable {k : Kernel} {fds fds' : FdTable}

theorem cleared_free (b : FdBlock) : b.cleared.Free := rfl

/-- The three close functions free a descriptor in use. -/
theorem fileClose_of_in_use {i : Fin 8} (hi : 2 ≤ i) (huse : ¬ (k.fdTable i).Free) :
    fileClose k i.val = (0, k.setFd i (k.fdTable i).cleared) := by
  have hval : 2 ≤ (i.val : Int) ∧ (i.val : Int) < 8 := by
    have := Fin.le_def.mp hi
    simp only [Fin.val_two] at this
    omega
  have huse : (k.fdTable i).flags ≠ freeFlags := huse
  simp only [fileClose, dif_pos hval, Int.toNat_natCast, if_neg huse]

theorem rtcClose_of_in_use {i : Fin 8} (hi : 2 ≤ i) (hflags : (k.fdTable i).flags ≠ 0) :
    rtcClose k i.val = (0, (k.cli.setFd i (k.fdTable i).cleared).sti) := by
  have hval : 2 ≤ (i.val : Int) ∧ (i.val : Int) < 8 := by
    have := Fin.le_def.mp hi
    simp only [Fin.val_two] at this
    omega
  have hcli : k.cli.fdTable i = k.fdTable i := rfl
  simp only [rtcClose, dif_pos hval, Int.toNat_natCast, hcli, if_neg hflags]

/-- What `close` does to a sound table: it frees a descriptor in use, or refuses. -/
theorem sysClose_cases (hsound : k.fdTable.Sound) (fd : Int) :
    (∃ i : Fin 8, fd = i.val ∧ 2 ≤ i ∧ ¬ (k.fdTable i).Free ∧
      ((sysClose k fd) = (0, k.cli.setFd i (k.fdTable i).cleared) ∨
        (sysClose k fd) = (0, (k.cli.setFd i (k.fdTable i).cleared).sti))) ∨
    ((∀ i : Fin 8, fd = i.val → 2 ≤ i → (k.fdTable i).Free) ∧ sysClose k fd = (-1, k.cli)) := by
  by_cases hfd : 2 ≤ fd ∧ fd < 8
  · obtain ⟨i, rfl⟩ := exists_fd (n := fd) ⟨by omega, hfd.2⟩
    have hi : 2 ≤ i := Fin.le_def.mpr (by exact_mod_cast hfd.1)
    have hclose := sysClose_of_le k hi
    by_cases hfree : (k.fdTable i).Free
    · right
      refine ⟨fun j hj _ => ?_, ?_⟩
      · have hsame : j = i := Fin.ext (by exact_mod_cast hj.symm)
        exact hsame ▸ hfree
      · rw [hclose, hsound.free_none i hi hfree, Option.elim_none]
    · left
      refine ⟨i, rfl, hi, hfree, ?_⟩
      -- a descriptor in use that is not a standard stream belongs to one of three drivers
      rcases hsound.driver i hi hfree with hops | hops | ⟨hops, hflags⟩
      · rw [hclose, hops]
        exact Or.inl (fileClose_of_in_use hi hfree)
      · rw [hclose, hops]
        exact Or.inl (fileClose_of_in_use hi hfree)
      · rw [hclose, hops]
        exact Or.inr (rtcClose_of_in_use (k := k.cli) hi hflags)
  · right
    refine ⟨fun i hi h2 => ?_, ?_⟩
    · have := Fin.le_def.mp h2
      simp only [Fin.val_two] at this
      omega
    · exact sysClose_of_out hfd

/-- `close` does what it is for on every sound table. -/
theorem sysClose_meets (hsound : k.fdTable.Sound) (fd : Int) :
    CloseMeets k.fdTable fd (sysClose k fd).1 (sysClose k fd).2.fdTable := by
  rcases sysClose_cases hsound fd with ⟨i, hfd, hi, huse, hclose | hclose⟩ | ⟨hfree, hclose⟩
  · rw [hclose]
    exact Or.inl ⟨i, _, hfd, hi, huse, cleared_free _, rfl, rfl, Kernel.setFd_fdTable _ _ _⟩
  · rw [hclose]
    exact Or.inl ⟨i, _, hfd, hi, huse, cleared_free _, rfl, rfl, Kernel.setFd_fdTable _ _ _⟩
  · rw [hclose]
    exact Or.inr ⟨hfree, rfl, rfl⟩

/-- Replacing a descriptor from `2` on keeps the standard streams. -/
theorem StdStreams.update (h : StdStreams fds) {i : Fin 8} (hi : 2 ≤ i) (b : FdBlock) :
    StdStreams (Function.update fds i b) := by
  have h0 : (0 : Fin 8) ≠ i := by
    rintro rfl
    exact absurd hi (by decide)
  have h1 : (1 : Fin 8) ≠ i := by
    rintro rfl
    exact absurd hi (by decide)
  constructor
  · rw [Function.update_of_ne h0]
    exact h.stdin
  · rw [Function.update_of_ne h0]
    exact h.stdin_in_use
  · rw [Function.update_of_ne h1]
    exact h.stdout
  · rw [Function.update_of_ne h1]
    exact h.stdout_in_use

/-- A call of `open` that does what it is for keeps the table sound. -/
theorem FdTable.Sound.of_openMeets {img : FsImage} {filename : Option CString} {ret : Int}
    (h : fds.Sound) (hmeets : OpenMeets img fds filename ret fds') : fds'.Sound := by
  rcases hmeets with ⟨dentry, fd, b, hcan, hlow, hb, _, rfl⟩ | ⟨_, _, rfl⟩
  · have hdriver : b.fileOperationsPointer = some .file ∨ b.fileOperationsPointer = some .dir ∨
        b.fileOperationsPointer = some .rtc ∧ b.flags ≠ 0 := by
      rw [hb.ops]
      have hknown := hcan.known
      simp only [opTableOf] at hknown ⊢
      split_ifs at hknown ⊢ with hrtc
      · exact Or.inr (Or.inr ⟨rfl, by rw [hb.rtc hrtc]; decide⟩)
      · exact Or.inr (Or.inl rfl)
      · exact Or.inl rfl
      · exact absurd hknown (by simp)
    refine ⟨h.std.update hlow.two_le b, fun i hi => ?_, fun i hi => ?_⟩
    · rcases eq_or_ne i fd with rfl | hne
      · rw [Function.update_self]
        exact fun hfree => absurd hfree hb.in_use
      · rw [Function.update_of_ne hne]
        exact h.free_none i hi
    · rcases eq_or_ne i fd with rfl | hne
      · rw [Function.update_self]
        exact fun _ => hdriver
      · rw [Function.update_of_ne hne]
        exact h.driver i hi
  · exact h

/-- So does a call of `close`. -/
theorem FdTable.Sound.of_closeMeets {fd ret : Int} (h : fds.Sound)
    (hmeets : CloseMeets fds fd ret fds') : fds'.Sound := by
  rcases hmeets with ⟨fd, b, _, h2, _, hfree, hops, _, rfl⟩ | ⟨_, _, rfl⟩
  · refine ⟨h.std.update h2 b, fun i hi => ?_, fun i hi => ?_⟩
    · rcases eq_or_ne i fd with rfl | hne
      · rw [Function.update_self]
        exact fun _ => hops
      · rw [Function.update_of_ne hne]
        exact h.free_none i hi
    · rcases eq_or_ne i fd with rfl | hne
      · rw [Function.update_self]
        exact fun huse => absurd hfree huse
      · rw [Function.update_of_ne hne]
        exact h.driver i hi
  · exact h

/-- The table of a new process. -/
theorem FdTable.Sound.reset (h : StdStreams fds) : fds.reset.Sound := by
  have hcleared : ∀ i : Fin 8, 2 ≤ i → fds.reset i = (fds i).cleared := fun i hi =>
    if_pos (Fin.le_def.mp hi)
  refine ⟨⟨h.stdin, h.stdin_in_use, h.stdout, h.stdout_in_use⟩, fun i hi _ => ?_,
    fun i hi huse => ?_⟩
  · rw [hcleared i hi]
    rfl
  · rw [hcleared i hi] at huse
    exact absurd (cleared_free _) huse

end CloseCall

/-! ## Frame -/

/-- The same process runs, and the tables of the others are unchanged. -/
structure OwnTableOnly (k k' : Kernel) : Prop where
  currentPid_eq : k'.procs.currentPid = k.procs.currentPid
  others : ∀ q, q ≠ k.procs.currentPid → k'.fdTableOf q = k.fdTableOf q

section Frame

variable {img : FsImage} {res : Residue} {k k' : Kernel}

theorem OwnTableOnly.refl (k : Kernel) : OwnTableOnly k k := ⟨rfl, fun _ _ => rfl⟩

theorem OwnTableOnly.setFd (k : Kernel) (fd : Fin 8) (b : FdBlock) :
    OwnTableOnly k (k.setFd fd b) :=
  ⟨rfl, fun _ hq => Kernel.setFd_fdTableOf_ne k fd b hq⟩

theorem OwnTableOnly.sti (h : OwnTableOnly k k') : OwnTableOnly k k'.sti :=
  ⟨h.currentPid_eq, h.others⟩

/-- Only the control blocks of the kernel before the call matter. -/
theorem OwnTableOnly.of_procs {k₀ : Kernel} (h : OwnTableOnly k₀ k')
    (hprocs : k₀.procs = k.procs) : OwnTableOnly k k' where
  currentPid_eq := h.currentPid_eq.trans (congrArg Processes.currentPid hprocs)
  others := by
    intro q hq
    have hq' : q ≠ k₀.procs.currentPid := by rwa [hprocs]
    rw [h.others q hq', Kernel.fdTableOf, Kernel.fdTableOf, hprocs]

theorem fileOpen_ownTableOnly (filename : CString) :
    OwnTableOnly k (fileOpen img k filename).2 := by
  simp only [fileOpen]
  split
  · exact .refl k
  · split
    · exact .refl k
    · exact .setFd k _ _

theorem directoryOpen_ownTableOnly (filename : CString) :
    OwnTableOnly k (directoryOpen img k filename).2 := by
  simp only [directoryOpen]
  split
  · exact .refl k
  · split
    · exact .refl k
    · exact .setFd k _ _

theorem rtcOpen_ownTableOnly : OwnTableOnly k (rtcOpen res k).2 := by
  simp only [rtcOpen]
  split
  · exact (OwnTableOnly.refl k.cli).of_procs rfl
  · split
    · exact (OwnTableOnly.refl k.cli).of_procs rfl
    · exact (OwnTableOnly.setFd _ _ _).sti.of_procs rfl

theorem sysOpen_ownTableOnly (img : FsImage) (res : Residue) (filename : Option CString) :
    OwnTableOnly k (sysOpen img res k filename).2 := by
  have hcli : OwnTableOnly k k.cli := (OwnTableOnly.refl k.cli).of_procs rfl
  rcases sysOpen_cases img res k filename with
    ⟨v, hopen⟩ | hopen | ⟨name, dentry, -, hopen | hopen⟩
  · rw [hopen]
    exact hcli
  · rw [hopen]
    exact rtcOpen_ownTableOnly.of_procs rfl
  · rw [hopen]
    exact (directoryOpen_ownTableOnly name).of_procs rfl
  · rw [hopen]
    exact (fileOpen_ownTableOnly name).of_procs rfl

theorem sysClose_ownTableOnly (hsound : k.fdTable.Sound) (fd : Int) :
    OwnTableOnly k (sysClose k fd).2 := by
  rcases sysClose_cases hsound fd with ⟨i, _, _, _, hclose | hclose⟩ | ⟨_, hclose⟩
  · rw [hclose]
    exact (OwnTableOnly.setFd k.cli i _).of_procs rfl
  · rw [hclose]
    exact (OwnTableOnly.setFd k.cli i _).sti.of_procs rfl
  · rw [hclose]
    exact (OwnTableOnly.refl k.cli).of_procs rfl

end Frame

/-! ## Runs -/

/-- The calls of a run: creation and destruction of processes, and `open` and `close` by any
process. -/
inductive TableCall where
  | create (parent : Pid)
  | destroy (pid : Pid)
  | openFile (pid : Pid) (filename : Option CString) (res : Residue)
  | closeFile (pid : Pid) (fd : Int)

/-- The return value of a call and the kernel after it. -/
def TableCall.run (img : FsImage) (k : Kernel) : TableCall → Int × Kernel
  | .create parent =>
      match createNewPcb (k.runAs parent) parent with
      | none => (-1, k.runAs parent)
      | some (pid, k') => (pid.val, k')
  | .destroy pid => (0, destroyPcb k pid)
  | .openFile pid filename res => sysOpen img res (k.runAs pid) filename
  | .closeFile pid fd => sysClose (k.runAs pid) fd

/-- One call as a step of a run. -/
def tableStep (img : FsImage) (k : Kernel) (c : TableCall) : Option Kernel :=
  some (c.run img k).2

/-- A call does what it is for, the tables of the other processes are unchanged, and
descriptors `0` and `1` of every process are stdin and stdout. -/
def StepMeets (img : FsImage) (k : Kernel) (c : TableCall) (k' : Kernel) : Prop :=
  (∀ p, StdStreams (k'.fdTableOf p)) ∧
  match c with
  | .create _ | .destroy _ => True
  | .openFile pid filename _ =>
      OpenMeets img (k.fdTableOf pid) filename (c.run img k).1 (k'.fdTableOf pid) ∧
        ∀ q, q ≠ pid → k'.fdTableOf q = k.fdTableOf q
  | .closeFile pid fd =>
      CloseMeets (k.fdTableOf pid) fd (c.run img k).1 (k'.fdTableOf pid) ∧
        ∀ q, q ≠ pid → k'.fdTableOf q = k.fdTableOf q

/-- The steps in which the calls do what they are for. -/
def StepFits (img : FsImage) (k : Kernel) (c : TableCall) (_ : Kernel) : Prop :=
  match c with
  | .openFile pid filename res =>
      ∀ dentry, filename.bind (readDentryByName img) = some dentry →
        OpenFits img res (k.fdTableOf pid) dentry
  | .create _ | .destroy _ | .closeFile _ _ => True

/-- All tables are sound. -/
def SoundTables (k : Kernel) : Prop := ∀ p, (k.fdTableOf p).Sound

section Runs

variable {img : FsImage} {k k' : Kernel}

theorem soundTables_boot (espBoot : Word) : SoundTables (bootKernel espBoot) := by
  intro p
  have hreset : (bootKernel espBoot).fdTableOf p = initialFds := rfl
  rw [hreset]
  have hslot : ∀ i : Fin 8, 2 ≤ i → initialFds i = ⟨none, freeFlags, 0, freeFlags⟩ := by decide
  refine ⟨⟨rfl, by decide, rfl, by decide⟩, fun i hi _ => ?_, fun i hi huse => ?_⟩
  · rw [hslot i hi]
  · rw [hslot i hi] at huse
    exact absurd rfl huse

/-- Sound tables of one process and unchanged tables of the others. -/
theorem SoundTables.of_own (pid : Pid) (h : SoundTables k) (hown : (k'.fdTableOf pid).Sound)
    (hothers : ∀ q, q ≠ pid → k'.fdTableOf q = k.fdTableOf q) : SoundTables k' := by
  intro p
  rcases eq_or_ne p pid with rfl | hne
  · exact hown
  · rw [hothers p hne]
    exact h p

theorem setPcb_fdTableOf (k : Kernel) (pid : Pid) (b : Pcb) (p : Pid) :
    (k.setPcb pid b).fdTableOf p = if p = pid then b.fdTable else k.fdTableOf p := by
  simp only [Kernel.setPcb, Kernel.fdTableOf, Function.update_apply]
  split <;> rfl

/-- An assignment to a control block that leaves its descriptors. -/
theorem setPcb_fdTableOf_same (k : Kernel) (pid : Pid) (b : Pcb) (p : Pid)
    (hb : b.fdTable = k.fdTableOf pid) : (k.setPcb pid b).fdTableOf p = k.fdTableOf p := by
  rw [setPcb_fdTableOf]
  split
  next heq => rw [heq, hb]
  next => rfl

theorem clearArgs_fdTableOf (k : Kernel) (p : Pid) : (clearArgs k).fdTableOf p = k.fdTableOf p :=
  setPcb_fdTableOf_same k k.procs.currentPid _ p (by rfl)

theorem destroyPcb_fdTableOf (k : Kernel) (pid p : Pid) :
    (destroyPcb k pid).fdTableOf p = k.fdTableOf p :=
  setPcb_fdTableOf_same k pid _ p (by rfl)

/-- The table of the new process is reset. -/
theorem createNewPcb_fdTableOf {parent pid : Pid} (hcreate : createNewPcb k parent = some (pid, k'))
    (p : Pid) :
    k'.fdTableOf p = if p = pid then (k.fdTableOf pid).reset else k.fdTableOf p := by
  simp only [createNewPcb] at hcreate
  split at hcreate
  · cases hcreate
  next q _ =>
    obtain ⟨rfl, rfl⟩ := Prod.mk.inj (Option.some.inj hcreate)
    rw [clearArgs_fdTableOf]
    exact setPcb_fdTableOf k q _ p

theorem createNewPcb_soundTables {parent pid : Pid} (h : SoundTables k)
    (hcreate : createNewPcb k parent = some (pid, k')) : SoundTables k' := by
  have htable := createNewPcb_fdTableOf hcreate
  refine h.of_own pid ?_ fun p hp => ?_
  · rw [htable, if_pos rfl]
    exact FdTable.Sound.reset (h pid).std
  · rw [htable, if_neg hp]

/-- The step lemma: a fitting call keeps all tables sound. -/
theorem SoundTables.step {c : TableCall} (h : SoundTables k)
    (hstep : tableStep img k c = some k') (hfits : StepFits img k c k') : SoundTables k' := by
  cases hstep
  cases c with
  | create parent =>
      simp only [TableCall.run]
      split
      · exact h
      next hcreate => exact createNewPcb_soundTables (k := k.runAs parent) h hcreate
  | destroy pid =>
      intro p
      rw [TableCall.run, destroyPcb_fdTableOf]
      exact h p
  | openFile pid filename res =>
      have hown := sysOpen_ownTableOnly (k := k.runAs pid) img res filename
      have hmeets := (sysOpen_meets_iff (k := k.runAs pid)).mpr hfits
      have hsound := FdTable.Sound.of_openMeets (h pid) hmeets
      rw [Kernel.fdTable, hown.currentPid_eq] at hsound
      exact h.of_own pid hsound hown.others
  | closeFile pid fd =>
      have hown := sysClose_ownTableOnly (k := k.runAs pid) (h pid) fd
      have hsound :=
        FdTable.Sound.of_closeMeets (h pid) (sysClose_meets (k := k.runAs pid) (h pid) fd)
      rw [Kernel.fdTable, hown.currentPid_eq] at hsound
      exact h.of_own pid hsound hown.others

/-- On sound tables a call does what it is for exactly if it fits. -/
theorem SoundTables.stepMeets_iff {c : TableCall} (h : SoundTables k)
    (hstep : tableStep img k c = some k') : StepMeets img k c k' ↔ StepFits img k c k' := by
  have hstreams : StepFits img k c k' → ∀ p, StdStreams (k'.fdTableOf p) := fun hfits p =>
    (h.step hstep hfits p).std
  cases hstep
  cases c with
  | create parent => exact ⟨fun _ => trivial, fun hfits => ⟨hstreams hfits, trivial⟩⟩
  | destroy pid => exact ⟨fun _ => trivial, fun hfits => ⟨hstreams hfits, trivial⟩⟩
  | openFile pid filename res =>
      have hown := sysOpen_ownTableOnly (k := k.runAs pid) img res filename
      have hiff : OpenMeets img (k.runAs pid).fdTable filename
          (sysOpen img res (k.runAs pid) filename).1 _ ↔ _ := sysOpen_meets_iff
      rw [Kernel.fdTable, Kernel.fdTable, hown.currentPid_eq] at hiff
      constructor
      · rintro ⟨_, hmeets, _⟩
        exact hiff.mp hmeets
      · intro hfits
        exact ⟨hstreams hfits, hiff.mpr hfits, hown.others⟩
  | closeFile pid fd =>
      have hown := sysClose_ownTableOnly (k := k.runAs pid) (h pid) fd
      have hmeets := sysClose_meets (k := k.runAs pid) (h pid) fd
      rw [Kernel.fdTable, Kernel.fdTable, hown.currentPid_eq] at hmeets
      exact ⟨fun _ => trivial, fun hfits => ⟨hstreams hfits, hmeets, hown.others⟩⟩

end Runs

/-- In every run from boot, every call does what it is for exactly if every call fits. -/
theorem allSteps_stepMeets_iff (img : FsImage) (espBoot : Word) (calls : List TableCall) :
    AllSteps (tableStep img) (StepMeets img) (bootKernel espBoot) calls ↔
      AllSteps (tableStep img) (StepFits img) (bootKernel espBoot) calls :=
  allSteps_iff_of_invariant (P := StepMeets img) (Q := StepFits img)
    (fun _ _ _ h hstep => h.stepMeets_iff hstep) (fun _ _ _ h hstep hfits => h.step hstep hfits)
    calls (soundTables_boot espBoot)

/-- The run in which a new process opens a regular file seven times. -/
def sevenOpens : List TableCall :=
  .create 0 :: List.replicate 7 (.openFile 1 (some [97]) emptyResidue)

/-- The seventh `open` returns `0` and puts the file in place of stdin. -/
theorem not_allSteps_stepMeets_sevenOpens :
    ¬ AllSteps (tableStep fiveByteImage) (StepMeets fiveByteImage) (bootKernel 0) sevenOpens := by
  intro h
  obtain ⟨_, h⟩ := h _ rfl
  obtain ⟨_, h⟩ := h _ rfl
  obtain ⟨_, h⟩ := h _ rfl
  obtain ⟨_, h⟩ := h _ rfl
  obtain ⟨_, h⟩ := h _ rfl
  obtain ⟨_, h⟩ := h _ rfl
  obtain ⟨_, h⟩ := h _ rfl
  obtain ⟨⟨hstreams, _⟩, _⟩ := h _ rfl
  exact absurd (hstreams 1).stdin (by decide)

end Ece391Os
