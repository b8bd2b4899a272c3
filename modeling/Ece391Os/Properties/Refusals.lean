import Ece391Os.Properties.FailedExecute

/-!
# Which commands `execute` refuses

For an entry of a type that `open` knows, two facts about the descriptors of the caller and the
number of processes decide whether `execute` refuses the command. The first part of `execute`
leaves both facts as they are, for every process, and with them all that belongs to the readers.
-/

set_option autoImplicit false

namespace Ece391Os

/-! ## What decides -/

/-- What of the descriptors of a process decides whether it can open an entry: a free one, and one
of the clock. -/
structure Descriptors where
  room : Bool
  clock : Bool

instance (fds : FdTable) : Decidable (Room fds) :=
  inferInstanceAs (Decidable (∃ i : Fin 8, 2 ≤ i ∧ (fds i).Free))

instance (fds : FdTable) : Decidable (HasRtc fds) :=
  inferInstanceAs (Decidable (∃ i : Fin 8, 2 ≤ i ∧ ¬ (fds i).Free ∧
    (fds i).fileOperationsPointer = some .rtc))

/-- The descriptors of process `p`. -/
def Kernel.descriptors (k : Kernel) (p : Pid) : Descriptors :=
  ⟨decide (Room (k.fdTableOf p)), decide (HasRtc (k.fdTableOf p))⟩

/-- The descriptors of a new process. -/
def Descriptors.initial : Descriptors := ⟨true, false⟩

/-- `execute` refuses an entry of known type. -/
def EntryRefused (img : FsImage) (res : Residue) (d : Descriptors) (dentry : DirEntry) : Prop :=
  if dentry.fileType = typeRtc then d.clock = true ∨ ¬ HasMagic res.buf
  else if dentry.fileType = typeDir then d.room = false ∨ DirFits img res
  else FileFits img res dentry.inodeNum

/-- `execute` refuses a command; `free` says whether there is a free process. -/
def Refused (img : FsImage) (res : Residue) (d : Descriptors) (free : Bool)
    (command : Option CString) : Prop :=
  ∀ cmd ∈ command, free = true → cmd.strlen < execBufferSize →
    ∀ dentry ∈ readDentryByName img (commandWord cmd), EntryRefused img res d dentry

/-- The named entry, if there is one, is of a type that `open` knows. -/
def KnownEntry (img : FsImage) (command : Option CString) : Prop :=
  ∀ cmd ∈ command, ∀ dentry ∈ readDentryByName img (commandWord cmd),
    dentry.fileType = typeRtc ∨ dentry.fileType = typeDir ∨ dentry.fileType = typeFile

instance (img : FsImage) (command : Option CString) : Decidable (KnownEntry img command) := by
  unfold KnownEntry
  infer_instance

/-- There is a free process. -/
def Kernel.hasFree (k : Kernel) : Bool := decide (k.procs.numActiveProcesses < maxProcesses)

section Load

variable {img : FsImage} {res : Residue} {frame : ExecuteFrame} {k k' : Kernel}
  {command : Option CString} {buf : Word}

/-- Descriptors that are the same but for the contents of free ones. -/
theorem descriptors_congr {p p' : Pid}
    (h : ∀ i, 2 ≤ i → (k.fdTableOf p i).Same (k'.fdTableOf p' i)) :
    k'.descriptors p' = k.descriptors p := by
  have hroom : Room (k'.fdTableOf p') ↔ Room (k.fdTableOf p) := by
    apply exists_congr
    intro i
    apply and_congr_right
    intro hi
    rcases h i hi with ⟨hfree, hfree'⟩ | heq
    · exact iff_of_true hfree' hfree
    · rw [heq]
  have hclock : HasRtc (k'.fdTableOf p') ↔ HasRtc (k.fdTableOf p) := by
    apply exists_congr
    intro i
    apply and_congr_right
    intro hi
    rcases h i hi with ⟨hfree, hfree'⟩ | heq
    · exact iff_of_false (fun hopen => hopen.1 hfree') fun hopen => hopen.1 hfree
    · rw [heq]
  simp only [Kernel.descriptors, hroom, hclock]

/-- The tables of all processes are the same. -/
theorem descriptors_of_tables (h : ∀ p, k'.fdTableOf p = k.fdTableOf p) :
    k'.descriptors = k.descriptors := by
  funext p
  exact descriptors_congr fun i _ => Or.inr (congrFun (h p) i)

/-- An entry of known type that has been opened, read and closed leaves the descriptors behind the
consoles as they were. -/
theorem openReadClose_slots {cmd : CString} (hknown : KnownEntry img (some cmd)) (p : Pid)
    {i : Fin 8} (hi : 2 ≤ i) :
    (k.fdTableOf p i).Same
      ((openReadClose img res buf k (commandWord cmd)).fdTableOf p i) := by
  cases hfound : readDentryByName img (commandWord cmd) with
  | none =>
      rw [openReadClose_of_refused (sysOpen_of_not_found hfound)]
      exact (Traceless.of_cli k).1 p i
  | some dentry =>
      rcases hknown cmd rfl dentry hfound with hrtc | hdir | hfile
      · by_cases hhas : HasRtc k.fdTable
        · rw [openReadClose_of_refused (sysOpen_rtc_refused hfound hrtc hhas)]
          exact (Traceless.of_cli k).1 p i
        · obtain ⟨fd, k₁, hopened, -⟩ := opened_rtc img res hfound hrtc hhas
          rw [openReadClose_of_opened hopened.ret]
          exact hopened.slots (Or.inr rfl) rfl p hi
      · exact (traceless_directory hfound hdir).1 p i
      · obtain ⟨fd, k₁, hopened, -⟩ := opened_file img res k hfound hfile
        rw [openReadClose_of_opened hopened.ret]
        exact hopened.slots (Or.inl rfl) rfl p hi

/-- A loaded command has been opened, read and closed. -/
theorem executeLoad_loaded_kernel {bytes : Nat → UInt8}
    (h : executeLoad img res frame k command = .loaded bytes k') :
    ∃ cmd, command = some cmd ∧ k' = openReadClose img res frame.buf k (commandWord cmd) := by
  cases effect_of_executeLoad h with
  | @loaded cmd v _ _ hopen _ => exact ⟨cmd, rfl, (if_neg hopen).symm⟩

/-- The first part of `execute` leaves the descriptors of every process. -/
theorem executeLoad_descriptors (hknown : KnownEntry img command) :
    (∀ v, executeLoad img res frame k command = .returned v k' →
      k'.descriptors = k.descriptors) ∧
    ∀ bytes, executeLoad img res frame k command = .loaded bytes k' →
      k'.descriptors = k.descriptors := by
  constructor
  · intro v hload
    funext p
    cases effect_of_executeLoad hload with
    | noCommand => rfl
    | full => rfl
    | long => rfl
    | notOpened hnum hlen hopen =>
        rw [executeLoad_returned_kernel hnum hlen hload]
        exact descriptors_congr fun i hi => openReadClose_slots hknown p hi
    | notExecutable hnum hlen hopen =>
        rw [executeLoad_returned_kernel hnum hlen hload]
        exact descriptors_congr fun i hi => openReadClose_slots hknown p hi
  · intro bytes hload
    funext p
    obtain ⟨cmd, rfl, rfl⟩ := executeLoad_loaded_kernel hload
    exact descriptors_congr fun i hi => openReadClose_slots hknown p hi

/-- `open` returns no descriptor of a terminal for an entry of known type. -/
theorem sysOpen_not_stdin {cmd : CString} (hknown : KnownEntry img (some cmd)) {i : Fin 8}
    (hi : (sysOpen img res k (some (commandWord cmd))).1 = i.val) :
    ((sysOpen img res k (some (commandWord cmd))).2.fdTable i).fileOperationsPointer ≠
      some .stdin := by
  have hrefused : ∀ {k₁ : Kernel},
      sysOpen img res k (some (commandWord cmd)) = (-1, k₁) → False := by
    intro k₁ hopen
    rw [hopen] at hi
    simp only at hi
    omega
  have hopened : ∀ {fd : Fin 8} {b : FdBlock} {k₁ : Kernel},
      Opened img res k (commandWord cmd) fd b k₁ → b.fileOperationsPointer ≠ some .stdin →
      ((sysOpen img res k (some (commandWord cmd))).2.fdTable i).fileOperationsPointer ≠
        some .stdin := by
    intro fd b k₁ hopen hb
    rw [hopen.ret] at hi ⊢
    obtain rfl : fd = i := Fin.ext (by simpa using hi)
    simp only [hopen.block]
    exact hb
  cases hfound : readDentryByName img (commandWord cmd) with
  | none => exact (hrefused (sysOpen_of_not_found hfound)).elim
  | some dentry =>
      -- each driver fills the slot that it returns, with its own operations
      rcases hknown cmd rfl dentry hfound with hrtc | hdir | hfile
      · by_cases hhas : HasRtc k.fdTable
        · exact (hrefused (sysOpen_rtc_refused hfound hrtc hhas)).elim
        · obtain ⟨fd, k₁, hopen, -⟩ := opened_rtc img res hfound hrtc hhas
          exact hopened hopen (by simp)
      · by_cases hroom : Room k.fdTable
        · obtain ⟨fd, k₁, hopen, -⟩ := opened_directory img res hfound hdir hroom
          exact hopened hopen (by simp)
        · exact (hrefused (sysOpen_directory_refused hfound hdir hroom)).elim
      · obtain ⟨fd, k₁, hopen, -⟩ := opened_file img res k hfound hfile
        exact hopened hopen (by simp)

/-- What belongs to the readers: the switches and the rows of `read_buffer`. -/
def Kernel.readers (k : Kernel) : (Terminal → Switch) × (Terminal → Row) :=
  (k.terms.returnSwitch, k.terms.readBuffer)

theorem openFrame_readers : OpenFrame Kernel.readers where
  fds := fun _ _ _ => rfl
  interrupts := fun _ _ => rfl
  rtc := fun _ _ => rfl

/-- The first part of `execute` does not read from a terminal. -/
theorem executeLoad_readers (hknown : KnownEntry img command) :
    (∀ v, executeLoad img res frame k command = .returned v k' → k'.readers = k.readers) ∧
      ∀ bytes, executeLoad img res frame k command = .loaded bytes k' →
        k'.readers = k.readers := by
  apply openFrame_readers.executeLoad
  intro cmd hcmd
  obtain rfl : command = some cmd := hcmd
  apply openFrame_readers.sysRead
  intro i hi hstdin
  exact absurd hstdin (sysOpen_not_stdin hknown hi)

/-- An entry of known type is refused exactly as the descriptors of the process say. -/
theorem entryFits_iff_refused {dentry : DirEntry} (hknown : dentry.fileType = typeRtc ∨
    dentry.fileType = typeDir ∨ dentry.fileType = typeFile) :
    EntryFits img res frame k dentry ↔
      EntryRefused img res (k.descriptors k.procs.currentPid) dentry := by
  have hclock : (k.descriptors k.procs.currentPid).clock = true ↔ HasRtc k.fdTable :=
    decide_eq_true_iff
  have hroom : (k.descriptors k.procs.currentPid).room = false ↔ ¬ Room k.fdTable :=
    decide_eq_false_iff_not
  rw [EntryRefused, hclock, hroom]
  have hstray : opTableOf dentry.fileType ≠ none := by
    intro hnone
    obtain ⟨hrtc, hdir, hfile⟩ := opTableOf_eq_none.mp hnone
    rcases hknown with h | h | h
    · exact hrtc h
    · exact hdir h
    · exact hfile h
  constructor
  · intro hfits
    rcases hknown with h | h | h
    · rw [if_pos h]
      exact hfits.rtc h
    · rw [if_neg (by rw [h]; decide), if_pos h]
      exact hfits.dir h
    · rw [if_neg (by rw [h]; decide), if_neg (by rw [h]; decide)]
      exact hfits.file h
  · intro hrefused
    constructor
    · intro h
      rwa [if_pos h] at hrefused
    · intro h
      rwa [if_neg (by rw [h]; decide), if_pos h] at hrefused
    · intro h
      rwa [if_neg (by rw [h]; decide), if_neg (by rw [h]; decide)] at hrefused
    · exact fun hnone => absurd hnone hstray

/-- The first part of `execute` refuses a command exactly if `Refused` says so. -/
theorem executeLoad_returned_iff_refused (hknown : KnownEntry img command) :
    (∃ k', executeLoad img res frame k command = .returned (-1) k') ↔
      Refused img res (k.descriptors k.procs.currentPid) k.hasFree command := by
  rw [executeLoad_returned_iff_entryFits]
  constructor
  · intro hfits cmd hcmd hfree hlen dentry hfound
    apply (entryFits_iff_refused (hknown cmd hcmd dentry hfound)).mp
    exact hfits cmd hcmd (of_decide_eq_true hfree) hlen dentry hfound
  · intro hrefused cmd hcmd hnum hlen dentry hfound
    apply (entryFits_iff_refused (hknown cmd hcmd dentry hfound)).mpr
    exact hrefused cmd hcmd (decide_eq_true hnum) hlen dentry hfound

end Load

end Ece391Os
