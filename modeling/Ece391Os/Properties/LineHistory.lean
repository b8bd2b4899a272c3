import Ece391Os.Library.RecallRing
import Ece391Os.Properties.KeyCases
import Ece391Os.Properties.LineEditing

/-!
# Line history

The history of a process as a list of submitted lines. `Remembers` relates the ring of 20 rows
and its three counters to the lines that were submitted since the process started and to the
depth of the line on display; the up and down keys walk through the last 19 of them, and the
line in progress waits in the row of the next line.
-/

set_option autoImplicit false

namespace Ece391Os

open EventRun RecallRing

/-! ## The history of one process -/

/-- What the driver keeps of the lines of one process. -/
structure History where
  rows : Int → Row
  index : Int
  base : Int
  size : Int

/-- The history of process `p`. -/
def Keyboard.historyOf (kbd : Keyboard) (p : Pid) : History :=
  ⟨kbd.history p, kbd.historyIDX p, kbd.historyBASE p, kbd.historySIZE p⟩

/-- `NUM_HISTORY_BUFFERS`, as the size of a ring. -/
abbrev ringSize : Nat := 20

/-- The deepest depth after `n` lines: the slot of the line in progress takes one row. -/
abbrev reach (n : Nat) : Nat := min n 19

/-- The ring and its counters stand for the submitted lines, the last one first, with the line at
`depth` on display. -/
structure Remembers (h : History) (recent : List (List UInt8)) (depth : Nat) : Prop where
  keeps : Keeps ringSize (fun j => rowText (h.rows j)) recent
  base : h.base = slot ringSize recent.length 0
  index : h.index = slot ringSize recent.length depth
  size : h.size = min recent.length ringSize
  depth_le : depth ≤ reach recent.length

/-! ## Frames -/

section Frames

variable {img : FsImage} {res : Residue} {frame : ExecuteFrame} {k k' : Kernel}

theorem historyOf_terminalWrite (k : Kernel) (text : List UInt8) (p : Pid) :
    (terminalWrite k text).2.kbd.historyOf p = k.kbd.historyOf p := by
  simp only [terminalWrite]
  split <;> rfl

theorem historyOf_keyboardInsert {c : UInt8} (h : keyboardInsert k c = some k') (p : Pid) :
    k'.kbd.historyOf p = k.kbd.historyOf p := by
  obtain ⟨_, row, text, -, -, -, rfl⟩ := keyboardInsert_eq_some h
  exact historyOf_terminalWrite { k with kbd := { k.kbd with keyFlag := true } } text p

theorem historyOf_keyboardBackspace (h : keyboardBackspace k = some k') (p : Pid) :
    k'.kbd.historyOf p = k.kbd.historyOf p := by
  obtain ⟨_, row, text, -, -, -, rfl⟩ := keyboardBackspace_eq_some h
  exact historyOf_terminalWrite { k with video := k.video.backspace } text p

theorem historyOf_keyboardLeftArrow (k : Kernel) (p : Pid) :
    (keyboardLeftArrow k).kbd.historyOf p = k.kbd.historyOf p := by
  simp only [keyboardLeftArrow]
  split <;> rfl

theorem historyOf_keyboardRightArrow (k : Kernel) (p : Pid) :
    (keyboardRightArrow k).kbd.historyOf p = k.kbd.historyOf p := by
  simp only [keyboardRightArrow]
  split <;> rfl

theorem kbd_terminalReturn (h : terminalReturn k = some k') : k'.kbd = k.kbd := by
  simp only [terminalReturn] at h
  split at h
  · obtain ⟨r, -, h⟩ := Option.bind_eq_some_iff.mp h
    obtain rfl := Option.some.inj h
    rfl
  · obtain rfl := Option.some.inj h
    rfl
  · obtain rfl := Option.some.inj h
    rfl

/-- The history behind the ring index is only moved by a recall. -/
theorem historyOf_recallHistory {i : Int} (h : recallHistory k i = some k') :
    k'.kbd.historyOf k.displayedPid = { k.kbd.historyOf k.displayedPid with index := i } ∧
      ∀ p, p ≠ k.displayedPid → k'.kbd.historyOf p = k.kbd.historyOf p := by
  simp only [recallHistory, Option.bind_eq_bind, Option.pure_def] at h
  obtain ⟨line, -, h⟩ := Option.bind_eq_some_iff.mp h
  obtain ⟨⟨row, n⟩, -, h⟩ := Option.bind_eq_some_iff.mp h
  obtain ⟨text, -, h⟩ := Option.bind_eq_some_iff.mp h
  obtain rfl := Option.some.inj h
  constructor
  · rw [historyOf_terminalWrite]
    simp [Keyboard.historyOf, Kernel.setLine, clearKeyboardBuffer]
  · intro p hp
    rw [historyOf_terminalWrite]
    simp [Keyboard.historyOf, Kernel.setLine, clearKeyboardBuffer, Function.update_of_ne hp]

/-- The up and down keys do not touch the terminals and the schedule stacks. -/
theorem keyStable_terms_sched : KeyStable fun k : Kernel => (k.terms, k.sched) where
  kbd := fun _ _ => rfl
  output := fun _ _ _ => rfl
  interrupts := fun _ _ => rfl

/-- A new process has an empty history; the others keep theirs. -/
theorem historyOf_clearHistoryBuffer (k : Kernel) (pid : Pid) :
    Remembers ((clearHistoryBuffer k pid).kbd.historyOf pid) [] 0 ∧
      ∀ p, p ≠ pid → (clearHistoryBuffer k pid).kbd.historyOf p = k.kbd.historyOf p := by
  constructor
  · refine ⟨.nil, ?_, ?_, ?_, Nat.zero_le _⟩
    · simp [Keyboard.historyOf, clearHistoryBuffer, slot]
    · simp [Keyboard.historyOf, clearHistoryBuffer, slot]
    · simp [Keyboard.historyOf, clearHistoryBuffer]
  · intro p hp
    simp [Keyboard.historyOf, clearHistoryBuffer, Function.update_of_ne hp]

end Frames

/-! ## Storing a line -/

section Storing

variable {k k' : Kernel} {lines : Terminal → Line} {recent : List (List UInt8)} {depth : Nat}

/-- The assignment of `copy_to_history`: a row goes to the slot of the next line. -/
def Kernel.storeRow (k : Kernel) (row : Row) : Kernel :=
  { k with kbd := { k.kbd with
      history := Function.update k.kbd.history k.displayedPid
        (Function.update (k.kbd.history k.displayedPid)
          (k.kbd.historyBASE k.displayedPid) row) } }

/-- A row filled up with `NUL` holds the text that fills it. -/
theorem rowText_of_fills {row : Row} {e : Line} (h : Fills 0 maxBufferSize row e.text) :
    rowText row = e.text := by
  have hlength : e.text.length < 128 := Nat.lt_succ_of_le e.length_le
  have hrow : (List.range' 0 maxBufferSize).map row =
      e.text ++ List.replicate (128 - e.text.length) 0 := by
    apply List.ext_getElem
    · rw [List.length_map, List.length_range', List.length_append, List.length_replicate]
      change 128 = _
      omega
    · intro i hi hi'
      have hin : i < maxBufferSize := by simpa using hi
      rw [List.getElem_map, List.getElem_range', Nat.zero_add, Nat.one_mul, h i hin,
        List.getElem_append]
      split
      next hlt => rw [List.getD_eq_getElem _ _ hlt]
      next hge => rw [List.getD_eq_default _ _ (Nat.le_of_not_lt hge), List.getElem_replicate]
  have hstop : ∀ n, (List.replicate n (0 : UInt8)).takeWhile (fun c => decide (Legal c)) = [] := by
    intro n
    cases n with
    | zero => rfl
    | succ n => rfl
  rw [rowText, textFrom, hrow, List.takeWhile_append_of_pos, hstop, List.append_nil]
  intro c hc
  exact decide_eq_true (e.legal_text c hc)

/-- `copy_to_history` stores some row. -/
theorem exists_storeRow (hcopy : copyToHistory k = some k') : ∃ row, k' = k.storeRow row := by
  simp only [copyToHistory, Option.bind_eq_bind, Option.pure_def] at hcopy
  obtain ⟨old, -, hcopy⟩ := Option.bind_eq_some_iff.mp hcopy
  exact ⟨_, (Option.some.inj hcopy).symm⟩

/-- `copy_to_history` puts the line in the slot of the next line. -/
theorem copyToHistory_stores (h : LinesShow k.kbd lines) (hcopy : copyToHistory k = some k') :
    ∃ row, rowText row = (lines k.terms.currentTerminal).text ∧ k' = k.storeRow row := by
  simp only [copyToHistory, Option.bind_eq_bind, Option.pure_def] at hcopy
  obtain ⟨old, -, hcopy⟩ := Option.bind_eq_some_iff.mp hcopy
  refine ⟨_, ?_, (Option.some.inj hcopy).symm⟩
  apply rowText_of_fills
  intro i hi
  have hfill := (h.shows k.terms.currentTerminal).fills i hi
  dsimp only
  rw [if_pos hi, hfill]
  -- the copy replaces only newlines, and a line has none
  rcases Nat.lt_or_ge i (lines k.terms.currentTerminal).text.length with hlt | hge
  · rw [List.getD_eq_getElem _ _ hlt, historyByte, if_neg]
    have hlegal := (lines k.terms.currentTerminal).legal_text _ (List.getElem_mem hlt)
    rintro (hnewline | hnul)
    · exact hlegal.2 hnewline
    · exact hlegal.1 hnul
  · rw [List.getD_eq_default _ _ hge]
    rfl

/-- The line in progress can be stored while it is on display. -/
theorem Remembers.store {h : History} (hr : Remembers h recent depth) (row : Row) :
    Remembers { h with rows := Function.update h.rows h.base row } recent depth := by
  refine ⟨hr.keeps.of_eq_off fun j hj => ?_, hr.base, hr.index, hr.size, hr.depth_le⟩
  dsimp only
  rw [Function.update_of_ne (hr.base ▸ hj)]

/-- A stored line is submitted by `increment_history_indices`. -/
theorem Remembers.submit {h : History} (hr : Remembers h recent depth) {row : Row}
    {text : List UInt8} (hrow : rowText row = text) :
    Remembers
      { rows := Function.update h.rows h.base row
        index := (h.base + 1).tmod numHistoryBuffers
        base := (h.base + 1).tmod numHistoryBuffers
        size := if h.size < numHistoryBuffers then h.size + 1 else h.size }
      (text :: recent) 0 := by
  have hbase : (h.base + 1).tmod numHistoryBuffers = slot ringSize (text :: recent).length 0 := by
    rw [hr.base, Int.tmod_eq_emod_of_nonneg
      (Int.add_nonneg (slot_fits (by decide)).1 (by decide)), List.length_cons,
      ← slot_succ_succ (n := recent.length) (d := 0)]
    exact slot_newer
  refine ⟨?_, hbase, hbase, ?_, Nat.zero_le _⟩
  · apply hr.keeps.submit
    · dsimp only
      rw [← hr.base, Function.update_self]
      exact hrow
    · intro j hj
      dsimp only
      rw [Function.update_of_ne (hr.base ▸ hj)]
  · have hsize : h.size = (min recent.length 20 : Nat) := hr.size
    have hring : numHistoryBuffers = 20 := rfl
    change (if h.size < numHistoryBuffers then h.size + 1 else h.size) =
      (min (text :: recent).length 20 : Nat)
    rw [List.length_cons]
    split <;> omega

/-- `increment_history_indices` moves the counters of the displayed process. -/
theorem historyOf_incrementHistoryIndices (k : Kernel) :
    (incrementHistoryIndices k).kbd.historyOf k.displayedPid =
        { k.kbd.historyOf k.displayedPid with
          index := ((k.kbd.historyOf k.displayedPid).base + 1).tmod numHistoryBuffers
          base := ((k.kbd.historyOf k.displayedPid).base + 1).tmod numHistoryBuffers
          size := if (k.kbd.historyOf k.displayedPid).size < numHistoryBuffers then
              (k.kbd.historyOf k.displayedPid).size + 1
            else (k.kbd.historyOf k.displayedPid).size } ∧
      ∀ p, p ≠ k.displayedPid →
        (incrementHistoryIndices k).kbd.historyOf p = k.kbd.historyOf p := by
  constructor
  · simp only [Keyboard.historyOf, incrementHistoryIndices, Function.update_self]
    rfl
  · intro p hp
    simp [Keyboard.historyOf, incrementHistoryIndices, Function.update_of_ne hp]

/-- A row of the displayed process is stored. -/
theorem historyOf_storeRow (k : Kernel) (row : Row) :
    (k.storeRow row).kbd.historyOf k.displayedPid =
        { k.kbd.historyOf k.displayedPid with
          rows := Function.update (k.kbd.historyOf k.displayedPid).rows
            (k.kbd.historyOf k.displayedPid).base row } ∧
      ∀ p, p ≠ k.displayedPid → (k.storeRow row).kbd.historyOf p = k.kbd.historyOf p := by
  constructor
  · simp [Keyboard.historyOf, Kernel.storeRow]
  · intro p hp
    simp [Keyboard.historyOf, Kernel.storeRow, Function.update_of_ne hp]

/-- The end of the branch of the Enter key leaves the histories alone. -/
theorem historyOf_finishLine
    (h : ((rowSet (k.kbd.buffer k.terms.currentTerminal)
        (k.kbd.bufferSIZE k.terms.currentTerminal) 10).bind fun row =>
      (terminalReturn (k.setLine k.terms.currentTerminal row
        (k.kbd.bufferIDX k.terms.currentTerminal)
        (k.kbd.bufferSIZE k.terms.currentTerminal))).bind fun k =>
          some (clearKeyboardBuffer k)) = some k') (p : Pid) :
    k'.kbd.historyOf p = k.kbd.historyOf p := by
  obtain ⟨row, -, h⟩ := Option.bind_eq_some_iff.mp h
  obtain ⟨k₁, hreturn, h⟩ := Option.bind_eq_some_iff.mp h
  obtain rfl := Option.some.inj h
  change k₁.kbd.historyOf p = _
  rw [kbd_terminalReturn hreturn]
  rfl

/-- Enter submits a line that is not empty; the histories of the other processes stay. -/
theorem keyboardEnter_remembers (h : LinesShow k.kbd lines) (hrun : keyboardEnter k = some k')
    (hr : Remembers (k.kbd.historyOf k.displayedPid) recent depth) :
    (∃ d, Remembers (k'.kbd.historyOf k.displayedPid)
      (if (lines k.terms.currentTerminal).text ≠ [] then
        (lines k.terms.currentTerminal).text :: recent else recent) d) ∧
      ∀ p, p ≠ k.displayedPid → k'.kbd.historyOf p = k.kbd.historyOf p := by
  obtain ⟨hfills, -, -⟩ := h.shows k.terms.currentTerminal
  -- the driver takes a line for empty if its first byte is `NUL`
  have hfirst : k.kbd.buffer k.terms.currentTerminal 0 ≠ 0 ↔
      (lines k.terms.currentTerminal).text ≠ [] := by
    rw [hfills 0 (by decide)]
    cases htext : (lines k.terms.currentTerminal).text with
    | nil => simp
    | cons c text =>
        have hlegal := (lines k.terms.currentTerminal).legal_text c (by simp [htext])
        simpa using hlegal.1
  simp only [keyboardEnter, Option.bind_eq_bind, Option.pure_def] at hrun
  by_cases hempty : (lines k.terms.currentTerminal).text = []
  · rw [if_neg (fun h0 => hfirst.mp h0 hempty), Option.bind_some] at hrun
    rw [if_neg (not_not_intro hempty), historyOf_finishLine hrun]
    exact ⟨⟨depth, hr⟩, fun p _ => historyOf_finishLine hrun p⟩
  · rw [if_pos (hfirst.mpr hempty)] at hrun
    obtain ⟨k₁, hremember, hrun⟩ := Option.bind_eq_some_iff.mp hrun
    obtain ⟨k₂, hcopy, rfl⟩ := Option.map_eq_some_iff.mp hremember
    -- the line is stored at the base, then base and index move on
    obtain ⟨row, htext, rfl⟩ := copyToHistory_stores h hcopy
    obtain ⟨hstore, hstoreOther⟩ := historyOf_storeRow k row
    obtain ⟨hincrement, hincrementOther⟩ := historyOf_incrementHistoryIndices (k.storeRow row)
    have hpid : (k.storeRow row).displayedPid = k.displayedPid := rfl
    rw [hpid] at hincrement hincrementOther
    rw [if_pos hempty, historyOf_finishLine hrun, hincrement, hstore]
    refine ⟨⟨0, hr.submit htext⟩, fun p hp => ?_⟩
    rw [historyOf_finishLine hrun, hincrementOther p hp, hstoreOther p hp]

end Storing

/-! ## The up and down keys -/

section Walking

variable {k k' : Kernel} {lines : Terminal → Line} {recent : List (List UInt8)} {depth : Nat}
  {draft : List UInt8}

/-- The history of the displayed process while its user walks through it: the line in progress is
kept in its slot as soon as another one is on display. -/
structure Walking (h : History) (recent : List (List UInt8)) (draft : List UInt8) (depth : Nat) :
    Prop where
  remembers : Remembers h recent depth
  saved : depth ≠ 0 → rowText (h.rows h.base) = draft

/-- At the deepest depth there is nothing older: the ring is empty there, or full. -/
theorem Remembers.deepest {h : History} (hr : Remembers h recent depth)
    (hdepth : ¬ depth < reach recent.length) :
    h.size < numHistoryBuffers ∧ h.index = 0 ∨
      ¬ (h.size < numHistoryBuffers ∧ h.index = 0) ∧ h.index ≠ h.base ∧
        slot ringSize recent.length (depth + 1) = h.base := by
  have hle := hr.depth_le
  have hring : numHistoryBuffers = 20 := rfl
  have hreach : reach recent.length = min recent.length 19 := rfl
  have hsize : h.size = (min recent.length 20 : Nat) := hr.size
  rcases Nat.lt_or_ge recent.length 20 with hroom | hfull
  · left
    refine ⟨by omega, ?_⟩
    rw [hr.index]
    exact (slot_eq_zero_iff hroom (by omega)).mpr (by omega)
  · right
    have hdeep : depth = 19 := by omega
    subst hdeep
    refine ⟨fun hand => by omega, ?_, ?_⟩
    · rw [hr.index, hr.base]
      intro hslot
      exact absurd (slot_injective (by decide) (by decide) hslot) (by decide)
    · -- one step from the deepest slot the ring is back at its base
      rw [hr.base, slot, slot]
      have hround : (recent.length : Int) - (19 + 1 : Nat) =
          recent.length - (0 : Nat) + ringSize * (-1) := by
        change (recent.length : Int) - 20 = recent.length - 0 + 20 * (-1)
        omega
      rw [hround, Int.add_mul_emod_self_left]

/-- Above the deepest depth there is an older line. -/
theorem Remembers.not_deepest {h : History} (hr : Remembers h recent depth)
    (hdepth : depth < reach recent.length) :
    ¬ (h.size < numHistoryBuffers ∧ h.index = 0) ∧
      slot ringSize recent.length (depth + 1) ≠ h.base ∧ (h.index = h.base ↔ depth = 0) := by
  have hring : numHistoryBuffers = 20 := rfl
  have hreach : reach recent.length = min recent.length 19 := rfl
  have hslots : ringSize = 20 := rfl
  have hsize : h.size = (min recent.length 20 : Nat) := hr.size
  have hbound : depth + 1 < ringSize := by omega
  refine ⟨?_, ?_, ?_⟩
  · rintro ⟨hroom, hzero⟩
    rw [hr.index, slot_eq_zero_iff (by omega) (by omega)] at hzero
    omega
  · rw [hr.base]
    intro hslot
    exact absurd (slot_injective hbound (by decide) hslot) (Nat.succ_ne_zero _)
  · rw [hr.base, hr.index]
    constructor
    · exact slot_injective (Nat.lt_of_succ_lt hbound) (by decide)
    · rintro rfl
      rfl

/-- The slot in front of the ring index. -/
theorem Remembers.previous {h : History} (hr : Remembers h recent depth) :
    (if h.index - 1 < 0 then numHistoryBuffers - 1 else h.index - 1) =
      slot ringSize recent.length (depth + 1) := by
  rw [hr.index]
  exact slot_older (by decide)

/-- The line that `up_history` recalls. -/
theorem olderLine_eq (hr : Remembers (k.kbd.historyOf k.displayedPid) recent depth) :
    olderLine k = if depth < reach recent.length then some (lineAt recent draft (depth + 1))
      else none := by
  have hindex : 0 ≤ k.kbd.historyIDX k.displayedPid ∧
      k.kbd.historyIDX k.displayedPid < numHistoryBuffers := by
    have hfits := slot_fits (n := recent.length) (d := depth) (by decide : 0 < ringSize)
    rw [← hr.index] at hfits
    exact hfits
  simp only [olderLine, (previous_fits hindex).2]
  have hprevious : (if k.kbd.historyIDX k.displayedPid - 1 < 0 then numHistoryBuffers - 1
      else k.kbd.historyIDX k.displayedPid - 1) = slot ringSize recent.length (depth + 1) :=
    hr.previous
  rw [hprevious]
  by_cases hdepth : depth < reach recent.length
  · obtain ⟨hguard, hne, -⟩ := hr.not_deepest hdepth
    rw [if_pos hdepth]
    refine (if_neg hguard).trans ((if_neg hne).trans ?_)
    exact congrArg some (hr.keeps.lineAt_eq hdepth draft)
  · rw [if_neg hdepth]
    rcases hr.deepest hdepth with hguard | ⟨hguard, -, hbase⟩
    · exact if_pos hguard
    · exact (if_neg hguard).trans (if_pos hbase)

/-- The line that `down_history` recalls. -/
theorem newerLine_eq (hw : Walking (k.kbd.historyOf k.displayedPid) recent draft depth) :
    newerLine k = if depth = 0 then none else some (lineAt recent draft (depth - 1)) := by
  obtain ⟨hr, hsaved⟩ := hw
  have hindex : k.kbd.historyIDX k.displayedPid = slot ringSize recent.length depth := hr.index
  have hbase : k.kbd.historyBASE k.displayedPid = slot ringSize recent.length 0 := hr.base
  have hle := hr.depth_le
  have hreach : reach recent.length = min recent.length 19 := rfl
  have hslots : ringSize = 20 := rfl
  simp only [newerLine]
  cases depth with
  | zero => rw [hindex, hbase, if_pos rfl, if_pos rfl]
  | succ d =>
      have hbound : d + 1 < ringSize := by omega
      have hne : slot ringSize recent.length (d + 1) ≠ slot ringSize recent.length 0 := by
        intro hslot
        exact absurd (slot_injective hbound (by decide) hslot) (Nat.succ_ne_zero d)
      have hnewer : (slot ringSize recent.length (d + 1) + 1) % numHistoryBuffers =
          slot ringSize recent.length d := slot_newer
      rw [hindex, hbase, if_neg hne, if_neg (Nat.succ_ne_zero d), hnewer, Nat.add_sub_cancel]
      cases d with
      | zero =>
          rw [← hbase]
          exact congrArg some (hsaved (Nat.succ_ne_zero 0))
      | succ d => exact congrArg some (hr.keeps.lineAt_eq (by omega) draft)

/-- A recall moves the ring index and leaves the rest. -/
theorem Walking.recall {i : Int} {d : Nat}
    (hw : Walking (k.kbd.historyOf k.displayedPid) recent draft depth)
    (hsaved : rowText ((k.kbd.historyOf k.displayedPid).rows
      (k.kbd.historyOf k.displayedPid).base) = draft)
    (hrun : recallHistory k i = some k') (hi : i = slot ringSize recent.length d)
    (hd : d ≤ reach recent.length) :
    Walking (k'.kbd.historyOf k.displayedPid) recent draft d ∧
      ∀ p, p ≠ k.displayedPid → k'.kbd.historyOf p = k.kbd.historyOf p := by
  obtain ⟨hself, hother⟩ := historyOf_recallHistory hrun
  obtain ⟨⟨hkeeps, hbase, -, hsize, -⟩, -⟩ := hw
  rw [hself]
  exact ⟨⟨⟨hkeeps, hbase, hi, hsize, hd⟩, fun _ => hsaved⟩, hother⟩

/-- The up key is one move to an older line. -/
theorem upHistory_walks (h : LinesShow k.kbd lines)
    (hw : Walking (k.kbd.historyOf k.displayedPid) recent draft depth)
    (htext : depth = 0 → (lines k.terms.currentTerminal).text = draft)
    (hrun : upHistory k = some k') :
    Walking (k'.kbd.historyOf k.displayedPid) recent draft
        (Move.depth (reach recent.length) depth .older) ∧
      ∀ p, p ≠ k.displayedPid → k'.kbd.historyOf p = k.kbd.historyOf p := by
  have hr := hw.remembers
  have hprevious : (if k.kbd.historyIDX k.displayedPid - 1 < 0 then numHistoryBuffers - 1
      else k.kbd.historyIDX k.displayedPid - 1) = slot ringSize recent.length (depth + 1) :=
    hr.previous
  simp only [upHistory, hprevious, Option.bind_eq_bind, Option.pure_def] at hrun
  -- there is an older line to go to, or one of the guards of the driver holds
  by_cases hdepth : depth < reach recent.length
  · obtain ⟨hguard, hne, hsave⟩ := hr.not_deepest hdepth
    have hmove : Move.depth (reach recent.length) depth .older = depth + 1 :=
      Nat.min_eq_left hdepth
    rw [hmove]
    replace hrun := (if_neg hguard).symm.trans hrun
    by_cases hzero : depth = 0
    · -- the line in progress is stored first
      have hbase : k.kbd.historyIDX k.displayedPid = k.kbd.historyBASE k.displayedPid :=
        hsave.mpr hzero
      rw [if_pos hbase] at hrun
      obtain ⟨k₁, hcopy, hrun⟩ := Option.bind_eq_some_iff.mp hrun
      obtain ⟨row, hrow, rfl⟩ := copyToHistory_stores h hcopy
      replace hrun := (if_neg hne).symm.trans hrun
      obtain ⟨hstore, hstoreOther⟩ := historyOf_storeRow k row
      have hw' : Walking ((k.storeRow row).kbd.historyOf k.displayedPid) recent draft depth := by
        rw [hstore]
        exact ⟨hr.store row, fun hpos => absurd hzero hpos⟩
      have hstored : rowText (((k.storeRow row).kbd.historyOf k.displayedPid).rows
          ((k.storeRow row).kbd.historyOf k.displayedPid).base) = draft := by
        rw [hstore]
        dsimp only
        rw [Function.update_self, hrow]
        exact htext hzero
      obtain ⟨hwalk, hother⟩ := Walking.recall (k := k.storeRow row) hw' hstored hrun rfl hdepth
      exact ⟨hwalk, fun p hp => (hother p hp).trans (hstoreOther p hp)⟩
    · -- the draft was stored when the walk began
      have hbase : ¬ k.kbd.historyIDX k.displayedPid = k.kbd.historyBASE k.displayedPid :=
        fun heq => hzero (hsave.mp heq)
      rw [if_neg hbase, Option.bind_some] at hrun
      replace hrun := (if_neg hne).symm.trans hrun
      exact hw.recall (hw.saved hzero) hrun rfl hdepth
  · have hmove : Move.depth (reach recent.length) depth .older = depth := by
      have hle := hr.depth_le
      change min (depth + 1) (reach recent.length) = depth
      omega
    have hstay : k' = k := by
      -- either the ring is empty or the next slot is the one of the draft
      rcases hr.deepest hdepth with hguard | ⟨hguard, hne, hbase⟩
      · replace hrun := (if_pos hguard).symm.trans hrun
        exact (Option.some.inj hrun).symm
      · replace hrun := (if_neg hguard).symm.trans hrun
        have hbase' : slot ringSize recent.length (depth + 1) =
            k.kbd.historyBASE k.displayedPid := hbase
        have hne' : ¬ k.kbd.historyIDX k.displayedPid = k.kbd.historyBASE k.displayedPid := hne
        rw [if_neg hne', Option.bind_some, if_pos hbase'] at hrun
        exact (Option.some.inj hrun).symm
    rw [hmove, hstay]
    exact ⟨hw, fun _ _ => rfl⟩

/-- The down key is one move to a newer line. -/
theorem downHistory_walks (hw : Walking (k.kbd.historyOf k.displayedPid) recent draft depth)
    (hrun : downHistory k = some k') :
    Walking (k'.kbd.historyOf k.displayedPid) recent draft
        (Move.depth (reach recent.length) depth .newer) ∧
      ∀ p, p ≠ k.displayedPid → k'.kbd.historyOf p = k.kbd.historyOf p := by
  have hr := hw.remembers
  have hindex : k.kbd.historyIDX k.displayedPid = slot ringSize recent.length depth := hr.index
  have hbase : k.kbd.historyBASE k.displayedPid = slot ringSize recent.length 0 := hr.base
  have hle := hr.depth_le
  have hreach : reach recent.length = min recent.length 19 := rfl
  have hslots : ringSize = 20 := rfl
  simp only [downHistory] at hrun
  cases depth with
  | zero =>
      -- at the draft the key does nothing
      rw [hindex, hbase, if_pos rfl, ite_self] at hrun
      obtain rfl := Option.some.inj hrun
      exact ⟨hw, fun _ _ => rfl⟩
  | succ d =>
      have hne : ¬ k.kbd.historyIDX k.displayedPid = k.kbd.historyBASE k.displayedPid := by
        rw [hindex, hbase]
        intro hslot
        exact absurd (slot_injective (by omega) (by decide) hslot) (Nat.succ_ne_zero d)
      -- the index wraps around the ring as the slots do
      have hnext : (k.kbd.historyIDX k.displayedPid + 1).tmod numHistoryBuffers =
          slot ringSize recent.length d := by
        have hfits := slot_fits (n := recent.length) (d := d + 1) (by decide : 0 < ringSize)
        rw [hindex, Int.tmod_eq_emod_of_nonneg (Int.add_nonneg hfits.1 (by decide))]
        exact slot_newer
      rw [if_neg (fun hand => hne hand.2), if_neg hne] at hrun
      exact hw.recall (hw.saved (Nat.succ_ne_zero d)) hrun hnext (by
        change d ≤ _
        omega)

end Walking

/-! ## Other keys and system calls -/

section Others

variable {img : FsImage} {res : Residue} {frame : ExecuteFrame} {k k' : Kernel}
  {lines : Terminal → Line} {key : Nat} {recent : List (List UInt8)} {depth : Nat}

/-- Keys other than Enter submit no line. -/
theorem Handles.remembers (hh : Handles k key (.done k')) (hkey : key ≠ enterKey)
    (h : LinesShow k.kbd lines)
    (hr : Remembers (k.kbd.historyOf k.displayedPid) recent depth) :
    (∃ d, Remembers (k'.kbd.historyOf k.displayedPid) recent d) ∧
      ∀ p, p ≠ k.displayedPid → k'.kbd.historyOf p = k.kbd.historyOf p := by
  have hkept : (∀ p, k'.kbd.historyOf p = k.kbd.historyOf p) →
      (∃ d, Remembers (k'.kbd.historyOf k.displayedPid) recent d) ∧
        ∀ p, p ≠ k.displayedPid → k'.kbd.historyOf p = k.kbd.historyOf p := by
    intro hsame
    rw [hsame]
    exact ⟨⟨depth, hr⟩, fun p _ => hsame p⟩
  cases hh with
  | modifiers shift caps ctrl alt => exact hkept fun _ => rfl
  | up _ hrun =>
      by_cases hdepth : depth = 0
      · -- a walk begins at the line that is being typed
        have hstart : Walking (k.kbd.historyOf k.displayedPid) recent
            (lines k.terms.currentTerminal).text depth := ⟨hr, fun hpos => absurd hdepth hpos⟩
        obtain ⟨hwalk, hother⟩ := upHistory_walks h hstart (fun _ => rfl) hrun
        exact ⟨⟨_, hwalk.remembers⟩, hother⟩
      · obtain ⟨hwalk, hother⟩ := upHistory_walks h ⟨hr, fun _ => rfl⟩
          (fun hzero => absurd hzero hdepth) hrun
        exact ⟨⟨_, hwalk.remembers⟩, hother⟩
  | down _ hrun =>
      obtain ⟨hwalk, hother⟩ := downHistory_walks ⟨hr, fun _ => rfl⟩ hrun
      exact ⟨⟨_, hwalk.remembers⟩, hother⟩
  | left => exact hkept (historyOf_keyboardLeftArrow k)
  | right => exact hkept (historyOf_keyboardRightArrow k)
  | backspace _ hrun => exact hkept (historyOf_keyboardBackspace hrun)
  | enter henter _ => exact absurd henter hkey
  | insert _ _ hrun => exact hkept (historyOf_keyboardInsert hrun)
  | clear => exact hkept fun _ => rfl

/-- A new process has submitted nothing; the histories of the others stay. -/
theorem execute_started_history {command : Option CString} {entry : Word}
    (hexec : execute img res frame k command = .started entry k') :
    Remembers (k'.kbd.historyOf k'.procs.currentPid) [] 0 ∧
      ∀ p, p ≠ k'.procs.currentPid → k'.kbd.historyOf p = k.kbd.historyOf p := by
  obtain ⟨buf, k₁, hload, hspawn, -⟩ := executeSpawn_of_started hexec
  obtain ⟨hself, hother⟩ := historyOf_clearHistoryBuffer (clearKeyboardBuffer k₁)
    k'.procs.currentPid
  rw [executeSpawn_kbd hspawn]
  refine ⟨hself, fun p hp => (hother p hp).trans ?_⟩
  change k₁.kbd.historyOf p = _
  rw [callFrame_kbd.executeLoad.2 _ hload]

/-- `halt` leaves the keyboard alone. -/
theorem kbd_halt (k : Kernel) : (halted (halt k)).kbd = k.kbd := rfl

/-- So does the timer interrupt. -/
theorem kbd_scheduleWrapper {esp ebp : Word} (h : scheduleWrapper k esp ebp = some k') :
    k'.kbd = k.kbd := by
  obtain ⟨pid, sched, video, rfl⟩ := scheduleWrapper_frame h
  rfl

end Others

end Ece391Os
