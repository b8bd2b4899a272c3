import Ece391Os.Library.PaddedText
import Ece391Os.Properties.InputIsolation

/-!
# Delivered lines

`keyboard_read` copies a line and its newline over what earlier lines left in the row of
`read_buffer`; `terminal_read` then stores a `NUL` at `nbytes - 1`, scans the row for the newline
and copies it out. The store can hit the newline, cut the line off in front of it, or fall outside
of the row (`deliversLine_iff`), and what stands between newline and `NUL` is left of earlier lines
(`undisclosed_iff`).
-/

set_option autoImplicit false

namespace Ece391Os

/-! ## The row -/

/-- The row behind the Enter key: the line and its newline over the old content. -/
def deliverRow (text : List UInt8) (row : Row) : Row := fun j => (text ++ [10]).getD j (row j)

/-- The row with the `NUL` that `terminal_read` stores. -/
def closeRow (nbytes : Nat) (row : Row) : Row := Function.update row (nbytes - 1) 0

section Row

variable {text : List UInt8} {row : Row} {nbytes i : Nat}

theorem deliverRow_of_lt (h : i < text.length) : deliverRow text row i = text.getD i 0 := by
  have hlength : (text ++ [10]).length = text.length + 1 := List.length_append
  rw [deliverRow, List.getD_eq_getElem _ _ (by omega), List.getElem_append_left h,
    List.getD_eq_getElem _ _ h]

theorem deliverRow_newline : deliverRow text row text.length = 10 := by
  have hlength : (text ++ [10]).length = text.length + 1 := List.length_append
  rw [deliverRow, List.getD_eq_getElem _ _ (by omega), List.getElem_append_right (le_refl _)]
  simp

/-- Behind the newline the old content is left. -/
theorem deliverRow_of_gt (h : text.length < i) : deliverRow text row i = row i := by
  have hlength : (text ++ [10]).length = text.length + 1 := List.length_append
  rw [deliverRow, List.getD_eq_default _ _ (by omega)]

/-- The old content matters behind the newline only. -/
theorem deliverRow_congr {row' : Row} (h : text.length < i → row i = row' i) :
    deliverRow text row i = deliverRow text row' i := by
  rcases Nat.lt_trichotomy i text.length with hlt | rfl | hgt
  · rw [deliverRow_of_lt hlt, deliverRow_of_lt hlt]
  · rw [deliverRow_newline, deliverRow_newline]
  · rw [deliverRow_of_gt hgt, deliverRow_of_gt hgt]
    exact h hgt

theorem closeRow_end : closeRow nbytes row (nbytes - 1) = 0 := Function.update_self _ _ _

theorem closeRow_of_ne (h : i ≠ nbytes - 1) : closeRow nbytes row i = row i :=
  Function.update_of_ne h _ _

theorem closeRow_congr {row' : Row} (h : i ≠ nbytes - 1 → row i = row' i) :
    closeRow nbytes row i = closeRow nbytes row' i := by
  rcases eq_or_ne i (nbytes - 1) with rfl | hne
  · rw [closeRow_end, closeRow_end]
  · rw [closeRow_of_ne hne, closeRow_of_ne hne]
    exact h hne

end Row

/-! ## A submitted line -/

/-- Enter is pressed on the line `w` of the displayed terminal `t`, whose process waits in
`terminal_read`; `k'` is the kernel when that process goes on. -/
structure Submits (t : Terminal) (w : Line) (k k' : Kernel) : Prop where
  shown : k.terms.currentTerminal = t
  waiting : k.terms.returnSwitch t = .on
  line : Shows k.kbd t w
  enter : ∃ k₁, handleKeyboard k enterKey = some k₁ ∧
    k'.terms.readBuffer = k₁.terms.readBuffer
  turn : k'.sched.currentProcess = t

section Submits

variable {t : Terminal} {w : Line} {k k' : Kernel}

/-- Enter on a desk with a waiting reader. -/
theorem Desk.enter_readRow {d d' : Desk} {e : Line} (hwait : d.line.returnSwitch = .on)
    (hfills : Fills 0 maxBufferSize d.line.row e.text) (hsize : d.line.size = e.text.length)
    (h : d.enter = some d') : d'.line.readRow = deliverRow e.text d.line.readRow := by
  -- the history does not touch the line
  have hdesk : ∃ d₁ : Desk, d₁.line = d.line ∧
      (rowSet d₁.line.row d₁.line.size 10).bind (fun row =>
        (InputLine.deliver { d₁.line with row := row }).bind fun line =>
          some ({ d₁ with line := line.clear } : Desk)) = some d' := by
    simp only [Desk.enter, Option.bind_eq_bind, Option.pure_def] at h
    split at h
    · obtain ⟨d₁, hd₁, h⟩ := Option.bind_eq_some_iff.mp h
      refine ⟨d₁, ?_, h⟩
      obtain ⟨d₂, hd₂, rfl⟩ := Option.map_eq_some_iff.mp hd₁
      simp only [Desk.copy] at hd₂
      split at hd₂
      · obtain rfl := Option.some.inj hd₂
        rfl
      · cases hd₂
    · exact ⟨d, rfl, h⟩
  obtain ⟨d₁, hline, h⟩ := hdesk
  rw [hline, hsize] at h
  obtain ⟨row, hset, hlegal, hrow⟩ := rowSet_newline hfills
  rw [hset, Option.bind_some] at h
  -- `keyboard_read` copies up to the newline, which `terminal_return` has put behind the line
  have hend : row e.text.length = 10 := by
    rw [hrow _ (le_refl _), List.getD_append_right _ _ _ _ (le_refl _), Nat.sub_self]
    rfl
  have hin : e.text.length < maxBufferSize := Nat.lt_of_le_of_lt e.length_le (by decide)
  have hread := keyboardReadLoop_eq hlegal hend hin (Nat.zero_le _) (Nat.zero_add _)
    d.line.readRow
  simp only [InputLine.deliver, hwait, hread, Option.map_some, Option.bind_some] at h
  obtain rfl := Option.some.inj h
  -- the copy over the old row, byte by byte
  funext j
  simp only [InputLine.clear, Nat.zero_le, true_and]
  rcases Nat.lt_trichotomy j e.text.length with hlt | rfl | hgt
  · rw [if_pos (by omega), hrow j (by omega), List.getD_append _ _ _ _ hlt, deliverRow_of_lt hlt]
  · rw [if_pos (le_refl _), hend, deliverRow_newline]
  · rw [if_neg (by omega), deliverRow_of_gt hgt]

/-- What Enter does to the rows. -/
theorem Submits.rows (h : Submits t w k k') :
    k'.terms.readBuffer =
      Function.update k.terms.readBuffer t (deliverRow w.text (k.terms.readBuffer t)) := by
  obtain ⟨k₁, hk₁, hrows⟩ := h.enter
  obtain ⟨d, hd, hr⟩ := replaces_handleKeyboard hk₁
  have hshown := h.shown
  subst hshown
  have hread : d.line.readRow =
      deliverRow w.text (k.terms.readBuffer k.terms.currentTerminal) :=
    Desk.enter_readRow (d := k.desk) h.waiting h.line.fills h.line.size hd
  rw [hrows]
  funext u
  -- Enter replaces the row of the displayed terminal only
  rcases eq_or_ne u k.terms.currentTerminal with rfl | hne
  · rw [Function.update_self, ← hread, ← hr.desk]
    have hterminal : k₁.terms.currentTerminal = k.terms.currentTerminal := hr.terminal
    simp only [Kernel.desk, Kernel.inputLine, hterminal]
  · rw [Function.update_of_ne hne]
    exact congrArg InputLine.readRow (hr.lines u hne)

end Submits

/-! ## The scan and the copy -/

/-- The rows of `read_buffer` behind the store of the `NUL`. -/
def closedRows (k : Kernel) (nbytes : Nat) : Terminal → Row :=
  setReadByte k.terms.readBuffer k.sched.currentProcess (nbytes - 1) 0

/-- What `strncpy` finds in front of the first `NUL`. -/
def copiedText (k : Kernel) (nbytes : Nat) : List UInt8 :=
  PaddedText.read 0 nbytes (readByte (closedRows k nbytes) k.sched.currentProcess)

theorem finishRead_eq (k : Kernel) (nbytes beyond : Nat) :
    finishRead k nbytes beyond =
      ((scanNewline (closedRows k nbytes) k.sched.currentProcess beyond : Int) + 1,
        copiedText k nbytes,
        { k with
          terms := { k.terms with readBuffer := closedRows k nbytes }
          video := k.video.nextLine
          interrupts := true }) := rfl

section Scan

variable {t : Terminal} {w : Line} {k k' : Kernel} {nbytes beyond i : Nat}

/-- The row of a submitted line behind the store of the `NUL`. -/
theorem Submits.readByte (h : Submits t w k k') (nbytes : Nat) (hi : i < maxBufferSize) :
    readByte (closedRows k' nbytes) k'.sched.currentProcess i =
      closeRow nbytes (deliverRow w.text (k.terms.readBuffer t)) i := by
  rw [readByte_own _ _ hi, closedRows, h.turn, setReadByte_row _ _ _ _ hi, h.rows,
    Function.update_self, closeRow]

theorem Line.getD_legal {j : Nat} (hj : j < w.text.length) : Legal (w.text.getD j 0) := by
  rw [List.getD_eq_getElem _ _ hj]
  exact w.legal_text _ (List.getElem_mem hj)

/-- No newline stands in front of the one that ends the line. -/
theorem Submits.readByte_front (h : Submits t w k k') (hi : i < w.text.length) :
    Ece391Os.readByte (closedRows k' nbytes) k'.sched.currentProcess i ≠ 10 := by
  have hlen := w.length_le
  have hin : i < maxBufferSize := Nat.lt_of_lt_of_le hi (hlen.trans (by decide))
  rw [h.readByte _ hin]
  -- a `NUL` in the line is no newline either
  rcases eq_or_ne i (nbytes - 1) with rfl | hne
  · rw [closeRow_end]
    decide
  · rw [closeRow_of_ne hne, deliverRow_of_lt hi]
    exact (Line.getD_legal hi).2

theorem Line.length_lt (w : Line) : w.text.length < maxBufferSize :=
  Nat.lt_of_le_of_lt w.length_le (by decide)

/-- A `NUL` that does not hit the newline leaves it to the scan. -/
theorem Submits.scan (h : Submits t w k k') (hn : nbytes - 1 ≠ w.text.length) :
    scanNewline (closedRows k' nbytes) k'.sched.currentProcess beyond = w.text.length := by
  have hlen := w.length_lt
  have hleft := maxBufferSize_le_bytesLeft k'.sched.currentProcess
  apply scanNewline_eq (Nat.lt_of_lt_of_le hlen hleft)
  · rw [h.readByte _ hlen, closeRow_of_ne (Ne.symm hn), deliverRow_newline]
  · exact fun j hj => h.readByte_front hj

/-- A `NUL` in the place of the newline: the scan goes on behind the line. -/
theorem Submits.scan_erased (h : Submits t w k k') (hn : nbytes - 1 = w.text.length) :
    w.text.length < scanNewline (closedRows k' nbytes) k'.sched.currentProcess beyond := by
  have hleft := maxBufferSize_le_bytesLeft k'.sched.currentProcess
  apply lt_scanNewline (Nat.lt_of_lt_of_le w.length_lt hleft)
  intro j hj
  rcases Nat.lt_or_eq_of_le hj with hlt | rfl
  · exact h.readByte_front hlt
  · rw [h.readByte _ w.length_lt, ← hn, closeRow_end]
    decide

/-- The bytes of the line, of the newline and of the `NUL`. -/
theorem Submits.copied_lt (h : Submits t w k k') (hn : w.text.length + 2 ≤ nbytes)
    (hi : i ≤ w.text.length) :
    i < (copiedText k' nbytes).length ∧
      (copiedText k' nbytes).getD i 0 = (w.text ++ [10]).getD i 0 := by
  have hlen := w.length_lt
  have hbyte : ∀ j, j ≤ w.text.length →
      Ece391Os.readByte (closedRows k' nbytes) k'.sched.currentProcess j =
        deliverRow w.text (k.terms.readBuffer t) j := by
    intro j hj
    rw [h.readByte _ (by omega), closeRow_of_ne (by omega)]
  have hne : ∀ j, j ≤ w.text.length →
      Ece391Os.readByte (closedRows k' nbytes) k'.sched.currentProcess j ≠ 0 := by
    intro j hj
    rw [hbyte j hj]
    rcases Nat.lt_or_eq_of_le hj with hlt | rfl
    · rw [deliverRow_of_lt hlt]
      exact (Line.getD_legal hlt).1
    · rw [deliverRow_newline]
      decide
  -- the text goes on as long as no `NUL` is found
  obtain ⟨-, -, hend⟩ := PaddedText.length_read_iff.mp
    (rfl : (copiedText k' nbytes).length = _)
  have hlong : i < (copiedText k' nbytes).length := by
    by_contra hshort
    have hshort := Nat.not_lt.mp hshort
    exact hne _ (hshort.trans hi) (hend (by omega))
  refine ⟨hlong, ?_⟩
  rw [copiedText, PaddedText.getD_read hlong, hbyte i hi]
  rcases Nat.lt_or_eq_of_le hi with hlt | rfl
  · rw [deliverRow_of_lt hlt, List.getD_append _ _ _ _ hlt]
  · rw [deliverRow_newline, List.getD_append_right _ _ _ _ (le_refl _), Nat.sub_self]
    rfl

/-- The copy ends at the `NUL` at the latest. -/
theorem Submits.length_copied (h : Submits t w k k') (hn : 1 ≤ nbytes)
    (hmax : nbytes ≤ maxBufferSize) : (copiedText k' nbytes).length ≤ nbytes - 1 := by
  obtain ⟨-, hall, -⟩ := PaddedText.length_read_iff.mp
    (rfl : (copiedText k' nbytes).length = _)
  -- the copy finds the `NUL` at `nbytes - 1`
  by_contra hlong
  apply hall (nbytes - 1) (Nat.not_le.mp hlong)
  rw [h.readByte _ (by omega), closeRow_end]

end Scan

/-! ## Delivery -/

/-- The indices of `read_buffer[cip]` that `terminal_read` accesses behind its wait loop: the store
of the `NUL`, the loads of the scan, and those of `strncpy` with the `NUL` that ends it. -/
def rowAccesses (k : Kernel) (nbytes beyond : Nat) : List Nat :=
  (nbytes - 1) ::
    (List.range (scanNewline (closedRows k nbytes) k.sched.currentProcess beyond + 1) ++
      List.range ((copiedText k nbytes).length + 1))

/-- `terminal_read` returns the length of the line with its newline, or `nbytes` if that is less,
delivers so many characters of it, and stays in the row. -/
structure DeliversLine (text : List UInt8) (nbytes beyond : Nat) (k : Kernel) : Prop where
  returns : (finishRead k nbytes beyond).1 = min (nbytes : Int) (text.length + 1)
  delivers : ∀ j : Nat, (j : Int) < (finishRead k nbytes beyond).1 →
    (finishRead k nbytes beyond).2.1.getD j 0 = (text ++ [10]).getD j 0
  inRow : ∀ i ∈ rowAccesses k nbytes beyond, i < maxBufferSize

/-- `terminal_read` delivers a submitted line exactly if the buffer has room for the line, its
newline and a `NUL`, and is not longer than the row, whatever stands behind the array. -/
theorem deliversLine_iff {t : Terminal} {w : Line} {k k' : Kernel} (h : Submits t w k k')
    {nbytes : Nat} (hn : 1 ≤ nbytes) (beyond : Nat) :
    DeliversLine w.text nbytes beyond k' ↔
      w.text.length + 2 ≤ nbytes ∧ nbytes ≤ maxBufferSize := by
  have hsize : maxBufferSize = 128 := rfl
  have hlen := w.length_lt
  rw [hsize] at hlen ⊢
  constructor
  · rintro ⟨hr, -, hrow⟩
    -- the store of the `NUL` is the first access
    have hmax : nbytes - 1 < 128 := hrow (nbytes - 1) List.mem_cons_self
    refine ⟨?_, by omega⟩
    rw [finishRead_eq] at hr
    simp only at hr
    by_contra hshort
    -- the `NUL` stands in front of the newline or in its place
    by_cases hhit : nbytes - 1 = w.text.length
    · have hbehind : w.text.length <
          scanNewline (closedRows k' nbytes) k'.sched.currentProcess beyond :=
        h.scan_erased hhit
      omega
    · rw [h.scan hhit] at hr
      omega
  · rintro ⟨hroom, hmax⟩
    -- the `NUL` falls behind the newline, and the scan ends at the newline
    have hscan : scanNewline (closedRows k' nbytes) k'.sched.currentProcess beyond =
        w.text.length := h.scan (by omega)
    have hcopied := h.length_copied hn (by rw [hsize]; exact hmax)
    have hvalue : (finishRead k' nbytes beyond).1 = w.text.length + 1 := by
      rw [finishRead_eq, hscan]
    refine ⟨by omega, fun j hj => ?_, fun i hi => ?_⟩
    · exact (h.copied_lt hroom (by omega)).2
    · rw [rowAccesses, hscan] at hi
      simp only [List.mem_cons, List.mem_append, List.mem_range] at hi
      rw [hsize]
      omega

/-- The line `a`. -/
def lineA : Line where
  text := [97]
  cursor := 1
  cursor_le := le_refl 1
  length_le := by decide
  legal_text := by
    intro c hc
    rw [List.mem_singleton.mp hc]
    decide

/-- The third shell waits, and the line `a` is typed. -/
def typedSession : InputSession :=
  (EventRun.runFrom (InputSession.step shellImage) InputSession.shells
    [.startRead, .key 0x1E]).getD InputSession.shells

/-- Enter is pressed. -/
def enteredKernel : Kernel :=
  (handleKeyboard typedSession.kernel enterKey).getD typedSession.kernel

theorem submits_lineA : Submits 2 lineA typedSession.kernel enteredKernel where
  shown := by decide
  waiting := by decide
  line :=
    { fills := by
        have hrow : ∀ i < maxBufferSize, typedSession.kernel.kbd.buffer 2 i = [97].getD i 0 := by
          decide
        exact hrow
      index := by decide
      size := by decide }
  enter := by
    have hsome : (handleKeyboard typedSession.kernel enterKey).isSome := by decide
    obtain ⟨k, hk⟩ := Option.isSome_iff_exists.mp hsome
    refine ⟨k, hk, ?_⟩
    rw [enteredKernel, hk, Option.getD_some]
  turn := by decide

theorem deliversLine_lineA : DeliversLine lineA.text 128 0 enteredKernel :=
  (deliversLine_iff submits_lineA (by decide) 0).mpr (by decide)

/-- The count `1023` that user programs pass makes the call store behind the row; with the count `1`
it returns `2`. -/
theorem not_deliversLine_lineA :
    Submits 2 lineA typedSession.kernel enteredKernel ∧
      ¬ DeliversLine lineA.text 1023 0 enteredKernel ∧
      ¬ DeliversLine lineA.text 1 0 enteredKernel := by
  refine ⟨submits_lineA, fun h => ?_, fun h => ?_⟩
  · exact absurd (h.inRow 1022 List.mem_cons_self) (by decide)
  · exact absurd h.returns (by decide)

/-! ## Earlier lines -/

/-- The row that earlier reads left, each of a line with a count. -/
def rowAfter (history : List (Line × Nat)) : Row :=
  history.foldl (fun row c => closeRow c.2 (deliverRow c.1.text row)) fun _ => 0

/-- The row of terminal `t` holds what these reads left. -/
def HoldsLines (k : Kernel) (t : Terminal) (history : List (Line × Nat)) : Prop :=
  ∀ i, i < maxBufferSize → k.terms.readBuffer t i = rowAfter history i

/-- The bytes that `strncpy` stores into the buffer of the caller. -/
def storedBytes (k : Kernel) (nbytes beyond : Nat) : List UInt8 :=
  (List.range nbytes).map fun j => (finishRead k nbytes beyond).2.1.getD j 0

/-- A call that reads the line `w` stores the same bytes whatever lines were read before in the
terminal. -/
def Undisclosed (t : Terminal) (w : Line) (nbytes : Nat) : Prop :=
  ∀ (k₁ k₁' k₂ k₂' : Kernel) (history₁ history₂ : List (Line × Nat)) (beyond₁ beyond₂ : Nat),
    Submits t w k₁ k₁' → Submits t w k₂ k₂' →
    HoldsLines k₁ t history₁ → HoldsLines k₂ t history₂ →
    storedBytes k₁' nbytes beyond₁ = storedBytes k₂' nbytes beyond₂

section History

variable {t : Terminal} {w : Line} {k k' k₁ k₂ k₁' k₂' : Kernel} {nbytes beyond : Nat}
  {history : List (Line × Nat)}

theorem holdsLines_boot (espBoot : Word) (t : Terminal) : HoldsLines (bootKernel espBoot) t [] :=
  fun _ _ => rfl

/-- One more read. -/
theorem HoldsLines.read (hold : HoldsLines k t history) (h : Submits t w k k') :
    HoldsLines (finishRead k' nbytes beyond).2.2 t (history ++ [(w, nbytes)]) := by
  intro i hi
  rw [finishRead_eq, rowAfter, List.foldl_append, List.foldl_cons, List.foldl_nil]
  have hrow : closedRows k' nbytes t i =
      closeRow nbytes (deliverRow w.text (k.terms.readBuffer t)) i := by
    rw [← h.readByte _ hi, readByte_own _ _ hi, h.turn]
  simp only [hrow]
  apply closeRow_congr
  intro _
  apply deliverRow_congr
  intro _
  exact hold i hi

theorem storedBytes_eq (k : Kernel) (nbytes beyond : Nat) :
    storedBytes k nbytes beyond =
      (List.range nbytes).map fun j => (copiedText k nbytes).getD j 0 := rfl

/-- The bytes up to two behind the line do not depend on the old row. -/
theorem row_of_near {old₁ old₂ : Row} {i : Nat} (hn : nbytes ≤ w.text.length + 2)
    (hi : i < nbytes) :
    closeRow nbytes (deliverRow w.text old₁) i = closeRow nbytes (deliverRow w.text old₂) i := by
  apply closeRow_congr
  intro hne
  apply deliverRow_congr
  -- the only byte behind the newline is the `NUL`
  intro hgt
  omega

theorem copiedText_of_near (h₁ : Submits t w k₁ k₁') (h₂ : Submits t w k₂ k₂')
    (hn : nbytes ≤ w.text.length + 2) (hmax : nbytes ≤ maxBufferSize) :
    copiedText k₁' nbytes = copiedText k₂' nbytes := by
  have hbytes : (List.range nbytes).map
        (readByte (closedRows k₁' nbytes) k₁'.sched.currentProcess) =
      (List.range nbytes).map (readByte (closedRows k₂' nbytes) k₂'.sched.currentProcess) := by
    apply List.map_congr_left
    intro i hi
    have hi := List.mem_range.mp hi
    rw [h₁.readByte _ (by omega), h₂.readByte _ (by omega)]
    exact row_of_near hn hi
  rw [copiedText, copiedText, PaddedText.read, PaddedText.read, hbytes]

end History

/-! ### Two histories that differ -/

/-- The line `w` has been typed in terminal `t`, whose process waits; `row` is left in its row. -/
def waitingKernel (t : Terminal) (w : Line) (row : Row) : Kernel :=
  let k := bootKernel 0
  { k with
    terms := { k.terms with
      currentTerminal := t
      returnSwitch := fun _ => .on
      readBuffer := Function.update k.terms.readBuffer t row }
    kbd := { k.kbd with
      buffer := Function.update k.kbd.buffer t fun i => w.text.getD i 0
      bufferIDX := Function.update k.kbd.bufferIDX t w.cursor
      bufferSIZE := Function.update k.kbd.bufferSIZE t w.text.length } }

section Differ

variable {t : Terminal} {w : Line} {row : Row}

theorem linesShow_waitingKernel :
    LinesShow (waitingKernel t w row).kbd (Function.update (fun _ => .empty) t w) := by
  have hboot := Session.linesShow_bootKernel 0
  apply LinesShow.edit
  · exact
      { fills := by
          intro i _
          simp only [waitingKernel, Function.update_self]
        index := by simp only [waitingKernel, Function.update_self]
        size := by simp only [waitingKernel, Function.update_self] }
  · intro u hne
    exact (hboot.shows u).of_eq (Function.update_of_ne hne _ _) (Function.update_of_ne hne _ _)
      (Function.update_of_ne hne _ _)
  · exact ⟨hboot.history.base, hboot.history.index, hboot.history.ends⟩

theorem exists_submits (t : Terminal) (w : Line) (row : Row) :
    ∃ k', Submits t w (waitingKernel t w row) k' := by
  have hshows : LinesShow (Machine.keyboardKernel (waitingKernel t w row)).kbd
      (Function.update (fun _ => .empty) t w) := linesShow_waitingKernel
  obtain ⟨k₁, hrun, -⟩ := handleKeyboardInput_enter hshows
  have henter : handleKeyboard (waitingKernel t w row) enterKey =
      some (KeyStatement.exec k₁
        (.leave (waitingKernel t w row).video.videoMem (waitingKernel t w row).interrupts)) := by
    rw [handleKeyboard, hrun]
  have hline := (@linesShow_waitingKernel t w row).shows t
  rw [Function.update_self] at hline
  exact ⟨{ k₁ with sched := { k₁.sched with currentProcess := t } },
    ⟨rfl, rfl, hline, ⟨_, henter, rfl⟩, rfl⟩⟩

/-- A line that is one character longer. -/
def longerLine (w : Line) (h : w.text.length < maxCharacters) : Line where
  text := List.replicate (w.text.length + 1) 97
  cursor := 0
  cursor_le := Nat.zero_le _
  length_le := by
    rw [List.length_replicate]
    exact h
  legal_text := by
    intro c hc
    rw [List.eq_of_mem_replicate hc]
    decide

/-- Its newline stays behind that of the shorter line. -/
theorem rowAfter_longerLine (h : w.text.length < maxCharacters) :
    rowAfter [(longerLine w h, 1023)] (w.text.length + 1) = 10 := by
  have hbound : maxCharacters = 127 := rfl
  have hlength : (longerLine w h).text.length = w.text.length + 1 := List.length_replicate
  rw [rowAfter, List.foldl_cons, List.foldl_nil, closeRow_of_ne (by omega), ← hlength]
  exact deliverRow_newline

theorem readBuffer_waitingKernel : (waitingKernel t w row).terms.readBuffer t = row :=
  Function.update_self _ _ _

variable {k' : Kernel} {nbytes : Nat}

/-- Two reads of the line, after two histories. -/
theorem Undisclosed.sameBytes (h : Undisclosed t w nbytes) (history₁ history₂ : List (Line × Nat)) :
    ∃ k₁ k₂, Submits t w (waitingKernel t w (rowAfter history₁)) k₁ ∧
      Submits t w (waitingKernel t w (rowAfter history₂)) k₂ ∧
      storedBytes k₁ nbytes 0 = storedBytes k₂ nbytes 0 := by
  obtain ⟨k₁, h₁⟩ := exists_submits t w (rowAfter history₁)
  obtain ⟨k₂, h₂⟩ := exists_submits t w (rowAfter history₂)
  have hholds : ∀ history, HoldsLines (waitingKernel t w (rowAfter history)) t history := by
    intro history i _
    rw [readBuffer_waitingKernel]
  exact ⟨k₁, k₂, h₁, h₂, h _ _ _ _ _ _ 0 0 h₁ h₂ (hholds history₁) (hholds history₂)⟩

/-- The byte behind the newline comes from the old row. -/
theorem copied_behind (h : Submits t w (waitingKernel t w row) k')
    (hn : w.text.length + 3 ≤ nbytes) (hmax : nbytes ≤ maxBufferSize) :
    (copiedText k' nbytes).getD (w.text.length + 1) 0 = row (w.text.length + 1) := by
  have hbyte : readByte (closedRows k' nbytes) k'.sched.currentProcess (w.text.length + 1) =
      row (w.text.length + 1) := by
    rw [h.readByte _ (by omega), closeRow_of_ne (by omega), deliverRow_of_gt (by omega),
      readBuffer_waitingKernel]
  obtain ⟨-, hall, hend⟩ := PaddedText.length_read_iff.mp
    (rfl : (copiedText k' nbytes).length = _)
  rcases Nat.lt_or_ge (w.text.length + 1) (copiedText k' nbytes).length with hin | hout
  · rw [copiedText, PaddedText.getD_read hin, hbyte]
  · -- the text ends at that byte
    have hlong : w.text.length < (copiedText k' nbytes).length :=
      (h.copied_lt (by omega) (le_refl _)).1
    have hlen : (copiedText k' nbytes).length = w.text.length + 1 := by omega
    have hzero := hend (by omega)
    rw [hlen, hbyte] at hzero
    rw [List.getD_eq_default _ _ hout, hzero]

/-- Two buffers that hold the bytes up to one behind the newline. -/
theorem not_undisclosed_of_room (hn : w.text.length + 3 ≤ nbytes)
    (hmax : nbytes ≤ maxBufferSize) : ¬ Undisclosed t w nbytes := by
  intro hsame
  have hsize : maxBufferSize = 128 := rfl
  have hshort : w.text.length < maxCharacters := by
    have : maxCharacters = 127 := rfl
    omega
  obtain ⟨k₁, k₂, h₁, h₂, hstored⟩ := hsame.sameBytes [] [(longerLine w hshort, 1023)]
  -- the two copies would have to agree
  rw [storedBytes_eq, storedBytes_eq, List.map_inj_left] at hstored
  have hbyte := hstored (w.text.length + 1) (List.mem_range.mpr (by omega))
  rw [copied_behind h₁ hn hmax, copied_behind h₂ hn hmax, rowAfter_longerLine] at hbyte
  exact absurd hbyte (show (0 : UInt8) ≠ 10 by decide)

end Differ

/-- The bytes stored do not depend on earlier lines exactly if the buffer ends in the line, or at
most one byte behind its newline. -/
theorem undisclosed_iff (t : Terminal) (w : Line) {nbytes : Nat} (hmax : nbytes ≤ maxBufferSize) :
    Undisclosed t w nbytes ↔ nbytes ≤ w.text.length + 2 := by
  constructor
  · intro hsame
    by_contra hroom
    -- a byte behind the newline and in front of the `NUL` is copied
    exact not_undisclosed_of_room (by omega) hmax hsame
  · intro hnear k₁ k₁' k₂ k₂' _ _ _ _ h₁ h₂ _ _
    rw [storedBytes_eq, storedBytes_eq, copiedText_of_near h₁ h₂ hnear hmax]

theorem undisclosed_lineA : Undisclosed 2 lineA 3 :=
  (undisclosed_iff 2 lineA (by decide)).mpr (le_refl 3)

/-- The shell reads the line `a`. -/
def readsShort : List InputEvent := [.startRead, .key 0x1E, .key 0x1C, .finishRead 128 0]

/-- It has read the line `asd` before. -/
def readsLongShort : List InputEvent :=
  [.startRead, .key 0x1E, .key 0x1F, .key 0x20, .key 0x1C, .finishRead 128 0] ++ readsShort

/-- The second time, two bytes of the earlier line follow the newline. -/
theorem not_undisclosed_lineA :
    ¬ Undisclosed 2 lineA 128 ∧
      ∃ s₁ s₂, EventRun.runFrom (InputSession.step shellImage) InputSession.shells readsShort =
          some s₁ ∧
        EventRun.runFrom (InputSession.step shellImage) InputSession.shells readsLongShort =
          some s₂ ∧
        (s₁.delivered 2).getLast? = some (2, [97, 10]) ∧
        (s₂.delivered 2).getLast? = some (2, [97, 10, 100, 10]) := by
  refine ⟨not_undisclosed_of_room (by decide) (by decide), ?_⟩
  have hshort : (EventRun.runFrom (InputSession.step shellImage) InputSession.shells
      readsShort).map (fun s => (s.delivered 2).getLast?) = some (some (2, [97, 10])) := by
    decide
  have hlong : (EventRun.runFrom (InputSession.step shellImage) InputSession.shells
      readsLongShort).map (fun s => (s.delivered 2).getLast?) =
        some (some (2, [97, 10, 100, 10])) := by
    decide
  obtain ⟨s₁, hrun₁, hlast₁⟩ := Option.map_eq_some_iff.mp hshort
  obtain ⟨s₂, hrun₂, hlast₂⟩ := Option.map_eq_some_iff.mp hlong
  exact ⟨s₁, s₂, hrun₁, hrun₂, hlast₁, hlast₂⟩

end Ece391Os
