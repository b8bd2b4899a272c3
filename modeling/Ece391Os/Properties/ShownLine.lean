import Ece391Os.Model.NestedKeyboard
import Ece391Os.Properties.CarriageReturns
import Ece391Os.Properties.InputDisplay
import Ece391Os.Properties.KeyActions

/-!
# What is shown is what is edited

Keys are handled one after another on a displayed terminal whose line was empty at the start. The
cells from the place of the cursor at that time on show the line, with the cursor in it, and what
is behind it has been erased (`shown_of_withinColumns`). The place moves up by a row with every
line that the screen scrolls. `putc` takes the remainder of a column below -80 for one to the
right of it: a key that writes there puts the line in another row.
-/

set_option autoImplicit false

namespace Ece391Os

open EventRun ScrollingSheet

/-- The screen with the cursor. -/
def Video.shown (v : Video) : Video.View := ⟨v.screen, v.screenX, v.screenY⟩

/-- The first cell of an input that began on the screen `start`, after so many scrolled lines. -/
def origin (start : Video.View) (scrolled : Nat) : Int :=
  numCols * start.y + start.x - numCols * scrolled

/-- The screen shows the line of the displayed terminal. The lines above the input have moved up as
far as its origin. -/
structure ShowsInput (start : Video.View) (scrolled longest : Nat) (k : Kernel) : Prop where
  inside : 0 ≤ origin start scrolled ∧ origin start scrolled + longest ≤ numRows * numCols
  cursor : numCols * k.video.screenY + k.video.screenX =
    origin start scrolled + k.kbd.bufferIDX k.terms.currentTerminal
  line : ∀ j : Nat, j < k.kbd.bufferSIZE k.terms.currentTerminal →
    k.video.screen (origin start scrolled + j) =
      (k.kbd.buffer k.terms.currentTerminal j, attrib)
  blank : ∀ j : Nat, k.kbd.bufferSIZE k.terms.currentTerminal ≤ j → j < longest →
    Video.IsBlank (k.video.screen (origin start scrolled + j))
  above : ∀ i, 0 ≤ i → i < origin start scrolled →
    k.video.screen i = start.page (i + numCols * scrolled)

/-! ## Keys -/

/-- The actions on the line and on the modifiers: neither Enter, Ctrl-L and Alt-Fn nor a
newline. -/
def KeyAction.Edits : KeyAction → Prop
  | .enter | .clear => False
  | .type c => c ≠ 10 ∧ c ≠ altF1 ∧ c ≠ altF2 ∧ c ≠ altF3
  | _ => True

instance : DecidablePred KeyAction.Edits := fun a => by
  cases a <;> unfold KeyAction.Edits <;> infer_instance

/-- A recalled line is empty, or it is written from a column that is not below -80: the end of the
line is in the row of the cursor, or the line begins right of that column. -/
def RecallsWithin (k : Kernel) (text : List UInt8) : Prop :=
  let t := k.terms.currentTerminal
  text = [] ∨ 0 ≤ k.video.screenX + k.kbd.bufferSIZE t - k.kbd.bufferIDX t ∨
    -numCols ≤ k.video.screenX - k.kbd.bufferIDX t

/-- What an action writes, it writes from a column that is not below -80. -/
def WithinColumns (k : Kernel) : KeyAction → Prop
  | .type c =>
      c = 0 ∨ k.kbd.bufferSIZE k.terms.currentTerminal = maxCharacters ∨
        -numCols ≤ k.video.screenX
  | .backspace =>
      k.kbd.bufferIDX k.terms.currentTerminal = 0 ∨ -numCols ≤ k.video.screenX - 1
  | .up => RecallsWithin k ((olderLine k).getD [])
  | .down => RecallsWithin k ((newerLine k).getD [])
  | _ => True

instance (k : Kernel) (text : List UInt8) : Decidable (RecallsWithin k text) :=
  inferInstanceAs (Decidable (_ ∨ _ ∨ _))

instance (k : Kernel) : DecidablePred (WithinColumns k) := fun a => by
  cases a <;> unfold WithinColumns <;> infer_instance

/-! ## The driver -/

section Driver

variable {k k' : Kernel} {lines : Terminal → Line} {front : Nat → Cell} {first longest top : Nat}
  {p : Sheet Cell} {c : UInt8}

/-- The screen is the page that `video_mem` leads to. -/
theorem view_eq_shown {v : Video} (h : v.videoMem = .video) : v.view = v.shown := by
  have htarget : v.target = .screen := by rw [Video.target, h]
  rw [Video.view, htarget]
  rfl

theorem video_terminalWrite (k : Kernel) (text : List UInt8) :
    (terminalWrite k text).2.video = text.foldl Video.writeChar k.video := by
  rw [terminalWrite]
  split
  next hempty =>
    have hnil : text = [] := List.eq_nil_of_length_eq_zero (by omega)
    rw [hnil]
    rfl
  · rfl

/-- The bytes from index `i` on of a row that holds a line. -/
theorem rowSlice_fills {row : Row} {text slice : List UInt8} (h : Fills 0 maxBufferSize row text)
    {i n : Nat} (hslice : rowSlice row i n = some slice) :
    slice = Video.rowBytes text i n := by
  rw [rowSlice] at hslice
  split at hslice
  next hin =>
    obtain rfl := Option.some.inj hslice
    apply List.map_congr_left
    intro j hj
    exact h _ (by have := List.mem_range.mp hj; omega)
  next hout => cases hslice

theorem buffer_setLine (k : Kernel) (t : Terminal) (row : Row) (idx size : Nat) :
    (k.setLine t row idx size).kbd.buffer t = row := Function.update_self _ _ _

theorem bufferSIZE_setLine (k : Kernel) (t : Terminal) (row : Row) (idx size : Nat) :
    (k.setLine t row idx size).kbd.bufferSIZE t = size := Function.update_self _ _ _

/-- What `keyboard_insert` writes. -/
theorem video_keyboardInsert (hrun : keyboardInsert k c = some k') {text : List UInt8}
    (hfills : Fills 0 maxBufferSize (k'.kbd.buffer k.terms.currentTerminal) text) :
    k'.video = ((Video.rowBytes text (k.kbd.bufferIDX k.terms.currentTerminal)
        (k.kbd.bufferSIZE k.terms.currentTerminal + 1 -
          k.kbd.bufferIDX k.terms.currentTerminal)).foldl Video.writeChar k.video).cursorLeft
      (((k.kbd.bufferSIZE k.terms.currentTerminal + 1 -
        k.kbd.bufferIDX k.terms.currentTerminal : Nat) : Int) - 1) := by
  obtain ⟨_, row, slice, -, -, hslice, rfl⟩ := keyboardInsert_eq_some hrun
  rw [buffer_setLine] at hfills
  rw [← rowSlice_fills hfills hslice]
  exact congrArg (Video.cursorLeft · _) (video_terminalWrite _ slice)

/-- What `keyboard_backspace` writes. -/
theorem video_keyboardBackspace (hrun : keyboardBackspace k = some k') {text : List UInt8}
    (hfills : Fills 0 maxBufferSize (k'.kbd.buffer k.terms.currentTerminal) text) :
    k'.video = ((Video.rowBytes text (k.kbd.bufferIDX k.terms.currentTerminal - 1)
        (k.kbd.bufferSIZE k.terms.currentTerminal + 1 -
          k.kbd.bufferIDX k.terms.currentTerminal)).foldl Video.writeChar
            k.video.backspace).cursorLeft
      (k.kbd.bufferSIZE k.terms.currentTerminal + 1 -
        k.kbd.bufferIDX k.terms.currentTerminal : Nat) := by
  obtain ⟨_, row, slice, -, -, hslice, rfl⟩ := keyboardBackspace_eq_some hrun
  rw [buffer_setLine] at hfills
  rw [← rowSlice_fills hfills hslice]
  exact congrArg (Video.cursorLeft · _) (video_terminalWrite _ slice)

/-- What a recalled line writes. -/
theorem video_recallHistory {i : Int} (hrun : recallHistory k i = some k') {e : Line}
    (hshows : Shows k'.kbd k.terms.currentTerminal e) :
    k'.video = e.text.foldl Video.writeChar
      (k.video.resetInput (k.kbd.bufferIDX k.terms.currentTerminal)
        (k.kbd.bufferSIZE k.terms.currentTerminal)) := by
  simp only [recallHistory, Option.bind_eq_bind, Option.pure_def] at hrun
  obtain ⟨line, -, hrun⟩ := Option.bind_eq_some_iff.mp hrun
  obtain ⟨⟨row, n⟩, -, hrun⟩ := Option.bind_eq_some_iff.mp hrun
  obtain ⟨slice, hslice, hrun⟩ := Option.bind_eq_some_iff.mp hrun
  obtain rfl := Option.some.inj hrun
  obtain ⟨hfills, -, hsize⟩ := hshows
  rw [(sameInput_terminalWrite _ slice).buffer, buffer_setLine] at hfills
  rw [(sameInput_terminalWrite _ slice).size, bufferSIZE_setLine] at hsize
  have htext : slice = e.text := by
    rw [rowSlice_fills hfills hslice, hsize, Video.rowBytes_all]
  rw [video_terminalWrite, htext]
  rfl

end Driver

/-! ## One key -/

/-- An input whose first cell is cell `first` of the sheet, with the cells `front` in front. -/
structure InputShown (front : Nat → Cell) (first longest : Nat) (k : Kernel)
    (lines : Terminal → Line) : Prop where
  shows : LinesShow k.kbd lines
  returns : 13 ∉ (lines k.terms.currentTerminal).text
  history : NoReturns k.kbd
  displays : ∃ top p,
    k.video.shown.Displays front first longest top p (lines k.terms.currentTerminal)

/-- The lines of the terminals and the input on the screen, whatever the longest line is. -/
def KeepsInput (front : Nat → Cell) (first longest : Nat) (k : Kernel) : Prop :=
  ∃ lines, InputShown front first (max longest (k.kbd.bufferSIZE k.terms.currentTerminal)) k lines

section Keys

variable {k k' : Kernel} {lines : Terminal → Line} {front : Nat → Cell} {first longest : Nat}
  {e : Line} {c : UInt8}

/-- Keys neither switch the terminal nor move `video_mem`. -/
theorem keyStable_terms_videoMem : KeyStable fun k : Kernel => (k.terms, k.video.videoMem) where
  kbd := fun _ _ => rfl
  output := fun k _ h => congrArg (Prod.mk k.terms) h.videoMem
  interrupts := fun _ _ => rfl

/-- The line of the displayed terminal is edited. -/
theorem InputShown.edit (hframe : (k'.terms, k'.video.videoMem) = (k.terms, k.video.videoMem))
    (hvideo : k.video.videoMem = .video)
    (hlines : LinesShow k'.kbd (Function.update lines k.terms.currentTerminal e))
    (hreturn : 13 ∉ e.text) (hhistory : NoReturns k'.kbd)
    (hdisplays : ∃ top p,
      k'.video.view.Displays front first (max longest e.text.length) top p e) :
    KeepsInput front first longest k' := by
  have hterms : k'.terms = k.terms := congrArg Prod.fst hframe
  have hvideo' : k'.video.videoMem = .video := (congrArg Prod.snd hframe).trans hvideo
  have hself : Function.update lines k.terms.currentTerminal e k'.terms.currentTerminal = e := by
    rw [hterms, Function.update_self]
  have hsize := (hlines.shows k'.terms.currentTerminal).size
  rw [hself] at hsize
  rw [view_eq_shown hvideo'] at hdisplays
  refine ⟨_, hlines, ?_, hhistory, ?_⟩
  · rw [hself]
    exact hreturn
  · rw [hself, hsize]
    exact hdisplays

/-- `keyboard_insert`. -/
theorem InputShown.insert (h : InputShown front first longest k lines)
    (hvideo : k.video.videoMem = .video) (hc : Legal c) (hreturn : c ≠ 13)
    (hroom : k.kbd.bufferSIZE k.terms.currentTerminal ≠ maxCharacters)
    (hx : -80 ≤ k.video.screenX) (hrun : keyboardInsert k c = some k') :
    KeepsInput front first longest k' := by
  obtain ⟨hfills, hindex, hsize⟩ := h.shows.shows k.terms.currentTerminal
  obtain ⟨top, p, hdisplays⟩ := h.displays
  have hreturns := h.returns
  have hroom' : (lines k.terms.currentTerminal).text.length < 127 := by
    rw [hsize] at hroom
    exact Nat.lt_of_le_of_ne (lines k.terms.currentTerminal).length_le hroom
  obtain ⟨k₁, hrun₁, hlines⟩ := keyboardInsert_shows h.shows hc hroom'
  obtain rfl : k₁ = k' := Option.some.inj (hrun₁.symm.trans hrun)
  have hshows := (hlines.shows k.terms.currentTerminal).fills
  rw [Function.update_self] at hshows
  have hwritten := video_keyboardInsert hrun hshows
  have htext := LineEditor.text_insert hroom' hc
  have hcursor := LineEditor.cursor_insert hroom' hc
  have hreturn' : 13 ∉ ((lines k.terms.currentTerminal).insert c).text := by
    rw [htext]
    intro hmem
    rcases (List.mem_insertIdx (lines k.terms.currentTerminal).cursor_le).mp hmem with heq | hold
    · exact hreturn heq.symm
    · exact hreturns hold
  refine InputShown.edit (keyStable_terms_videoMem.keyboardInsert hrun) hvideo hlines hreturn'
    (h.history.of_rows fun p => congrArg History.rows (historyOf_keyboardInsert hrun p)) ?_
  rw [← view_eq_shown hvideo] at hdisplays
  obtain ⟨top', p', hresult⟩ := hdisplays.insert htext hcursor hreturn' hx
  have hle := (lines k.terms.currentTerminal).cursor_le
  have hback : (((lines k.terms.currentTerminal).text.length + 1 -
      (lines k.terms.currentTerminal).cursor : Nat) : Int) - 1 =
      ((lines k.terms.currentTerminal).text.length -
        (lines k.terms.currentTerminal).cursor : Nat) := by omega
  refine ⟨top', p', ?_⟩
  rw [hwritten, hindex, hsize, hback]
  exact (Video.view_cursor _ _ _).symm ▸ hresult

/-- `keyboard_backspace`. -/
theorem InputShown.backspace (h : InputShown front first longest k lines)
    (hvideo : k.video.videoMem = .video)
    (hstart : k.kbd.bufferIDX k.terms.currentTerminal ≠ 0) (hx : -79 ≤ k.video.screenX)
    (hrun : keyboardBackspace k = some k') : KeepsInput front first longest k' := by
  obtain ⟨hfills, hindex, hsize⟩ := h.shows.shows k.terms.currentTerminal
  obtain ⟨top, p, hdisplays⟩ := h.displays
  have hreturns := h.returns
  have hstart' : (lines k.terms.currentTerminal).cursor ≠ 0 := fun hzero =>
    hstart (hindex.trans hzero)
  obtain ⟨k₁, hrun₁, hlines⟩ := keyboardBackspace_shows h.shows hstart'
  obtain rfl : k₁ = k' := Option.some.inj (hrun₁.symm.trans hrun)
  have hshows := (hlines.shows k.terms.currentTerminal).fills
  rw [Function.update_self] at hshows
  have hwritten := video_keyboardBackspace hrun hshows
  have htext := LineEditor.text_backspace hstart'
  have hcursor := LineEditor.cursor_backspace hstart'
  have hreturn' : 13 ∉ (lines k.terms.currentTerminal).backspace.text := by
    rw [htext]
    exact fun hmem => hreturns (List.mem_of_mem_eraseIdx hmem)
  refine InputShown.edit (keyStable_terms_videoMem.keyboardBackspace hrun) hvideo hlines hreturn'
    (h.history.of_rows fun p => congrArg History.rows (historyOf_keyboardBackspace hrun p)) ?_
  rw [← view_eq_shown hvideo] at hdisplays
  obtain ⟨top', p', hresult⟩ := hdisplays.backspace hstart' htext hcursor hreturn' hx
  refine ⟨top', p', ?_⟩
  rw [hwritten, hindex, hsize]
  exact (Video.view_cursor _ _ _).symm ▸ hresult

/-- A kernel with the same lines, the same screen and the same cursor. -/
theorem InputShown.keep (h : InputShown front first longest k lines)
    (hterms : k'.terms = k.terms) (hscreen : k'.video.shown = k.video.shown)
    (hshows : LinesShow k'.kbd lines) (hhistory : NoReturns k'.kbd) :
    InputShown front first longest k' lines := by
  obtain ⟨-, hreturns, -, hdisplays⟩ := h
  rw [← hterms] at hreturns hdisplays
  rw [← hscreen] at hdisplays
  exact ⟨hshows, hreturns, hhistory, hdisplays⟩

theorem InputShown.keeps (h : InputShown front first longest k lines) :
    KeepsInput front first longest k := by
  obtain ⟨hshows, hreturns, hhistory, top, p, hdisplays⟩ := h
  refine ⟨lines, hshows, hreturns, hhistory, top, p, ?_⟩
  rw [(hshows.shows k.terms.currentTerminal).size]
  exact hdisplays.grow

/-- `keyboard_left_arrow`. -/
theorem InputShown.left (h : InputShown front first longest k lines)
    (hvideo : k.video.videoMem = .video) :
    KeepsInput front first longest (keyboardLeftArrow k) := by
  have hindex := (h.shows.shows k.terms.currentTerminal).index
  by_cases hzero : k.kbd.bufferIDX k.terms.currentTerminal = 0
  · rw [keyboardLeftArrow, if_pos hzero]
    exact h.keeps
  · obtain ⟨top, p, hdisplays⟩ := h.displays
    rw [← view_eq_shown hvideo] at hdisplays
    have hmoved := hdisplays.left fun hcursor => hzero (hindex.trans hcursor)
    have hview : (keyboardLeftArrow k).video.view =
        { k.video.view with x := k.video.view.x - 1 } := by
      rw [keyboardLeftArrow, if_neg hzero]
      exact Video.view_cursor _ _ _
    rw [← hview] at hmoved
    exact InputShown.edit (keyStable_terms_videoMem.keyboardLeftArrow k) hvideo
      (keyboardLeftArrow_shows h.shows) h.returns
      (h.history.of_rows fun p => congrArg History.rows (historyOf_keyboardLeftArrow k p))
      ⟨top, _, hmoved.grow⟩

/-- `keyboard_right_arrow`. -/
theorem InputShown.right (h : InputShown front first longest k lines)
    (hvideo : k.video.videoMem = .video) :
    KeepsInput front first longest (keyboardRightArrow k) := by
  obtain ⟨-, hindex, hsize⟩ := h.shows.shows k.terms.currentTerminal
  by_cases hend : k.kbd.bufferIDX k.terms.currentTerminal =
      k.kbd.bufferSIZE k.terms.currentTerminal
  · rw [keyboardRightArrow, if_pos hend]
    exact h.keeps
  · obtain ⟨top, p, hdisplays⟩ := h.displays
    rw [← view_eq_shown hvideo] at hdisplays
    have hmoved := hdisplays.right fun hcursor =>
      hend (hindex.trans (hcursor.trans hsize.symm))
    have hview : (keyboardRightArrow k).video.view =
        { k.video.view with x := k.video.view.x + 1 } := by
      rw [keyboardRightArrow, if_neg hend]
      exact Video.view_cursor _ _ _
    rw [← hview] at hmoved
    exact InputShown.edit (keyStable_terms_videoMem.keyboardRightArrow k) hvideo
      (keyboardRightArrow_shows h.shows) h.returns
      (h.history.of_rows fun p => congrArg History.rows (historyOf_keyboardRightArrow k p))
      ⟨top, _, hmoved.grow⟩

/-- The common end of `up_history` and `down_history`. -/
theorem InputShown.recall (h : InputShown front first longest k lines)
    (hvideo : k.video.videoMem = .video) {i : Int} (hi : 0 ≤ i ∧ i < numHistoryBuffers)
    (hx : RecallsWithin k (rowText (k.kbd.history k.displayedPid i)))
    (hrun : recallHistory k i = some k') : KeepsInput front first longest k' := by
  obtain ⟨-, hindex, hsize⟩ := h.shows.shows k.terms.currentTerminal
  obtain ⟨top, p, hdisplays⟩ := h.displays
  have hlength := length_rowText_le (h.shows.history.ends k.displayedPid i hi.1 hi.2)
  have hlegal : ∀ c ∈ rowText (k.kbd.history k.displayedPid i), Legal c :=
    fun _ => legal_of_mem_textFrom
  have htext := LineEditor.text_replace (e := lines k.terms.currentTerminal) hlength hlegal
  have hcursor := LineEditor.cursor_replace (e := lines k.terms.currentTerminal) hlength hlegal
  obtain ⟨k₁, hrun₁, hlines⟩ := recallHistory_shows h.shows hi
  obtain rfl : k₁ = k' := Option.some.inj (hrun₁.symm.trans hrun)
  have hshows := hlines.shows k.terms.currentTerminal
  rw [Function.update_self] at hshows
  have hwritten := video_recallHistory hrun hshows
  have hreturn := h.history.notMem_rowText k.displayedPid i
  have hend := hcursor.trans (congrArg List.length htext).symm
  rw [← htext] at hreturn
  obtain ⟨hown, hothers⟩ := historyOf_recallHistory hrun
  have hrows : ∀ p, (k₁.kbd.historyOf p).rows = (k.kbd.historyOf p).rows := by
    intro p
    rcases eq_or_ne p k.displayedPid with rfl | hne
    · rw [hown]
    · rw [hothers p hne]
  refine InputShown.edit (keyStable_terms_videoMem.recallHistory hrun) hvideo hlines hreturn
    (h.history.of_rows hrows) ?_
  rw [← view_eq_shown hvideo] at hdisplays
  have hwide : ((lines k.terms.currentTerminal).replace
      (rowText (k.kbd.history k.displayedPid i))).text = [] ∨
      0 ≤ k.video.view.x + (lines k.terms.currentTerminal).text.length -
        (lines k.terms.currentTerminal).cursor ∨
      -80 ≤ k.video.view.x - (lines k.terms.currentTerminal).cursor := by
    rw [htext, ← hsize, ← hindex]
    exact hx
  obtain ⟨top', p', hresult⟩ := hdisplays.recall hend hreturn hwide
  rw [← hindex, ← hsize, ← hwritten] at hresult
  exact ⟨top', p', hresult⟩

/-- `copy_to_history` leaves the line and the screen alone. -/
theorem InputShown.copy (h : InputShown front first longest k lines)
    (hrun : copyToHistory k = some k') : InputShown front first longest k' lines := by
  obtain ⟨history', hrun', hlines, -⟩ := copyToHistory_shows h.shows
  have hreturns := h.history.copy (h.shows.shows k.terms.currentTerminal) h.returns hrun
  obtain rfl := Option.some.inj (hrun'.symm.trans hrun)
  exact h.keep rfl rfl hlines hreturns

/-- The second half of `up_history`, after it may have stored the line at `historyBASE`. -/
theorem InputShown.recallOlder {history' : Pid → Int → Row}
    (h : InputShown front first longest
      { k with kbd := { k.kbd with history := history' } } lines)
    (hkept : ∀ j, j ≠ k.kbd.historyBASE k.displayedPid →
      history' k.displayedPid j = k.kbd.history k.displayedPid j)
    (hvideo : k.video.videoMem = .video) {i : Int} (hi : 0 ≤ i ∧ i < numHistoryBuffers)
    (hx : RecallsWithin k ((if i = k.kbd.historyBASE k.displayedPid then none
      else some (rowText (k.kbd.history k.displayedPid i))).getD []))
    (hrun : (if i = k.kbd.historyBASE k.displayedPid then
        some { k with kbd := { k.kbd with history := history' } }
      else recallHistory { k with kbd := { k.kbd with history := history' } } i) = some k') :
    KeepsInput front first longest k' := by
  split at hrun
  · obtain rfl := Option.some.inj hrun
    exact h.keeps
  next hne =>
    -- the stored line is not the one that is recalled
    rw [if_neg hne, Option.getD_some, ← hkept i hne] at hx
    exact h.recall hvideo hi hx hrun

/-- `up_history`. -/
theorem InputShown.up (h : InputShown front first longest k lines)
    (hvideo : k.video.videoMem = .video) (hx : RecallsWithin k ((olderLine k).getD []))
    (hrun : upHistory k = some k') : KeepsInput front first longest k' := by
  obtain ⟨hfits, hprevious⟩ := previous_fits (h.shows.history.index k.displayedPid)
  simp only [olderLine, hprevious] at hx
  simp only [upHistory] at hrun
  split at hrun
  · obtain rfl := Option.some.inj hrun
    exact h.keeps
  next hsome =>
    rw [if_neg hsome] at hx
    split at hrun
    next hsave =>
      obtain ⟨history', hsaved, -, hkept⟩ := copyToHistory_shows h.shows
      have hcopied := h.copy hsaved
      simp only [hsaved, Option.bind_eq_bind, Option.bind_some] at hrun
      exact hcopied.recallOlder hkept hvideo hfits hx hrun
    next hkeep => exact InputShown.recallOlder h (fun _ _ => rfl) hvideo hfits hx hrun

/-- `down_history`. -/
theorem InputShown.down (h : InputShown front first longest k lines)
    (hvideo : k.video.videoMem = .video) (hx : RecallsWithin k ((newerLine k).getD []))
    (hrun : downHistory k = some k') : KeepsInput front first longest k' := by
  have hindex := (h.shows.history.index k.displayedPid).1
  have hnext : (k.kbd.historyIDX k.displayedPid + 1).tmod numHistoryBuffers =
      (k.kbd.historyIDX k.displayedPid + 1) % numHistoryBuffers :=
    Int.tmod_eq_emod_of_nonneg (by omega)
  simp only [downHistory] at hrun
  split at hrun
  · obtain rfl := Option.some.inj hrun
    exact h.keeps
  · split at hrun
    · obtain rfl := Option.some.inj hrun
      exact h.keeps
    next hne =>
      simp only [newerLine, if_neg hne, ← hnext, Option.getD_some] at hx
      exact h.recall hvideo (tmod_succ_fits hindex) hx hrun

/-- A typed character is the translation of its key. -/
theorem keyAction_type {kbd : Keyboard} {key : Nat} (h : keyAction kbd key = .type c) :
    c = translate kbd key := by
  have htype : ∀ a : KeyAction, (∀ c, a ≠ .type c) → a = .type c → c = translate kbd key :=
    fun _ hother heq => absurd heq (hother c)
  revert h
  -- twelve guards stand in front of that for a character
  iterate 12
    refine iteInduction (motive := fun a => a = KeyAction.type c → c = translate kbd key)
      (fun _ => htype _ nofun) fun _ => ?_
  refine iteInduction (motive := fun a => a = KeyAction.type c → c = translate kbd key)
    (fun _ h => (KeyAction.type.inj h).symm) fun _ => ?_
  exact iteInduction (motive := fun a => a = KeyAction.type c → c = translate kbd key)
    (fun _ => htype _ nofun) fun _ => htype _ nofun

/-- Every action that edits the line, one case for each of them. -/
theorem InputShown.act (h : InputShown front first longest k lines)
    (hvideo : k.video.videoMem = .video) {a : KeyAction} (hedits : a.Edits)
    (hreturn : ∀ c, a = .type c → c ≠ 13) (hx : WithinColumns k a) :
    ∃ k', a.run k = some (.done k') ∧ KeepsInput front first longest k' := by
  have hindex := (h.shows.shows k.terms.currentTerminal).index
  have hsize := (h.shows.shows k.terms.currentTerminal).size
  cases a with
  | modify m =>
      have hset : InputShown front first longest (k.setModifiers m) lines :=
        h.keep rfl rfl (h.shows.flags _ _ _ _ k.kbd.keyFlag) h.history
      exact ⟨_, rfl, hset.keeps⟩
  | up =>
      obtain ⟨k', hrun, -⟩ := upHistory_shows h.shows
      exact ⟨k', congrArg (Option.map _) hrun, h.up hvideo hx hrun⟩
  | down =>
      obtain ⟨k', hrun, -⟩ := downHistory_shows h.shows
      exact ⟨k', congrArg (Option.map _) hrun, h.down hvideo hx hrun⟩
  | left => exact ⟨_, rfl, h.left hvideo⟩
  | right => exact ⟨_, rfl, h.right hvideo⟩
  | backspace =>
      by_cases hstart : k.kbd.bufferIDX k.terms.currentTerminal = 0
      · exact ⟨k, if_pos hstart, h.keeps⟩
      · have hcolumn : -80 ≤ k.video.screenX - 1 := Or.resolve_left hx hstart
        obtain ⟨k', hrun, -⟩ := keyboardBackspace_shows h.shows
          fun hzero => hstart (hindex.trans hzero)
        exact ⟨k', (if_neg hstart).trans (congrArg (Option.map _) hrun),
          h.backspace hvideo hstart (by omega) hrun⟩
  | type c =>
      obtain ⟨hnewline, h1, h2, h3⟩ := hedits
      simp only [KeyAction.run]
      by_cases hfull : k.kbd.bufferSIZE k.terms.currentTerminal = maxCharacters
      · exact ⟨k, if_pos hfull, h.keeps⟩
      by_cases hzero : c = 0
      · exact ⟨k, by rw [if_neg hfull, if_pos hzero], h.keeps⟩
      have hroom : (lines k.terms.currentTerminal).text.length < 127 := by
        rw [hsize] at hfull
        exact Nat.lt_of_le_of_ne (lines k.terms.currentTerminal).length_le hfull
      have hcolumn : -80 ≤ k.video.screenX := (Or.resolve_left hx hzero).resolve_left hfull
      obtain ⟨k', hrun, -⟩ := keyboardInsert_shows h.shows ⟨hzero, hnewline⟩ hroom
      refine ⟨k', ?_, h.insert hvideo ⟨hzero, hnewline⟩ (hreturn c rfl) hfull hcolumn hrun⟩
      rw [if_neg hfull, if_neg hzero, if_neg h1, if_neg h2, if_neg h3, hrun]
      rfl
  | nothing => exact ⟨k, rfl, h.keeps⟩
  | enter => exact hedits.elim
  | clear => exact hedits.elim

/-- `handle_keyboard`, whose output goes to the screen. -/
theorem InputShown.handle (h : InputShown front first longest k lines) {key : Nat}
    (hedits : (keyAction k.kbd key).Edits) (hx : WithinColumns k (keyAction k.kbd key)) :
    ∃ k', handleKeyboard k key = some k' ∧ KeepsInput front first longest k' := by
  have hkernel : InputShown front first longest (Machine.keyboardKernel k) lines :=
    h.keep rfl rfl h.shows h.history
  have hx' : WithinColumns (Machine.keyboardKernel k) (keyAction k.kbd key) := by
    generalize keyAction k.kbd key = a at hx ⊢
    cases a <;> exact hx
  obtain ⟨k₁, hrun, lines', hkept⟩ := hkernel.act rfl hedits
    (fun c hc => keyAction_type hc ▸ translate_ne_return k.kbd key) hx'
  have hhandled : handleKeyboardInput (Machine.keyboardKernel k) key = some (.done k₁) :=
    (handleKeyboardInput_eq _ _).trans hrun
  refine ⟨_, by rw [handleKeyboard, hhandled], lines', ?_⟩
  exact hkept.keep rfl rfl hkept.shows hkept.history

end Keys

/-- The kernel, the size of the longest line so far, and whether an access has left its row. -/
structure Editing where
  kernel : Kernel
  longest : Nat
  outOfRow : Bool

namespace Editing

/-- An empty line. -/
def start (k : Kernel) : Editing := ⟨k, 0, false⟩

/-- A key that edits the line is handled. -/
def step (s : Editing) (code : UInt8) : Option Editing :=
  if (keyAction s.kernel.kbd code.toNat).Edits then
    match handleKeyboard s.kernel code.toNat with
    | none => some { s with outOfRow := true }
    | some k =>
        some { s with
          kernel := k, longest := max s.longest (k.kbd.bufferSIZE k.terms.currentTerminal) }
  else none

/-- What is shown is what is edited, in an input that began with the kernel `k`. -/
def Shown (k : Kernel) (s : Editing) : Prop :=
  s.outOfRow = false ∧ ∃ scrolled, ShowsInput k.video.shown scrolled s.longest s.kernel

/-- The key writes from a column that is not below -80. -/
def Within (s : Editing) (code : UInt8) (_ : Editing) : Prop :=
  WithinColumns s.kernel (keyAction s.kernel.kbd code.toNat)

instance (s : Editing) (code : UInt8) (s' : Editing) : Decidable (Within s code s') :=
  inferInstanceAs (Decidable (WithinColumns _ _))

section Runs

variable {k : Kernel} {s s' : Editing} {code : UInt8} {lines : Terminal → Line}
  {front : Nat → Cell} {first longest : Nat} {start : Video.View}

/-- The cells of an input on the screen. -/
theorem showsInput (h : InputShown start.window.cells start.window.pos longest k lines)
    (hstart : 0 ≤ 80 * start.y + start.x) : ∃ scrolled, ShowsInput start scrolled longest k := by
  obtain ⟨hfills, hindex, hsize⟩ := h.shows.shows k.terms.currentTerminal
  obtain ⟨top, p, hdisplays⟩ := h.displays
  have hend := hdisplays.grow.room
  obtain ⟨htracks, hcursor, hholds, -, hreach, hroom⟩ := hdisplays
  have hlimit := (lines k.terms.currentTerminal).length_le
  have hbound : maxBufferSize = 128 := rfl
  have hfirst := Video.window_pos hstart
  have horigin : origin start top = start.window.pos - 80 * top := by
    rw [hfirst]
    rfl
  have hcell : ∀ i : Nat, 80 * top ≤ i → i < 80 * (25 + top) →
      k.video.screen ((i : Int) - 80 * top) = p.cells i := fun _ => htracks.page_eq
  have hplace : ∀ j : Nat, origin start top + j =
      ((start.window.pos + j : Nat) : Int) - 80 * top := by
    intro j
    rw [horigin]
    omega
  have hpos := htracks.pos
  refine ⟨top, ⟨?_, ?_⟩, ?_, fun j hj => ?_, fun j hj hlong => ?_, fun i hi hlow => ?_⟩
  · rw [horigin]
    omega
  · show origin start top + longest ≤ 2000
    rw [horigin]
    omega
  · show 80 * k.video.screenY + k.video.screenX = _
    rw [horigin, hindex]
    have hmoved : (p.pos : Int) = 80 * (k.video.screenY + top) + k.video.screenX := hpos
    omega
  · rw [hsize] at hj
    have hline := hholds.line j (by rw [Video.length_lineCells]; exact hj)
    rw [Video.lineCells_getElem?, List.getElem?_eq_getElem hj] at hline
    rw [hplace, hcell _ (by omega) (by omega), ← Option.some.inj hline, hfills j (by omega),
      List.getD_eq_getElem _ _ hj]
  · rw [hsize] at hj
    rw [hplace, hcell _ (by omega) (by omega)]
    exact hholds.behind j (by rw [Video.length_lineCells]; exact hj) hlong
  · have hsheet := hholds.front (i.toNat + 80 * top) (by omega)
    have hback : i = ((i.toNat + 80 * top : Nat) : Int) - 80 * top := by omega
    have hfront : start.window.cells (i.toNat + 80 * top) = start.page (i + numCols * top) := by
      show start.page ((i.toNat + 80 * top : Nat) : Int) = start.page (i + 80 * top)
      congr 1
      omega
    rw [← hfront, ← hsheet]
    conv_lhs => rw [hback]
    exact hcell _ (by omega) (by omega)

/-- An empty line with the cursor on the screen. -/
theorem inputShown_start (hshows : LinesShow k.kbd lines)
    (hempty : lines k.terms.currentTerminal = .empty) (hreturns : NoReturns k.kbd)
    (hcursor : OnScreen k.video.cursor) :
    InputShown k.video.shown.window.cells k.video.shown.window.pos 0 k lines := by
  have hplace : 0 ≤ 80 * k.video.shown.y + k.video.shown.x :=
    Video.place_nonneg (w := k.video.shown) hcursor
  have hpos := Video.window_pos hplace
  have hx : k.video.shown.x < 80 := hcursor.x_lt
  have hy : 0 ≤ k.video.shown.y := hcursor.y_nonneg
  have hy' : k.video.shown.y < 25 := hcursor.y_lt
  refine ⟨hshows, ?_, hreturns, 0, k.video.shown.unbounded, ?_⟩
  · rw [hempty]
    exact List.not_mem_nil
  · rw [hempty]
    refine ⟨⟨.start 80 25 blankCell _, ?_, hy, hy', hx⟩, rfl, ⟨fun i hi => ?_, nofun, nofun⟩,
      ?_, by omega, by omega⟩
    · show (k.video.shown.window.pos : Int) = _
      omega
    · exact if_pos (by omega)
    · show k.video.shown.x + (0 : Nat) - (0 : Nat) ≤ 79
      omega

/-- The invariant of the runs. -/
def Keeps (front : Nat → Cell) (first : Nat) (s : Editing) : Prop :=
  s.outOfRow = false ∧ ∃ lines, InputShown front first s.longest s.kernel lines

/-- The step lemma. -/
theorem Keeps.step (h : s.Keeps front first) (hstep : step s code = some s')
    (hwithin : Within s code s') : s'.Keeps front first := by
  obtain ⟨hrow, lines, hshown⟩ := h
  simp only [Editing.step] at hstep
  split at hstep
  next hedits =>
    obtain ⟨k', hrun, hkept⟩ := hshown.handle hedits hwithin
    rw [hrun] at hstep
    obtain rfl := Option.some.inj hstep
    exact ⟨hrow, hkept⟩
  next hother => cases hstep

end Runs

/-- What is shown is what is edited, in every run of keys that write from columns that are not
below -80, wherever the cursor was on the screen at the start. -/
theorem shown_of_within {k : Kernel} {lines : Terminal → Line} (hshows : LinesShow k.kbd lines)
    (hempty : lines k.terms.currentTerminal = .empty) (hreturns : NoReturns k.kbd)
    (hcursor : OnScreen k.video.cursor) {keys : List UInt8} {s : Editing}
    (hrun : runFrom step (start k) keys = some s)
    (hwithin : AllSteps step Within (start k) keys) : s.Shown k := by
  have hkeeps : s.Keeps k.video.shown.window.cells k.video.shown.window.pos :=
    invariant_of_allSteps (fun _ _ _ h hstep hkey => h.step hstep hkey)
      ⟨rfl, lines, inputShown_start hshows hempty hreturns hcursor⟩ hwithin hrun
  obtain ⟨hrow, lines', hshown⟩ := hkeeps
  exact ⟨hrow, showsInput hshown (Video.place_nonneg (w := k.video.shown) hcursor)⟩

/-! ## A prompt in the last column -/

/-- The cursor is in the last column of the first row. -/
def promptKernel : Kernel :=
  { bootKernel 0 with video := { (bootKernel 0).video with screenX := 79 } }

/-- A line of 81 characters ends in column 0. The cursor goes `n` characters to the left, and a
character is typed there. -/
def leftKeys (n : Nat) : List UInt8 :=
  List.replicate 81 0x1E ++ List.replicate n 0x4B ++ [0x1F]

def nearLeft : Editing := (runFrom step (start promptKernel) (leftKeys 80)).get (by decide +kernel)

def farLeft : Editing := (runFrom step (start promptKernel) (leftKeys 81)).get (by decide +kernel)

/-- From column -80 the character is still written to its place. -/
theorem shown_of_within_nearLeft : nearLeft.Shown promptKernel :=
  shown_of_within (k := promptKernel) (Session.linesShow_bootKernel 0) rfl
    (fun _ _ _ => (by decide : (0 : UInt8) ≠ 13)) (by decide) (Option.some_get _).symm
    (by decide +kernel)

/-- From column -81 the rest of the line is written two rows below, and the cursor stays there. -/
theorem not_shown_farLeft :
    LinesShow promptKernel.kbd (fun _ => .empty) ∧ NoReturns promptKernel.kbd ∧
      OnScreen promptKernel.video.cursor ∧
      runFrom step (start promptKernel) (leftKeys 81) = some farLeft ∧
      ¬ farLeft.Shown promptKernel := by
  refine ⟨Session.linesShow_bootKernel 0, fun _ _ _ => (by decide : (0 : UInt8) ≠ 13), by decide,
    (Option.some_get _).symm, ?_⟩
  rintro ⟨-, scrolled, hshows⟩
  have hcursor := hshows.cursor
  have hx : farLeft.kernel.video.screenX = -80 := by decide +kernel
  have hy : farLeft.kernel.video.screenY = 3 := by decide +kernel
  have hindex : farLeft.kernel.kbd.bufferIDX farLeft.kernel.terms.currentTerminal = 1 := by
    decide +kernel
  have horigin : origin promptKernel.video.shown scrolled = 79 - 80 * scrolled := rfl
  have hcols : numCols = 80 := rfl
  rw [hx, hy, hindex, horigin, hcols] at hcursor
  omega

end Editing

end Ece391Os
