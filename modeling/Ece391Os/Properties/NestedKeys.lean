import Ece391Os.Model.NestedKeyboard
import Ece391Os.Properties.KeyCases
import Ece391Os.Properties.Executables
import Ece391Os.Properties.LineBuffers

/-!
# Nested keys

When a key interrupts the handler of another key, it finds the row already shifted and the
counters not yet updated. As long as no key arrives in that window, the handlers behave as if
they ran one after another, and the line stays within its 127 characters.
-/

set_option autoImplicit false

namespace Ece391Os

open EventRun

/-! ## Handlers that are not interrupted -/

/-- The statements of a list, one after another. -/
def finish (k : Kernel) (pending : List KeyStatement) : Kernel :=
  pending.foldl KeyStatement.exec k

@[simp] theorem finish_nil (k : Kernel) : finish k [] = k := rfl

@[simp] theorem finish_cons (k : Kernel) (st : KeyStatement) (rest : List KeyStatement) :
    finish k (st :: rest) = finish (st.exec k) rest := rfl

theorem finish_append (k : Kernel) (front back : List KeyStatement) :
    finish k (front ++ back) = finish (finish k front) back :=
  List.foldl_append

/-- The counters of a line are in range. -/
structure CountersFit (kbd : Keyboard) (t : Terminal) : Prop where
  index_le : kbd.bufferIDX t ≤ kbd.bufferSIZE t
  size_le : kbd.bufferSIZE t ≤ 127

section Starts

variable {k : Kernel}

/-- `keyboard_insert` is its first half and the statements behind it. -/
theorem startInsert_finish (c : UInt8) (hfit : CountersFit k.kbd k.terms.currentTerminal)
    (hroom : k.kbd.bufferSIZE k.terms.currentTerminal ≠ maxCharacters) :
    ∃ r, startInsert k c = some r ∧ keyboardInsert k c = some (finish r.1 r.2) := by
  obtain ⟨hindex, hsize⟩ := hfit
  have hbound : maxBufferSize = 128 := rfl
  have hlimit : maxCharacters = 127 := rfl
  generalize hidx : k.kbd.bufferIDX k.terms.currentTerminal = idx at *
  generalize hsz : k.kbd.bufferSIZE k.terms.currentTerminal = size at *
  have hshift := insertLoop_eq idx (by omega : size + 1 < maxBufferSize)
    (k.kbd.buffer k.terms.currentTerminal)
  have hset : idx < maxBufferSize := by omega
  have hchars : ((size : Int) - idx + 1).toNat = size + 1 - idx := by omega
  have hslice : idx + (size + 1 - idx) ≤ maxBufferSize := by omega
  simp only [startInsert, keyboardInsert, hidx, hsz, hshift, rowSet, rowSlice, if_pos hset, hchars,
    if_pos hslice, Option.bind_eq_bind, Option.bind_some, Option.pure_def]
  refine ⟨_, rfl, ?_⟩
  -- there is a character to write, so `terminal_write` does not reject the call
  have hwrite : ∀ row : Row,
      ¬ ((List.range (size + 1 - idx)).map fun j => row (idx + j)).length < 1 := by
    intro row
    rw [List.length_map, List.length_range]
    omega
  have hmoves : ((size + 1 - idx : Nat) : Int) - 1 = size - idx + 1 - 1 := by omega
  simp only [terminalWrite, if_neg (hwrite _), finish, List.foldl, KeyStatement.exec, Kernel.setIDX,
    Kernel.setSIZE, Kernel.setRow, Kernel.setLine, hidx, hsz, hmoves]

/-- `keyboard_backspace` is its first half and the statements behind it. -/
theorem startBackspace_finish (hfit : CountersFit k.kbd k.terms.currentTerminal)
    (hcursor : k.kbd.bufferIDX k.terms.currentTerminal ≠ 0) :
    ∃ r, startBackspace k = some r ∧ keyboardBackspace k = some (finish r.1 r.2) := by
  obtain ⟨hindex, hsize⟩ := hfit
  have hbound : maxBufferSize = 128 := rfl
  generalize hidx : k.kbd.bufferIDX k.terms.currentTerminal = idx at *
  generalize hsz : k.kbd.bufferSIZE k.terms.currentTerminal = size at *
  have hshift := backspaceLoop_eq (i := idx - 1) (n := size - (idx - 1)) (by omega)
    (k.kbd.buffer k.terms.currentTerminal)
  have hset : size < maxBufferSize := by omega
  have hchars : ((size : Int) - idx + 1).toNat = size + 1 - idx := by omega
  have hslice : idx - 1 + (size + 1 - idx) ≤ maxBufferSize := by omega
  simp only [startBackspace, keyboardBackspace, hidx, hsz, hshift, rowSet, rowSlice, if_pos hset,
    hchars, if_pos hslice, Option.bind_eq_bind, Option.bind_some, Option.pure_def]
  refine ⟨_, rfl, ?_⟩
  have hwrite : ∀ row : Row,
      ¬ ((List.range (size + 1 - idx)).map fun j => row (idx - 1 + j)).length < 1 := by
    intro row
    rw [List.length_map, List.length_range]
    omega
  have hmoves : ((size + 1 - idx : Nat) : Int) = size - idx + 1 := by omega
  have hindex' : (idx + 255) % 256 = idx - 1 := by omega
  have hsize' : (size + 255) % 256 = size - 1 := by omega
  simp only [terminalWrite, if_neg (hwrite _), finish, List.foldl, KeyStatement.exec, Kernel.setIDX,
    Kernel.setSIZE, Kernel.setRow, Kernel.setLine, hidx, hsz, hmoves, hindex', hsize']

/-- The row and `terminal_write` leave the counters alone, in either first half. -/
theorem startInsert_frame {c : UInt8} {r : Kernel × List KeyStatement}
    (h : startInsert k c = some r) :
    r.1.terms = k.terms ∧ r.1.kbd.bufferIDX = k.kbd.bufferIDX ∧
      r.1.kbd.bufferSIZE = k.kbd.bufferSIZE ∧
      ∃ n, r.2 = [.clearFlag, .cursorLeft n, .incrementIDX, .incrementSIZE] := by
  obtain ⟨row, text, moves, rfl⟩ := startInsert_eq_some h
  simp only [terminalWrite]
  split <;> exact ⟨rfl, rfl, rfl, _, rfl⟩

theorem startBackspace_frame {r : Kernel × List KeyStatement} (h : startBackspace k = some r) :
    r.1.terms = k.terms ∧ r.1.kbd.bufferIDX = k.kbd.bufferIDX ∧
      r.1.kbd.bufferSIZE = k.kbd.bufferSIZE ∧
      ∃ n, r.2 = [.cursorLeft n, .decrementIDX, .decrementSIZE] := by
  obtain ⟨row, text, moves, rfl⟩ := startBackspace_eq_some h
  simp only [terminalWrite]
  split <;> exact ⟨rfl, rfl, rfl, _, rfl⟩

end Starts

/-! ## Typed keys -/

section Typed

variable {k : Kernel} {key : Nat}

/-- What `handle_keyboard_input` does with a backspace key. -/
theorem handleKeyboardInput_backspace (k : Kernel) :
    handleKeyboardInput k backspaceKey =
      if k.kbd.bufferIDX k.terms.currentTerminal = 0 then some (.done k)
      else (keyboardBackspace k).map .done := rfl

/-- What it does with a key that is translated to a character. -/
theorem handleKeyboardInput_char (hpressed : key &&& releaseBit = 0) (hkey : key ∉ commandKeys)
    (hback : key ≠ backspaceKey) (hctrl : k.kbd.ctrlDown = false)
    (hchar : translate k.kbd key ∉ [0, altF1, altF2, altF3]) :
    handleKeyboardInput k key =
      if k.kbd.bufferSIZE k.terms.currentTerminal = maxCharacters then some (.done k)
      else (keyboardInsert k (translate k.kbd key)).map .done := by
  simp only [commandKeys, List.mem_cons, List.not_mem_nil, or_false, not_or] at hkey hchar
  obtain ⟨hcaps, hctrlPress, halt, hlshift, hrshift, hup, hdown, hleft, hright, henter⟩ := hkey
  obtain ⟨hzero, hf1, hf2, hf3⟩ := hchar
  -- a release is none of the keys whose code has the release bit
  have hrelease : ∀ code, code &&& releaseBit ≠ 0 → key ≠ code := by
    rintro code hcode rfl
    exact hcode hpressed
  have hshift : ¬ (key = lshiftPress ∨ key = rshiftPress ∨ key = lshiftRelease ∨
      key = rshiftRelease) := by
    rintro (h | h | h | h)
    · exact hlshift h
    · exact hrshift h
    · exact hrelease lshiftRelease (by decide) h
    · exact hrelease rshiftRelease (by decide) h
  simp only [handleKeyboardInput]
  rw [if_neg hcaps, if_neg hctrlPress, if_neg (hrelease ctrlRelease (by decide)), if_neg halt,
    if_neg (hrelease altRelease (by decide)), if_neg hshift, if_neg (fun hand => hup hand.2),
    if_neg (fun hand => hdown hand.2), if_neg (fun hand => hleft hand.2),
    if_neg (fun hand => hright hand.2), if_neg (fun hand => hback hand.2),
    if_neg (fun hand => henter hand.2), if_pos ⟨hpressed, hctrl⟩, typeKey]
  split
  · rfl
  · simp only [if_neg hzero, if_neg hf1, if_neg hf2, if_neg hf3]

/-- The statement restores what `handle_keyboard` had saved. -/
def KeyStatement.isLeave : KeyStatement → Bool
  | .leave _ _ => true
  | _ => false

/-- The statement assigns to `bufferSIZE`. -/
def KeyStatement.movesSIZE : KeyStatement → Bool
  | .incrementSIZE => true
  | .decrementSIZE => true
  | _ => false

/-- Behind an assignment to `bufferSIZE` the handlers have only to leave. -/
def Orderly : List KeyStatement → Prop
  | [] => True
  | st :: rest => (st.movesSIZE = true → ∀ st' ∈ rest, st'.isLeave = true) ∧ Orderly rest

theorem orderly_of_leaves {pending : List KeyStatement}
    (h : ∀ st ∈ pending, st.isLeave = true) : Orderly pending := by
  induction pending with
  | nil => trivial
  | cons st rest ih =>
      have hrest : ∀ st' ∈ rest, st'.isLeave = true :=
        fun st' hmem => h st' (List.mem_cons_of_mem _ hmem)
      exact ⟨fun _ => hrest, ih hrest⟩

/-- A handler that is left after others is one more statement that restores. -/
theorem leaves_cons {pending : List KeyStatement} (h : ∀ st ∈ pending, st.isLeave = true)
    (past : VideoPtr) (flag : Bool) :
    ∀ st ∈ (.leave past flag :: pending : List KeyStatement), st.isLeave = true := by
  intro st hst
  rcases List.mem_cons.mp hst with rfl | hmem
  · rfl
  · exact h st hmem

/-- What a keyboard interrupt with a typed key begins, from counters in range: the row is shifted,
the counters are not, and the statements that are left complete the handler. -/
structure Begins (k : Kernel) (key : Nat) (r : Kernel × List KeyStatement) : Prop where
  completes : handleKeyboard k key = some (finish r.1 r.2)
  terms : r.1.terms = k.terms
  size : r.1.kbd.bufferSIZE = k.kbd.bufferSIZE
  fits : CountersFit (finish r.1 r.2).kbd k.terms.currentTerminal
  orderly : ∀ pending : List KeyStatement, (∀ st ∈ pending, st.isLeave = true) →
    Orderly (r.2 ++ pending)

/-- An ignored key. -/
theorem begins_ignored (hfit : CountersFit k.kbd k.terms.currentTerminal)
    (hrun : handleKeyboardInput (Machine.keyboardKernel k) key =
      some (.done (Machine.keyboardKernel k))) :
    Begins k key (Machine.keyboardKernel k, [.leave k.video.videoMem k.interrupts]) where
  completes := by
    rw [handleKeyboard, hrun]
    rfl
  terms := rfl
  size := rfl
  fits := ⟨hfit.index_le, hfit.size_le⟩
  orderly := fun pending hpending => ⟨nofun, orderly_of_leaves hpending⟩

/-- A character. -/
theorem begins_insert (hfit : CountersFit k.kbd k.terms.currentTerminal)
    (hroom : k.kbd.bufferSIZE k.terms.currentTerminal ≠ maxCharacters)
    (hrun : handleKeyboardInput (Machine.keyboardKernel k) key =
      (keyboardInsert (Machine.keyboardKernel k) (translate k.kbd key)).map .done) :
    ∃ r, startInsert (Machine.keyboardKernel k) (translate k.kbd key) = some r ∧
      Begins k key (r.1, r.2 ++ [.leave k.video.videoMem k.interrupts]) := by
  obtain ⟨⟨k₁, statements⟩, hstart, hinsert⟩ :=
    startInsert_finish (k := Machine.keyboardKernel k) (translate k.kbd key) hfit hroom
  obtain ⟨hterms, hidx, hsize, n, hstatements⟩ := startInsert_frame hstart
  dsimp only at hterms hidx hsize hstatements hinsert
  subst hstatements
  have hlimit : maxCharacters = 127 := rfl
  have hidx' : k₁.kbd.bufferIDX = k.kbd.bufferIDX := hidx
  have hsize' : k₁.kbd.bufferSIZE = k.kbd.bufferSIZE := hsize
  have hcurrent : k₁.terms.currentTerminal = k.terms.currentTerminal :=
    congrArg Terminals.currentTerminal hterms
  obtain ⟨hle, hbound⟩ := hfit
  -- only the row and the text memory have changed, so the counters still fit after both increments
  refine ⟨_, hstart, ?_, hterms, hsize, ⟨?_, ?_⟩, ?_⟩
  · rw [handleKeyboard, hrun, hinsert]
    rfl
  · simp [KeyStatement.exec, Kernel.setIDX, Kernel.setSIZE, hidx', hsize', hcurrent]
    omega
  · simp [KeyStatement.exec, Kernel.setIDX, Kernel.setSIZE, hidx', hsize', hcurrent]
    omega
  · intro pending hpending
    have hleave := leaves_cons hpending k.video.videoMem k.interrupts
    exact ⟨nofun, nofun, nofun, fun _ => hleave, orderly_of_leaves hleave⟩

/-- A backspace behind the first column. -/
theorem begins_backspace (hfit : CountersFit k.kbd k.terms.currentTerminal)
    (hcursor : k.kbd.bufferIDX k.terms.currentTerminal ≠ 0) :
    ∃ r, startBackspace (Machine.keyboardKernel k) = some r ∧
      Begins k backspaceKey (r.1, r.2 ++ [.leave k.video.videoMem k.interrupts]) := by
  obtain ⟨⟨k₁, statements⟩, hstart, hback⟩ :=
    startBackspace_finish (k := Machine.keyboardKernel k) hfit hcursor
  obtain ⟨hterms, hidx, hsize, n, hstatements⟩ := startBackspace_frame hstart
  dsimp only at hterms hidx hsize hstatements hback
  subst hstatements
  have hidx' : k₁.kbd.bufferIDX = k.kbd.bufferIDX := hidx
  have hsize' : k₁.kbd.bufferSIZE = k.kbd.bufferSIZE := hsize
  have hcurrent : k₁.terms.currentTerminal = k.terms.currentTerminal :=
    congrArg Terminals.currentTerminal hterms
  obtain ⟨hle, hbound⟩ := hfit
  -- the same with both decrements, which the guard on the cursor allows
  refine ⟨_, hstart, ?_, hterms, hsize, ⟨?_, ?_⟩, ?_⟩
  · have hrun : handleKeyboardInput (Machine.keyboardKernel k) backspaceKey =
        (keyboardBackspace (Machine.keyboardKernel k)).map .done :=
      (handleKeyboardInput_backspace _).trans (if_neg hcursor)
    rw [handleKeyboard, hrun, hback]
    rfl
  · simp [KeyStatement.exec, Kernel.setIDX, Kernel.setSIZE, hidx', hsize', hcurrent]
    omega
  · simp [KeyStatement.exec, Kernel.setIDX, Kernel.setSIZE, hidx', hsize', hcurrent]
    omega
  · intro pending hpending
    have hleave := leaves_cons hpending k.video.videoMem k.interrupts
    exact ⟨nofun, nofun, fun _ => hleave, orderly_of_leaves hleave⟩

/-- Every typed key, from counters in range. -/
theorem takeKey_begins (hfit : CountersFit k.kbd k.terms.currentTerminal)
    (htyped : TypedKey k.kbd key) : ∃ r, takeKey k key = some r ∧ Begins k key r := by
  simp only [takeKey, beginKey]
  by_cases hback : key = backspaceKey
  · subst hback
    rw [if_pos rfl]
    -- backspace is ignored at the left end
    by_cases hcursor : k.kbd.bufferIDX k.terms.currentTerminal = 0
    · have hstart : (Machine.keyboardKernel k).kbd.bufferIDX
          (Machine.keyboardKernel k).terms.currentTerminal = 0 := hcursor
      have hrun := (handleKeyboardInput_backspace (Machine.keyboardKernel k)).trans (if_pos hcursor)
      rw [if_pos hstart]
      exact ⟨_, rfl, begins_ignored hfit hrun⟩
    · have hstart : ¬ (Machine.keyboardKernel k).kbd.bufferIDX
          (Machine.keyboardKernel k).terms.currentTerminal = 0 := hcursor
      obtain ⟨r, hbegin, hbegins⟩ := begins_backspace hfit hcursor
      rw [if_neg hstart, hbegin]
      exact ⟨_, rfl, hbegins⟩
  · obtain ⟨hpressed, hkey, hctrl, hchar⟩ := htyped.resolve_left hback
    have hrun := handleKeyboardInput_char (k := Machine.keyboardKernel k) hpressed hkey hback
      hctrl hchar
    rw [if_neg hback]
    -- a character is ignored in a full line
    by_cases hfull : k.kbd.bufferSIZE k.terms.currentTerminal = maxCharacters
    · have hlimit : (Machine.keyboardKernel k).kbd.bufferSIZE
          (Machine.keyboardKernel k).terms.currentTerminal = maxCharacters := hfull
      rw [if_pos hlimit]
      exact ⟨_, rfl, begins_ignored hfit (hrun.trans (if_pos hfull))⟩
    · have hlimit : ¬ (Machine.keyboardKernel k).kbd.bufferSIZE
          (Machine.keyboardKernel k).terms.currentTerminal = maxCharacters := hfull
      obtain ⟨r, hbegin, hbegins⟩ := begins_insert hfit hfull (hrun.trans (if_neg hfull))
      have hbegin' : startInsert (Machine.keyboardKernel k)
          (translate (Machine.keyboardKernel k).kbd key) = some r := hbegin
      rw [if_neg hlimit, hbegin']
      exact ⟨_, rfl, hbegins⟩

end Typed

/-! ## Handlers that have only to leave -/

section Leaving

variable {k : Kernel} {pending : List KeyStatement}

/-- Leaving touches `video_mem` and the interrupt flag. -/
theorem finish_leaves (hpending : ∀ st ∈ pending, st.isLeave = true) :
    finish k pending = KeyStatement.exec k
      (.leave (finish k pending).video.videoMem (finish k pending).interrupts) := by
  induction pending generalizing k with
  | nil => rfl
  | cons st rest ih =>
      cases st with
      | leave past flag =>
          have hrest := ih (k := KeyStatement.exec k (.leave past flag))
            (fun st' hmem => hpending st' (List.mem_cons_of_mem _ hmem))
          rw [finish_cons, hrest]
          rfl
      | _ => cases hpending _ List.mem_cons_self

/-- A handler that interrupts them ends as they would have ended. -/
theorem finish_after (hpending : ∀ st ∈ pending, st.isLeave = true) (k' : Kernel) :
    finish (KeyStatement.exec k' (.leave k.video.videoMem k.interrupts)) pending =
      KeyStatement.exec k'
        (.leave (finish k pending).video.videoMem (finish k pending).interrupts) := by
  induction pending generalizing k with
  | nil => rfl
  | cons st rest ih =>
      cases st with
      | leave past flag =>
          exact ih (k := KeyStatement.exec k (.leave past flag))
            (fun st' hmem => hpending st' (List.mem_cons_of_mem _ hmem))
      | _ => cases hpending _ List.mem_cons_self

/-- A key that interrupts handlers which have only to leave is handled as after them. -/
theorem handleKeyboard_finish (hpending : ∀ st ∈ pending, st.isLeave = true) {key : Nat}
    {k' : Kernel} (hrun : handleKeyboard k key = some k') :
    handleKeyboard (finish k pending) key = some (finish k' pending) := by
  have hkernel : Machine.keyboardKernel (finish k pending) = Machine.keyboardKernel k := by
    rw [finish_leaves hpending]
    rfl
  simp only [handleKeyboard, hkernel] at hrun ⊢
  split at hrun
  next k₁ hinput =>
    obtain rfl := Option.some.inj hrun
    rw [finish_after hpending]
  next hother => cases hrun

end Leaving

/-! ## Runs -/

namespace Typing

/-- The step is not a key that arrives in the window: each handler that it interrupts has updated
both counters and has only to leave. -/
def Settled (s : Typing) (e : TypingEvent) (_ : Typing) : Prop :=
  ∀ code, e = .key code → ∀ st ∈ s.pending, st.isLeave = true

/-- What a state owes the keys taken so far: no access has left its row, the line has at most 127
characters, and once all handlers have returned it is the line that the keys give one after
another. -/
structure Serial (k₀ : Kernel) (s : Typing) : Prop where
  inRow : s.outOfRow = false
  size : s.kernel.kbd.bufferSIZE k₀.terms.currentTerminal ≤ 127
  line : s.pending = [] → ∃ k, sequential k₀ s.keys = some k ∧
    s.kernel.kbd.buffer k₀.terms.currentTerminal = k.kbd.buffer k₀.terms.currentTerminal ∧
    s.kernel.kbd.bufferIDX k₀.terms.currentTerminal = k.kbd.bufferIDX k₀.terms.currentTerminal ∧
    s.kernel.kbd.bufferSIZE k₀.terms.currentTerminal = k.kbd.bufferSIZE k₀.terms.currentTerminal

/-- What settled steps keep: the statements that are left lead to the state in which the keys have
been handled one after another. -/
structure Consistent (k₀ : Kernel) (s : Typing) : Prop where
  inRow : s.outOfRow = false
  terminal : s.kernel.terms.currentTerminal = k₀.terms.currentTerminal
  leads : sequential k₀ s.keys = some (finish s.kernel s.pending)
  fits : CountersFit (finish s.kernel s.pending).kbd k₀.terms.currentTerminal
  size : s.kernel.kbd.bufferSIZE k₀.terms.currentTerminal ≤ 127
  orderly : Orderly s.pending

section Steps

variable {k₀ : Kernel} {s s' : Typing} {e : TypingEvent}

theorem Consistent.serial (h : Consistent k₀ s) : Serial k₀ s where
  inRow := h.inRow
  size := h.size
  line := by
    intro hnone
    have hleads := h.leads
    rw [hnone] at hleads
    exact ⟨s.kernel, hleads, rfl, rfl, rfl⟩

theorem consistent_start (hfit : CountersFit k₀.kbd k₀.terms.currentTerminal) :
    Consistent k₀ (start k₀) :=
  ⟨rfl, rfl, rfl, hfit, hfit.size_le, trivial⟩

/-- No statement changes the displayed terminal. -/
theorem terms_exec (k : Kernel) (st : KeyStatement) : (st.exec k).terms = k.terms := by
  cases st <;> rfl

/-- Only two statements change the length of the line. -/
theorem size_exec (k : Kernel) {st : KeyStatement} (hst : st.movesSIZE = false) :
    (st.exec k).kbd.bufferSIZE = k.kbd.bufferSIZE := by
  cases st with
  | incrementSIZE => cases hst
  | decrementSIZE => cases hst
  | _ => rfl

/-- One more key. -/
theorem sequential_concat {keys : List Nat} {k k' : Kernel} {key : Nat}
    (hkeys : sequential k₀ keys = some k) (hkey : handleKeyboard k key = some k') :
    sequential k₀ (keys ++ [key]) = some k' := by
  rw [sequential, List.foldlM_append]
  rw [sequential] at hkeys
  rw [hkeys]
  exact (bind_pure _).trans hkey

/-- A settled step. -/
theorem Consistent.keep (h : Consistent k₀ s) (hstep : step s e = some s')
    (hsettled : Settled s e s') : Consistent k₀ s' := by
  obtain ⟨hinRow, hterminal, hleads, hfits, hsize, horderly⟩ := h
  cases e with
  | key code =>
      have hleave := hsettled code rfl
      simp only [step] at hstep
      split at hstep
      next hready =>
        -- the handlers below have only to leave, so the counters are those of the line
        have hfit : CountersFit s.kernel.kbd s.kernel.terms.currentTerminal := by
          rw [finish_leaves hleave] at hfits
          rw [hterminal]
          exact hfits
        obtain ⟨r, htake, hbegins⟩ := takeKey_begins hfit hready.2
        rw [htake] at hstep
        obtain rfl := Option.some.inj hstep
        refine ⟨hinRow, ?_, ?_, ?_, ?_, hbegins.orderly s.pending hleave⟩
        · exact (congrArg Terminals.currentTerminal hbegins.terms).trans hterminal
        · have hfinish := handleKeyboard_finish hleave hbegins.completes
          rw [← finish_append] at hfinish
          exact sequential_concat hleads hfinish
        · have hkept := hbegins.fits
          rw [hterminal] at hkept
          dsimp only
          rw [finish_append, finish_leaves hleave]
          exact hkept
        · change r.1.kbd.bufferSIZE k₀.terms.currentTerminal ≤ 127
          rw [hbegins.size]
          exact hsize
      next hnot => cases hstep
  | advance =>
      simp only [step] at hstep
      split at hstep
      next hnone => cases hstep
      next st rest hpending =>
        obtain rfl := Option.some.inj hstep
        rw [hpending] at hleads hfits horderly
        refine ⟨hinRow, ?_, hleads, hfits, ?_, horderly.2⟩
        · rw [terms_exec]
          exact hterminal
        · cases hmoves : st.movesSIZE with
          | false =>
              rw [size_exec s.kernel hmoves]
              exact hsize
          | true =>
              -- behind it the handlers have only to leave, so this is the final length
              have hfinal := hfits.size_le
              rw [finish_cons, finish_leaves (horderly.1 hmoves)] at hfinal
              exact hfinal

end Steps

/-- As long as no key arrives between the end of `terminal_write` and the update of the counters,
the keys have the same effect as one after another, however they interrupt each other. -/
theorem serial_of_settled {k₀ : Kernel} (hfit : CountersFit k₀.kbd k₀.terms.currentTerminal)
    {es : List TypingEvent} (hsettled : AllSteps step Settled (start k₀) es) :
    AllSteps step (fun _ _ s' => Serial k₀ s') (start k₀) es := by
  apply allSteps_of_invariant (Q := Settled) _ (consistent_start hfit)
    hsettled
  intro s e s' h hstep hQ
  have h' := h.keep hstep hQ
  exact ⟨h', h'.serial⟩

/-! ## The first shell -/

/-- The first shell waits for a line, with interrupts enabled. -/
def waitingShell : Kernel := firstShell.sti

/-- A key that interrupts handlers which have only to leave, and then statements. -/
theorem allSteps_settled {s : Typing} (hleave : s.pending.all KeyStatement.isLeave = true)
    (code : UInt8) (n : Nat) :
    AllSteps step Settled s (.key code :: List.replicate n .advance) := by
  have hadvance : ∀ (n : Nat) (t : Typing),
      AllSteps step Settled t (List.replicate n .advance) := by
    intro n
    induction n with
    | zero => exact fun _ => trivial
    | succ n ih => exact fun t t' _ => ⟨nofun, ih t'⟩
  exact fun s' _ => ⟨fun _ _ st hst => List.all_eq_true.mp hleave st hst, hadvance n s'⟩

/-- `b` interrupts the handler of `a` when that has only to leave. -/
theorem serial_settledKeys :
    AllSteps step (fun _ _ s' => Serial waitingShell s') (start waitingShell)
      ((.key 0x1E :: List.replicate 4 .advance) ++ (.key 0x30 :: List.replicate 6 .advance)) := by
  apply serial_of_settled ⟨by decide, by decide⟩
  apply allSteps_append (allSteps_settled rfl 0x1E 4)
  intro t hrun
  apply allSteps_settled
  have hleave : (runFrom step (start waitingShell) (.key 0x1E :: List.replicate 4 .advance)).map
      (fun t => t.pending.all KeyStatement.isLeave) = some true := by decide
  rw [hrun] at hleave
  exact Option.some.inj hleave

/-- `b` interrupts the handler of `a` in front of its first statement behind `terminal_write`. -/
def nestedKeys : List TypingEvent :=
  [.key 0x1E, .key 0x30] ++ List.replicate 10 .advance

/-- The line then reads `ba`. -/
theorem not_serial_nestedKeys :
    ¬ AllSteps step (fun _ _ s' => Serial waitingShell s') (start waitingShell) nestedKeys := by
  intro h
  have hfinal : (runFrom step (start waitingShell) nestedKeys).map (fun s =>
      (s.pending, s.keys, s.kernel.kbd.buffer 0 0, s.kernel.kbd.buffer 0 1)) =
        some ([], [0x1E, 0x30], 98, 97) := by decide
  obtain ⟨s, hrun, hs⟩ := Option.map_eq_some_iff.mp hfinal
  obtain ⟨hpending, hkeys, hfirst, -⟩ : s.pending = [] ∧ s.keys = [0x1E, 0x30] ∧
      s.kernel.kbd.buffer 0 0 = 98 ∧ s.kernel.kbd.buffer 0 1 = 97 := by simpa using hs
  have hstart : CountersFit waitingShell.kbd waitingShell.terms.currentTerminal :=
    ⟨by decide, by decide⟩
  have hserial : Serial waitingShell s :=
    invariant_of_allSteps (I := Serial waitingShell) (fun _ _ _ _ _ hkeep => hkeep)
      (consistent_start hstart).serial h hrun
  obtain ⟨k, hk, hbuffer, -⟩ := hserial.line hpending
  have hsequential : (sequential waitingShell [0x1E, 0x30]).map (fun k => k.kbd.buffer 0 0) =
      some 97 := by decide
  rw [hkeys] at hk
  rw [hk, Option.map_some, Option.some.injEq] at hsequential
  have hsame : s.kernel.kbd.buffer 0 0 = k.kbd.buffer 0 0 := congrFun hbuffer 0
  rw [hfirst, hsequential] at hsame
  exact absurd hsame (by decide)

end Typing

end Ece391Os
