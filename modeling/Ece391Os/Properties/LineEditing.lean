import Ece391Os.Library.EventRun
import Ece391Os.Properties.Executables
import Ece391Os.Properties.LineBuffers
import Ece391Os.Properties.Tasks
import Mathlib.Data.List.Basic

/-!
# Line editing

The keyboard against a reference editor. `editOf` says which edit of the line a scan code
stands for; a `Session` handles scan codes one after another with `handle_keyboard_input` and
makes the same edits in the reference editor. The two agree as long as no key puts a newline in
the line: the second half of each scan code table is also reached without shift, and its Enter
entry belongs to the key `0x76` there.
-/

set_option autoImplicit false

namespace Ece391Os

open EventRun

/-! ## What a key means -/

/-- The edit of a translated character. -/
def typedEdit (c : UInt8) : Edit UInt8 :=
  if c = 0 ∨ c = altF1 ∨ c = altF2 ∨ c = altF3 then .keep else .insert c

/-- The edit that a scan code stands for. -/
def editOf (k : Kernel) (key : Nat) : Edit UInt8 :=
  if releaseBit ≤ key then .keep
  else if key = capslock ∨ key = ctrlPress ∨ key = altPress ∨ key = lshiftPress ∨
      key = rshiftPress then .keep
  else if key = upArrow then (olderLine k).elim .keep .replace
  else if key = downArrow then (newerLine k).elim .keep .replace
  else if key = leftArrow then .left
  else if key = rightArrow then .right
  else if key = backspaceKey then .backspace
  else if key = enterKey then .clear
  else if k.kbd.ctrlDown = false then typedEdit (translate k.kbd key)
  else if key = lKey then .clear
  else .keep

/-- The key is looked up in the first half of a table: the second half takes shift without alt, or
alt alone. -/
def Keyboard.Unshifted (kbd : Keyboard) : Prop :=
  (kbd.shiftDown = true → kbd.altDown = true) ∧
    (kbd.altDown = true → kbd.shiftDown = true ∨ kbd.capsLock = true)

theorem getD_eq_newline_iff (table : List UInt8) (i : Nat) :
    table.getD i 0 = 10 ↔ i ∈ table.idxsOf 10 := by
  by_cases hi : i < table.length
  · rw [List.getD_eq_getElem _ _ hi, List.mem_idxsOf_iff_getElem_pos hi, beq_iff_eq]
  · rw [List.getD_eq_default _ _ (by omega)]
    refine iff_of_false (by decide) fun hmem => ?_
    have hlt := List.lt_add_of_mem_idxsOf i hmem
    omega

/-- The newlines of the tables: in the first half at the Enter key and at key `0x76`, in the second
half at the Enter key. -/
theorem newlines_of_tables : ∀ key < releaseBit,
    (scancode.getD key 0 = 10 ↔ key = enterKey ∨ key = 0x76) ∧
      (capsCode.getD key 0 = 10 ↔ key = enterKey ∨ key = 0x76) ∧
      (scancode.getD (key + shiftOffset) 0 = 10 ↔ key = enterKey) ∧
      (capsCode.getD (key + shiftOffset) 0 = 10 ↔ key = enterKey) ∧
      (altCode.getD (key + shiftOffset) 0 = 10 ↔ key = enterKey) := by
  -- one pass over each table
  have hscan : scancode.idxsOf 10 = [28, 118] := by decide
  have hcaps : capsCode.idxsOf 10 = [28, 118] := by decide
  have halt : altCode.idxsOf 10 = [28, 118] := by decide
  have henter : enterKey = 28 := rfl
  have hoffset : shiftOffset = 90 := rfl
  have hrelease : releaseBit = 128 := rfl
  intro key hkey
  simp only [getD_eq_newline_iff, hscan, hcaps, halt, List.mem_cons, List.not_mem_nil, or_false]
  omega

/-- The only key besides Enter that is translated to a newline. -/
theorem translate_eq_newline {kbd : Keyboard} {key : Nat} (hkey : key < releaseBit)
    (hne : key ≠ enterKey) : translate kbd key = 10 ↔ key = 0x76 ∧ kbd.Unshifted := by
  obtain ⟨hplain, hcaps, hshift, hshiftCaps, halt⟩ := newlines_of_tables key hkey
  simp only [hne, false_or] at hplain hcaps hshift hshiftCaps halt
  cases hs : kbd.shiftDown <;> cases hc : kbd.capsLock <;> cases ha : kbd.altDown <;>
    simp [translate, Keyboard.Unshifted, hs, hc, ha, hplain, hcaps, hshift, hshiftCaps, halt,
      -List.getD_eq_getElem?_getD]

/-- The release bit of a scan code. -/
theorem pressed_iff : ∀ key < 256, (key &&& releaseBit = 0 ↔ key < releaseBit) := by
  decide +kernel

/-- The scan code puts a newline in the line. -/
def TypesNewline (k : Kernel) (key : Nat) : Prop :=
  key = 0x76 ∧ k.kbd.ctrlDown = false ∧ k.kbd.Unshifted ∧
    k.kbd.bufferSIZE k.terms.currentTerminal ≠ maxCharacters

/-! ## One key -/

section Keys

variable {k : Kernel} {lines : Terminal → Line} {key : Nat}

/-- What the handling of a key leaves: the edited line, or a switch of terminals that has not
touched the lines. -/
def Answers (k : Kernel) (lines : Terminal → Line) (edit : Edit UInt8) : KeyOutcome → Prop
  | .done k' => LinesShow k'.kbd (Function.update lines k.terms.currentTerminal
      ((lines k.terms.currentTerminal).apply edit))
  | .switch _ k' => k' = k ∧ edit = .keep

/-- A key that leaves the lines alone. -/
theorem answers_keep {k' : Kernel} {edit : Edit UInt8} (h : LinesShow k'.kbd lines)
    (hedit : (lines k.terms.currentTerminal).apply edit = lines k.terms.currentTerminal) :
    Answers k lines edit (.done k') := by
  rw [Answers, hedit, Function.update_eq_self]
  exact h

/-- The branch that translates a key. -/
theorem typeKey_answers (h : LinesShow k.kbd lines)
    (hno : translate k.kbd key = 10 →
      k.kbd.bufferSIZE k.terms.currentTerminal = maxCharacters) :
    ∃ o, typeKey k key = some o ∧ Answers k lines (typedEdit (translate k.kbd key)) o := by
  have hsize := (h.shows k.terms.currentTerminal).size
  have hlen := (lines k.terms.currentTerminal).length_le
  simp only [typeKey, typedEdit]
  -- the guards of the routine in their order: a full line, no character, the Alt-Fn keys
  by_cases hfull : k.kbd.bufferSIZE k.terms.currentTerminal = maxCharacters
  · rw [if_pos hfull]
    refine ⟨_, rfl, answers_keep h ?_⟩
    split
    · rfl
    · exact LineEditor.insert_of_full (Nat.le_of_eq (hfull.symm.trans hsize))
  · rw [if_neg hfull]
    by_cases hzero : translate k.kbd key = 0
    · rw [if_pos hzero, if_pos (Or.inl hzero)]
      exact ⟨_, rfl, answers_keep h rfl⟩
    rw [if_neg hzero]
    by_cases h1 : translate k.kbd key = altF1
    · rw [if_pos h1, if_pos (Or.inr (Or.inl h1))]
      exact ⟨_, rfl, rfl, rfl⟩
    rw [if_neg h1]
    by_cases h2 : translate k.kbd key = altF2
    · rw [if_pos h2, if_pos (Or.inr (Or.inr (Or.inl h2)))]
      exact ⟨_, rfl, rfl, rfl⟩
    rw [if_neg h2]
    by_cases h3 : translate k.kbd key = altF3
    · rw [if_pos h3, if_pos (Or.inr (Or.inr (Or.inr h3)))]
      exact ⟨_, rfl, rfl, rfl⟩
    rw [if_neg h3, if_neg (by simp [hzero, h1, h2, h3])]
    -- what is left is a character that a line can hold
    have hlegal : Legal (translate k.kbd key) := ⟨hzero, fun hnewline => hfull (hno hnewline)⟩
    have hroom : (lines k.terms.currentTerminal).text.length < 127 := by
      rw [hsize] at hfull
      exact Nat.lt_of_le_of_ne hlen hfull
    obtain ⟨k', hinsert, hk'⟩ := keyboardInsert_shows h hlegal hroom
    rw [hinsert]
    exact ⟨_, rfl, hk'⟩

/-- A scan code that puts no newline in the line: no access leaves a row, and the displayed line
is edited as the reference editor does. -/
theorem handleKeyboardInput_answers (h : LinesShow k.kbd lines) (hkey : key < 256)
    (hno : ¬ TypesNewline k key) :
    ∃ o, handleKeyboardInput k key = some o ∧ Answers k lines (editOf k key) o := by
  have hindex := (h.shows k.terms.currentTerminal).index
  have hpressed := pressed_iff key hkey
  unfold handleKeyboardInput
  dsimp only
  -- the guards in the order of the source: modifiers change flags and keep every line
  by_cases hcaps : key = capslock
  · subst hcaps
    exact ⟨_, if_pos rfl, answers_keep (h.flags _ _ _ _ _) rfl⟩
  rw [if_neg hcaps]
  by_cases hctrl : key = ctrlPress
  · subst hctrl
    exact ⟨_, if_pos rfl, answers_keep (h.flags _ _ _ _ _) rfl⟩
  rw [if_neg hctrl]
  by_cases hctrlRelease : key = ctrlRelease
  · subst hctrlRelease
    exact ⟨_, if_pos rfl, answers_keep (h.flags _ _ _ _ _) rfl⟩
  rw [if_neg hctrlRelease]
  by_cases halt : key = altPress
  · subst halt
    exact ⟨_, if_pos rfl, answers_keep (h.flags _ _ _ _ _) rfl⟩
  rw [if_neg halt]
  by_cases haltRelease : key = altRelease
  · subst haltRelease
    exact ⟨_, if_pos rfl, answers_keep (h.flags _ _ _ _ _) rfl⟩
  rw [if_neg haltRelease]
  by_cases hshift : key = lshiftPress ∨ key = rshiftPress ∨ key = lshiftRelease ∨
      key = rshiftRelease
  · have hedit : editOf k key = .keep := by
      rcases hshift with rfl | rfl | rfl | rfl <;> rfl
    rw [if_pos hshift, hedit]
    exact ⟨_, rfl, answers_keep (h.flags _ _ _ _ _) rfl⟩
  rw [if_neg hshift]
  -- the keys that edit act on pressing only
  by_cases hup : key &&& releaseBit = 0 ∧ key = upArrow
  · rw [if_pos hup]
    obtain ⟨_, rfl⟩ := hup
    obtain ⟨k', hrun, hk'⟩ := upHistory_shows h
    rw [hrun]
    exact ⟨_, rfl, hk'⟩
  rw [if_neg hup]
  by_cases hdown : key &&& releaseBit = 0 ∧ key = downArrow
  · rw [if_pos hdown]
    obtain ⟨_, rfl⟩ := hdown
    obtain ⟨k', hrun, hk'⟩ := downHistory_shows h
    rw [hrun]
    exact ⟨_, rfl, hk'⟩
  rw [if_neg hdown]
  by_cases hleft : key &&& releaseBit = 0 ∧ key = leftArrow
  · rw [if_pos hleft]
    obtain ⟨_, rfl⟩ := hleft
    exact ⟨_, rfl, keyboardLeftArrow_shows h⟩
  rw [if_neg hleft]
  by_cases hright : key &&& releaseBit = 0 ∧ key = rightArrow
  · rw [if_pos hright]
    obtain ⟨_, rfl⟩ := hright
    exact ⟨_, rfl, keyboardRightArrow_shows h⟩
  rw [if_neg hright]
  by_cases hback : key &&& releaseBit = 0 ∧ key = backspaceKey
  · rw [if_pos hback]
    obtain ⟨_, rfl⟩ := hback
    -- at the left end the key is ignored, and so is the edit
    by_cases hstart : k.kbd.bufferIDX k.terms.currentTerminal = 0
    · rw [if_pos hstart]
      exact ⟨_, rfl, answers_keep h (LineEditor.backspace_of_start (hindex.symm.trans hstart))⟩
    · obtain ⟨k', hrun, hk'⟩ := keyboardBackspace_shows h (fun h0 => hstart (hindex.trans h0))
      rw [if_neg hstart, hrun]
      exact ⟨_, rfl, hk'⟩
  rw [if_neg hback]
  by_cases henter : key &&& releaseBit = 0 ∧ key = enterKey
  · rw [if_pos henter]
    obtain ⟨_, rfl⟩ := henter
    obtain ⟨k', hrun, hk', -⟩ := keyboardEnter_shows h
    rw [hrun]
    exact ⟨_, rfl, hk'⟩
  rw [if_neg henter]
  by_cases hrelease : releaseBit ≤ key
  · -- releases of other keys
    have hnot : ¬ key &&& releaseBit = 0 := fun h0 => Nat.not_lt.mpr hrelease (hpressed.mp h0)
    rw [if_neg (fun hand => hnot hand.1), if_neg (fun hand => hnot hand.1), editOf,
      if_pos hrelease]
    exact ⟨_, rfl, answers_keep h rfl⟩
  -- what is left is a press that types, clears the screen or does nothing
  have hlt : key < releaseBit := Nat.lt_of_not_le hrelease
  have hzero : key &&& releaseBit = 0 := hpressed.mpr hlt
  simp only [hzero, true_and] at hup hdown hleft hright hback henter ⊢
  have hmodifier : ¬ (key = capslock ∨ key = ctrlPress ∨ key = altPress ∨ key = lshiftPress ∨
      key = rshiftPress) := by
    simp only [not_or] at hshift ⊢
    exact ⟨hcaps, hctrl, halt, hshift.1, hshift.2.1⟩
  rw [editOf, if_neg hrelease, if_neg hmodifier, if_neg hup, if_neg hdown, if_neg hleft,
    if_neg hright, if_neg hback, if_neg henter]
  by_cases hdownCtrl : k.kbd.ctrlDown = false
  · rw [if_pos hdownCtrl, if_pos hdownCtrl]
    -- a typed newline with room left is what the hypothesis excludes
    apply typeKey_answers h
    intro hnewline
    by_contra hroom
    obtain ⟨hcode, hunshifted⟩ := (translate_eq_newline hlt henter).mp hnewline
    exact hno ⟨hcode, hdownCtrl, hunshifted, hroom⟩
  · rw [if_neg hdownCtrl, if_neg hdownCtrl]
    by_cases hl : key = lKey
    · rw [if_pos ⟨Bool.eq_true_of_not_eq_false hdownCtrl, hl⟩, if_pos hl]
      exact ⟨_, rfl, clearKeyboardBuffer_shows (fun u _ => h.shows u) h.history⟩
    · rw [if_neg (fun hand => hl hand.2), if_neg hl]
      exact ⟨_, rfl, answers_keep h rfl⟩

/-- Enter: the finished line goes to the reader. -/
theorem handleKeyboardInput_enter (h : LinesShow k.kbd lines) :
    ∃ k', handleKeyboardInput k enterKey = some (.done k') ∧ k'.terms =
      k.terms.deliver k.terms.currentTerminal (lines k.terms.currentTerminal).text := by
  obtain ⟨k', hrun, -, hterms⟩ := keyboardEnter_shows h
  have hbranch : handleKeyboardInput k enterKey = (keyboardEnter k).map .done := rfl
  rw [hbranch, hrun]
  exact ⟨k', rfl, hterms⟩

/-- A newline in the line: the row holds one character more than the reference editor. -/
theorem handleKeyboardInput_newline (h : LinesShow k.kbd lines) (hnew : TypesNewline k key) :
    ∃ k', handleKeyboardInput k key = some (.done k') ∧
      k'.kbd.bufferSIZE k.terms.currentTerminal =
        (lines k.terms.currentTerminal).text.length + 1 ∧
      (lines k.terms.currentTerminal).apply (editOf k key) = lines k.terms.currentTerminal := by
  obtain ⟨rfl, hctrl, hunshifted, hroom⟩ := hnew
  have hnewline : translate k.kbd 0x76 = 10 :=
    (translate_eq_newline (by decide) (by decide)).mpr ⟨rfl, hunshifted⟩
  have hlength : (lines k.terms.currentTerminal).text.length < 127 := by
    rw [(h.shows k.terms.currentTerminal).size] at hroom
    exact Nat.lt_of_le_of_ne (lines k.terms.currentTerminal).length_le hroom
  obtain ⟨row, k₁, hinsert, -, -⟩ := keyboardInsert_eq h 10 hlength
  have hbranch : handleKeyboardInput k 0x76 = typeKey k 0x76 := by
    simp only [handleKeyboardInput]
    iterate 12 rw [if_neg (by decide)]
    exact if_pos ⟨by decide, hctrl⟩
  have hedit : editOf k 0x76 = typedEdit (translate k.kbd 0x76) := by
    rw [editOf]
    iterate 8 rw [if_neg (by decide)]
    exact if_pos hctrl
  have htyped : typeKey k 0x76 = (keyboardInsert k 10).map .done := by
    simp only [typeKey, if_neg hroom, hnewline]
    rfl
  rw [hbranch, hedit, htyped, hinsert, hnewline]
  refine ⟨_, rfl, ?_, LineEditor.insert_of_illegal (fun hlegal => hlegal.2 rfl)⟩
  exact Function.update_self _ _ _

end Keys

/-! ## Execute and the lines -/

section Frames

variable {img : FsImage} {res : Residue} {frame : ExecuteFrame} {k k' : Kernel}
  {lines : Terminal → Line}

/-- What a new program does to the keyboard: its history and the displayed line are cleared. -/
theorem executeSpawn_kbd {command : CString} {buf : Nat → UInt8}
    (hspawn : executeSpawn frame k command buf = some k') :
    k'.kbd = (clearHistoryBuffer (clearKeyboardBuffer k) k'.procs.currentPid).kbd := by
  obtain ⟨q, hs⟩ := spawns_of_executeSpawn hspawn
  rw [hs.current]
  exact hs.kbd

/-- A new program starts with an empty line on the displayed terminal. -/
theorem executeSpawn_shows (h : LinesShow k.kbd lines) {command : CString} {buf : Nat → UInt8}
    (hspawn : executeSpawn frame k command buf = some k') :
    LinesShow k'.kbd (Function.update lines k.terms.currentTerminal .empty) := by
  rw [executeSpawn_kbd hspawn]
  exact clearHistoryBuffer_shows
    (clearKeyboardBuffer_shows (fun u _ => h.shows u) h.history) _

/-- `execute` that returns leaves the lines alone. -/
theorem execute_returned_shows (h : LinesShow k.kbd lines) {command : Option CString} {v : Int}
    (hexec : execute img res frame k command = .returned v k') : LinesShow k'.kbd lines := by
  rw [callFrame_kbd.executeLoad.1 v (executeLoad_of_returned hexec)]
  exact h

/-- `execute` that starts a process. -/
theorem execute_started_shows (h : LinesShow k.kbd lines) {command : Option CString}
    {entry : Word} (hexec : execute img res frame k command = .started entry k') :
    LinesShow k'.kbd (Function.update lines k.terms.currentTerminal .empty) := by
  obtain ⟨buf, k₁, hload, hspawn, -⟩ := executeSpawn_of_started hexec
  have hcurrent : k₁.terms.currentTerminal = k.terms.currentTerminal :=
    congrArg Tasks.currentTerminal (tasks_executeLoad.2 _ hload)
  have hk₁ : LinesShow k₁.kbd lines := by
    rw [callFrame_kbd.executeLoad.2 _ hload]
    exact h
  have hshows := executeSpawn_shows hk₁ hspawn
  rwa [hcurrent] at hshows

/-- `terminal_switch` touches no line itself. -/
theorem terminalSwitch_waiting_kbd {num : Terminal} {ticked : Bool}
    (h : terminalSwitch img res frame k num = .waiting ticked k') : k'.kbd = k.kbd := by
  obtain ⟨-, -, -, rfl⟩ := terminalSwitch_waiting h
  rfl

theorem terminalSwitch_executed_kbd {num : Terminal} {r : ExecuteResult}
    (h : terminalSwitch img res frame k num = .executed r) :
    ∃ k₀, k₀.kbd = k.kbd ∧ k₀.terms.currentTerminal = num ∧
      r = execute img res frame k₀ (some shellName) := by
  obtain ⟨-, -, rfl⟩ := terminalSwitch_executed h
  exact ⟨k.entering num, rfl, rfl, rfl⟩

end Frames

/-! ## Sessions -/

/-- The kernel, the reference editor of each terminal, and whether an access has left its row. -/
structure Session where
  kernel : Kernel
  lines : Terminal → Line
  outOfRow : Bool

/-- A scan code arrives, or a reader of terminal `t` starts to wait for a line. -/
inductive SessionEvent where
  | key (code : UInt8) (res : Residue) (frame : ExecuteFrame)
  | wait (t : Terminal)

namespace Session

/-- The line of the displayed terminal. -/
def line (s : Session) : Line := s.lines s.kernel.terms.currentTerminal

/-- A scan code: `handle_keyboard_input` on the kernel, `editOf` on the reference editor. A shell
that a switch of terminals starts has an empty line. -/
def press (img : FsImage) (s : Session) (key : Nat) (res : Residue) (frame : ExecuteFrame) :
    Option Session :=
  match handleKeyboardInput s.kernel key with
  | none => some { s with outOfRow := true }
  | some (.done k) =>
      some { s with
        kernel := k
        lines := Function.update s.lines s.kernel.terms.currentTerminal
          (s.line.apply (editOf s.kernel key)) }
  | some (.switch num k) =>
      match terminalSwitch img res frame k num with
      | .unchanged => some { s with kernel := k }
      | .waiting _ k => some { s with kernel := k }
      | .executed (.returned _ k) => some { s with kernel := k }
      | .executed .stuck => none
      | .executed (.started _ k) =>
          some { s with kernel := k, lines := Function.update s.lines num .empty }

/-- One step. A key is handled while the displayed terminal shows a process. -/
def step (img : FsImage) (s : Session) : SessionEvent → Option Session
  | .key code res frame =>
      if 1 ≤ s.kernel.sched.scheduleTop s.kernel.terms.currentTerminal then
        s.press img code.toNat res frame
      else none
  | .wait t =>
      some { s with kernel := { s.kernel with terms := { s.kernel.terms with
        returnSwitch := Function.update s.kernel.terms.returnSwitch t .on } } }

/-- What a step owes the reference editor: no access has left its row, each terminal shows its line,
and Enter delivers the line of the displayed terminal to a waiting reader. -/
structure Follows (s : Session) (e : SessionEvent) (s' : Session) : Prop where
  inRow : s'.outOfRow = false
  shows : ∀ t, Shows s'.kernel.kbd t (s'.lines t)
  delivers : ∀ code res frame, e = .key code res frame → code.toNat = enterKey →
    s'.kernel.terms = s.kernel.terms.deliver s.kernel.terms.currentTerminal s.line.text

/-- The step types no newline. -/
def Avoids (s : Session) (e : SessionEvent) (_ : Session) : Prop :=
  ∀ code res frame, e = .key code res frame → ¬ TypesNewline s.kernel code.toNat

/-- A session whose kernel shows the lines of the reference editor. -/
structure Matches (s : Session) : Prop where
  inRow : s.outOfRow = false
  shows : LinesShow s.kernel.kbd s.lines

section Steps

variable {img : FsImage} {s s' : Session} {e : SessionEvent}

/-- A scan code that types no newline keeps kernel and reference editor together. -/
theorem Matches.after_press (h : s.Matches) {code : UInt8} {res : Residue} {frame : ExecuteFrame}
    (hpress : s.press img code.toNat res frame = some s')
    (hno : ¬ TypesNewline s.kernel code.toNat) : s'.Matches := by
  obtain ⟨o, hrun, ho⟩ := handleKeyboardInput_answers h.shows code.toNat_lt hno
  simp only [Session.press, hrun] at hpress
  cases o with
  | done k =>
      obtain rfl := Option.some.inj hpress
      exact ⟨h.inRow, ho⟩
  | switch num k =>
      -- a switch changes a line only if it starts a shell, which begins with an empty one
      obtain ⟨rfl, -⟩ := ho
      dsimp only at hpress
      split at hpress
      next hswitch =>
        obtain rfl := Option.some.inj hpress
        exact ⟨h.inRow, h.shows⟩
      next hswitch =>
        obtain rfl := Option.some.inj hpress
        refine ⟨h.inRow, ?_⟩
        rw [terminalSwitch_waiting_kbd hswitch]
        exact h.shows
      next hswitch =>
        obtain rfl := Option.some.inj hpress
        obtain ⟨k₀, hkbd, -, hexec⟩ := terminalSwitch_executed_kbd hswitch
        exact ⟨h.inRow, execute_returned_shows (hkbd ▸ h.shows) hexec.symm⟩
      next hswitch => cases hpress
      next hswitch =>
        obtain rfl := Option.some.inj hpress
        obtain ⟨k₀, hkbd, hnum, hexec⟩ := terminalSwitch_executed_kbd hswitch
        have hshows := execute_started_shows (hkbd ▸ h.shows) hexec.symm
        rw [hnum] at hshows
        exact ⟨h.inRow, hshows⟩

/-- One step that types no newline. -/
theorem Matches.follows (h : s.Matches) (hstep : step img s e = some s') (hno : Avoids s e s') :
    s'.Matches ∧ Follows s e s' := by
  cases e with
  | key code res frame =>
      simp only [Session.step] at hstep
      split at hstep
      next htop =>
        have h' := h.after_press hstep (hno code res frame rfl)
        refine ⟨h', h'.inRow, h'.shows.shows, ?_⟩
        rintro _ _ _ ⟨⟩ henter
        obtain ⟨k', hrun, hterms⟩ := handleKeyboardInput_enter h.shows
        simp only [Session.press, henter, hrun] at hstep
        obtain rfl := Option.some.inj hstep
        exact hterms
      next htop => cases hstep
  | wait t =>
      obtain rfl := Option.some.inj hstep
      have h' : Matches { s with kernel := { s.kernel with terms := { s.kernel.terms with
          returnSwitch := Function.update s.kernel.terms.returnSwitch t .on } } } :=
        ⟨h.inRow, h.shows⟩
      exact ⟨h', h'.inRow, h'.shows.shows, nofun⟩

/-- A step that types a newline: the counter of the row is off by one. -/
theorem Matches.not_follows (h : s.Matches) (hstep : step img s e = some s')
    (hnew : ¬ Avoids s e s') : ¬ Follows s e s' := by
  intro hfollows
  apply hnew
  rintro code res frame rfl htypes
  simp only [Session.step] at hstep
  split at hstep
  next htop =>
    obtain ⟨k', hrun, hsize, hedit⟩ := handleKeyboardInput_newline h.shows htypes
    simp only [Session.press, hrun] at hstep
    obtain rfl := Option.some.inj hstep
    have hline : s.line.apply (editOf s.kernel code.toNat) = s.line := hedit
    have hshows := (hfollows.shows s.kernel.terms.currentTerminal).size
    simp only [hline, Function.update_self] at hshows
    exact absurd (hsize.symm.trans hshows) (Nat.succ_ne_self _)
  next htop => cases hstep

end Steps

/-- Kernel and reference editor agree over a run of scan codes if and only if no key of the run
types a newline. -/
theorem follows_iff_avoids {img : FsImage} {s : Session} (h : s.Matches)
    (es : List SessionEvent) :
    AllSteps (step img) Follows s es ↔ AllSteps (step img) Avoids s es := by
  apply allSteps_iff_of_invariant _ _ es h
  · intro s e s' h hstep
    constructor
    · intro hfollows
      by_contra hnew
      exact h.not_follows hstep hnew hfollows
    · intro hno
      exact (h.follows hstep hno).2
  · intro s e s' h hstep hno
    exact (h.follows hstep hno).1

/-! ## The first shell -/

/-- The first shell is displayed, and its line is empty. -/
def shellSession : Session := ⟨firstShell, fun _ => .empty, false⟩

theorem linesShow_bootKernel (espBoot : Word) :
    LinesShow (bootKernel espBoot).kbd fun _ => .empty where
  shows := fun _ => ⟨Fills.nil fun _ _ => rfl, rfl, rfl⟩
  history :=
    { base := fun _ => ⟨Int.le_refl 0, (by decide : (0 : Int) < numHistoryBuffers)⟩
      index := fun _ => ⟨Int.le_refl 0, (by decide : (0 : Int) < numHistoryBuffers)⟩
      ends := fun _ _ _ _ => rfl }

theorem matches_shellSession : shellSession.Matches := by
  refine ⟨rfl, ?_⟩
  have hboot := linesShow_bootKernel 0x7FFFC0
  change LinesShow firstShell.kbd fun _ => .empty
  simp only [firstShell, ExecuteResult.kernelD]
  split
  next hstarted =>
    have hshows := execute_started_shows hboot hstarted
    rwa [Function.update_eq_self_iff.mpr rfl] at hshows
  · exact hboot
  · exact hboot

/-- A reader waits, and `l`, `x`, backspace, `s`, Enter are typed. -/
def lsKeys : List SessionEvent :=
  .wait 0 :: [0x26, 0x2D, 0x0E, 0x1F, 0x1C].map fun code =>
    .key code emptyResidue ⟨0x7F7D00, 0x7EE100⟩

theorem avoids_of_ne {img : FsImage} {es : List SessionEvent}
    (hes : ∀ code res frame, .key code res frame ∈ es → code ≠ 0x76) {s : Session} :
    AllSteps (step img) Avoids s es := by
  apply allSteps_of_mem
  rintro e hmem _ _ code res frame rfl ⟨hcode, -⟩
  exact hes code res frame hmem (UInt8.toNat_inj.mp hcode)

/-- Kernel and reference editor agree while `ls` is typed. -/
theorem follows_lsKeys : AllSteps (step shellImage) Follows shellSession lsKeys := by
  apply (follows_iff_avoids matches_shellSession lsKeys).mpr
  apply avoids_of_ne
  intro code res frame hmem
  simp only [lsKeys, List.map_cons, List.map_nil, List.mem_cons, List.not_mem_nil, or_false,
    reduceCtorEq, SessionEvent.key.injEq, false_or] at hmem
  rcases hmem with ⟨rfl, -⟩ | ⟨rfl, -⟩ | ⟨rfl, -⟩ | ⟨rfl, -⟩ | ⟨rfl, -⟩ <;> decide

/-- The session after the key `0x76` in the empty line of the first shell. -/
def newlineSession : Session :=
  (step shellImage shellSession (.key 0x76 emptyResidue ⟨0x7F7D00, 0x7EE100⟩)).get
    (by decide +kernel)

/-- The row holds a newline, which the reference editor does not. -/
theorem not_follows_newline :
    newlineSession.kernel.kbd.buffer 0 0 = 10 ∧ newlineSession.kernel.kbd.bufferSIZE 0 = 1 ∧
      ¬ AllSteps (step shellImage) Follows shellSession
        [.key 0x76 emptyResidue ⟨0x7F7D00, 0x7EE100⟩] := by
  refine ⟨by decide, by decide, fun h => ?_⟩
  obtain ⟨hfollows, -⟩ := h newlineSession (Option.some_get _).symm
  have hsize := (hfollows.shows 0).size
  have hline : (newlineSession.lines 0).text.length = 0 := by decide
  rw [hline] at hsize
  exact absurd hsize (by decide)

end Session

end Ece391Os
