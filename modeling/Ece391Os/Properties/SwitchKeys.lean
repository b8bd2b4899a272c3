import Ece391Os.Properties.ModifierKeys
import Mathlib.Tactic.FinCases

/-!
# The terminal switching keys

F1, F2 and F3 with alt are recognised behind two tests: the line must not be full, and the table
`altcode` is read only while neither `shift_down` nor `caps_lock` is set. `switchKeyWorks_iff` says
that they switch terminals exactly in the states that pass both.
-/

set_option autoImplicit false

namespace Ece391Os

open EventRun

/-- The make codes of F1, F2 and F3. -/
def fnKey (num : Terminal) : Nat := 0x3B + num.val

/-- The characters that `altcode` has for them. -/
def altFn (num : Terminal) : UInt8 := 0xF1 + UInt8.ofNat num.val

/-! ## The key -/

section Key

variable {k k' : Kernel} {num : Terminal}

theorem fnKey_ne : ∀ num : Terminal, ∀ key ∈ [capslock, ctrlPress, ctrlRelease, altPress,
    altRelease, lshiftPress, rshiftPress, lshiftRelease, rshiftRelease, upArrow, downArrow,
    leftArrow, rightArrow, backspaceKey, enterKey], fnKey num ≠ key := by
  decide

/-- While control is not down, the key is translated. -/
theorem keyAction_fnKey {kbd : Keyboard} (num : Terminal) (hctrl : kbd.ctrlDown = false) :
    keyAction kbd (fnKey num) = .type (translate kbd (fnKey num)) := by
  have hne := fnKey_ne num
  simp only [List.forall_mem_cons] at hne
  obtain ⟨h1, h2, h3, h4, h5, h6, h7, h8, h9, h10, h11, h12, h13, h14, h15, -⟩ := hne
  have hpressed : ∀ num : Terminal, fnKey num &&& releaseBit = 0 := by decide
  simp only [keyAction, h1, h2, h3, h4, h5, h6, h7, h8, h9, h10, h11, h12, h13, h14, h15, hpressed,
    hctrl, and_false, or_self, if_false, and_self, if_true]

/-- With alt down, the translation is the character of the key or nothing. -/
theorem translate_fnKey {kbd : Keyboard} (num : Terminal) (halt : kbd.altDown = true) :
    translate kbd (fnKey num) =
      if kbd.shiftDown = false ∧ kbd.capsLock = false then altFn num else 0 := by
  have halts : ∀ num : Terminal, altCode.getD (fnKey num + shiftOffset) 0 = altFn num := by decide
  have hplain : ∀ num : Terminal, scancode.getD (fnKey num) 0 = 0 := by decide
  simp only [translate, halt, not_true_eq_false, and_false, if_false, and_true, halts, hplain,
    Bool.not_eq_true]

/-- What the driver does with the character of the key. -/
theorem run_altFn (num : Terminal)
    (hroom : k.kbd.bufferSIZE k.terms.currentTerminal ≠ maxCharacters) :
    (KeyAction.type (altFn num)).run k = some (.switch num k) := by
  simp only [KeyAction.run, if_neg hroom]
  fin_cases num
  · rfl
  · rfl
  · rfl

/-- With alt down and control up, the make code of the key calls `terminal_switch` exactly if the
line is not full and neither `shift_down` nor `caps_lock` is set. -/
theorem handle_fnKey_iff (hctrl : k.kbd.ctrlDown = false) (halt : k.kbd.altDown = true) :
    handleKeyboardInput k (fnKey num) = some (.switch num k) ↔
      k.kbd.bufferSIZE k.terms.currentTerminal ≠ maxCharacters ∧ k.kbd.capsLock = false ∧
        k.kbd.shiftDown = false := by
  rw [handleKeyboardInput_eq, keyAction_fnKey num hctrl, translate_fnKey num halt]
  constructor
  · intro hswitch
    by_cases hfull : k.kbd.bufferSIZE k.terms.currentTerminal = maxCharacters
    · simp only [KeyAction.run, if_pos hfull] at hswitch
      cases hswitch
    · by_cases hflags : k.kbd.shiftDown = false ∧ k.kbd.capsLock = false
      · exact ⟨hfull, hflags.2, hflags.1⟩
      · -- the key is looked up in `scancode`, which has no character for it
        simp only [if_neg hflags, KeyAction.run, if_neg hfull, if_true] at hswitch
        cases hswitch
  · rintro ⟨hroom, hcaps, hshift⟩
    rw [if_pos ⟨hshift, hcaps⟩]
    exact run_altFn num hroom

/-- With alt down the key is no typed key: it is not interrupted before it is handled. -/
theorem not_typedKey_fnKey {kbd : Keyboard} (num : Terminal) (halt : kbd.altDown = true) :
    ¬ TypedKey kbd (fnKey num) := by
  rintro (hbackspace | ⟨-, -, -, hchar⟩)
  · exact fnKey_ne num backspaceKey (by decide) hbackspace
  · apply hchar
    rw [translate_fnKey num halt]
    have hmem : ∀ num : Terminal, altFn num ∈ [0, altF1, altF2, altF3] := by decide
    split
    · exact hmem num
    · exact List.mem_cons_self

theorem startKey_fnKey (halt : k.kbd.altDown = true)
    (hhandle : handleKeyboardInput k (fnKey num) = some (.switch num k)) :
    startKey k (fnKey num) = some (.switch num k) := by
  rw [startKey, if_neg (not_typedKey_fnKey num halt), hhandle]
  rfl

end Key

/-! ## The line -/

/-- The line of terminal `t` with its cursor and its size is the same. -/
structure SameLine (t : Terminal) (kbd kbd' : Keyboard) : Prop where
  row : kbd'.buffer t = kbd.buffer t
  idx : kbd'.bufferIDX t = kbd.bufferIDX t
  size : kbd'.bufferSIZE t = kbd.bufferSIZE t

section Line

variable {img : FsImage} {res : Residue} {frame : ExecuteFrame} {k k' : Kernel} {t : Terminal}

theorem SameLine.refl (t : Terminal) (kbd : Keyboard) : SameLine t kbd kbd := ⟨rfl, rfl, rfl⟩

theorem SameLine.of_eq {kbd kbd' : Keyboard} (h : kbd' = kbd) : SameLine t kbd kbd' :=
  h ▸ SameLine.refl t kbd

/-- A program that starts clears the line of the displayed terminal and no other. -/
theorem sameLine_execute_started {command : Option CString} {entry : Word}
    (hstart : execute img res frame k command = .started entry k')
    (ht : t ≠ k.terms.currentTerminal) : SameLine t k.kbd k'.kbd := by
  obtain ⟨buf, k₁, hload, hspawn, -⟩ := executeSpawn_of_started hstart
  have hkeyboard : k₁.kbd = k.kbd := callFrame_kbd.executeLoad.2 _ hload
  have hcurrent : k₁.terms.currentTerminal = k.terms.currentTerminal :=
    congrArg Tasks.currentTerminal (tasks_executeLoad.2 _ hload)
  rw [executeSpawn_kbd hspawn, ← hkeyboard]
  rw [← hcurrent] at ht
  constructor
  · exact Function.update_of_ne ht _ _
  · exact Function.update_of_ne ht _ _
  · exact Function.update_of_ne ht _ _

end Line

namespace Console

/-- The make code of the key calls `terminal_switch` with its number, and neither the driver nor
`terminal_switch` changes the line that was edited. -/
structure SwitchKeyWorks (img : FsImage) (c : Console) (num : Terminal) : Prop where
  calls : handleKeyboardInput (Machine.keyboardKernel c.kernel) (fnKey num) =
    some (.switch num (Machine.keyboardKernel c.kernel))
  line : ∀ (code : UInt8) (res : Residue) (frame : ExecuteFrame) (c' : Console),
    code.toNat = fnKey num → c.key img code res frame = some c' →
      SameLine c.kernel.terms.currentTerminal c.kernel.kbd c'.kernel.kbd

/-- A key that calls `terminal_switch` leaves the line. -/
theorem sameLine_of_switch {img : FsImage} {c c' : Console} {code : UInt8} {num : Terminal}
    {res : Residue} {frame : ExecuteFrame}
    (hkey : startKey (Machine.keyboardKernel c.kernel) code.toNat =
      some (.switch num (Machine.keyboardKernel c.kernel)))
    (hstep : c.key img code res frame = some c') :
    SameLine c.kernel.terms.currentTerminal c.kernel.kbd c'.kernel.kbd := by
  -- whatever the step does, it starts with the kernel of `handle_keyboard`
  have hswitches : ∀ {num' : Terminal} {k : Kernel},
      startKey (Machine.keyboardKernel c.kernel) code.toNat = some (.switch num' k) →
        k = Machine.keyboardKernel c.kernel := fun hstart => startKey_switch hstart
  cases effect_of_key hstep with
  | key hstart =>
      rw [hkey] at hstart
      cases hstart
  | displayed hstart _ =>
      obtain rfl := hswitches hstart
      exact .refl _ _
  | waits hstart hswitch =>
      obtain rfl := hswitches hstart
      have hkbd := terminalSwitch_waiting_kbd hswitch
      exact .of_eq hkbd
  | shellFails hstart hswitch =>
      obtain rfl := hswitches hstart
      obtain ⟨k₀, hkbd, -, hexec⟩ := terminalSwitch_executed_kbd hswitch
      have hsame := callFrame_kbd.executeLoad.1 _ (executeLoad_of_returned hexec.symm)
      exact .of_eq (hsame.trans hkbd)
  | shellStarts hstart hswitch =>
      obtain rfl := hswitches hstart
      obtain ⟨hne, -, -⟩ := terminalSwitch_executed hswitch
      obtain ⟨k₀, hkbd, hshown, hexec⟩ := terminalSwitch_executed_kbd hswitch
      have hother : c.kernel.terms.currentTerminal ≠ k₀.terms.currentTerminal := by
        rw [hshown]
        exact hne.symm
      have hline := sameLine_execute_started hexec.symm hother
      rw [hkbd] at hline
      exact hline

/-- In a state with alt down and control up. -/
theorem switchKeyWorks_of_flags {img : FsImage} {c : Console}
    (hctrl : c.kernel.kbd.ctrlDown = false) (halt : c.kernel.kbd.altDown = true)
    (num : Terminal) :
    SwitchKeyWorks img c num ↔
      c.kernel.kbd.bufferSIZE c.kernel.terms.currentTerminal ≠ maxCharacters ∧
        c.kernel.kbd.capsLock = false ∧ c.kernel.kbd.shiftDown = false := by
  have hiff : handleKeyboardInput (Machine.keyboardKernel c.kernel) (fnKey num) =
        some (.switch num (Machine.keyboardKernel c.kernel)) ↔ _ :=
    handle_fnKey_iff hctrl halt
  constructor
  · intro hworks
    exact hiff.mp hworks.calls
  intro hflags
  have hhandle := hiff.mpr hflags
  refine ⟨hhandle, ?_⟩
  intro code res frame c' hcode hstep
  have hstart : startKey (Machine.keyboardKernel c.kernel) (fnKey num) =
      some (.switch num (Machine.keyboardKernel c.kernel)) := startKey_fnKey halt hhandle
  rw [← hcode] at hstart
  exact sameLine_of_switch hstart hstep

end Console

/-! ## Runs -/

namespace Typist

/-- The flags of alt and control are set exactly while the keys are held. -/
structure FlagsFollow (s : Typist) : Prop where
  alt : s.console.kernel.kbd.altDown = s.held.alt
  ctrl : s.console.kernel.kbd.ctrlDown = s.held.ctrl

section Follow

variable {img : FsImage} {s s' : Typist}

theorem alt_after (h : HeldKeys) (code : Nat) :
    (h.after code).alt =
      if code = altPress then true else if code = altRelease then false else h.alt := by
  rw [HeldKeys.after]
  by_cases hother : code = lshiftPress ∨ code = lshiftRelease ∨ code = rshiftPress ∨
      code = rshiftRelease ∨ code = ctrlPress ∨ code = ctrlRelease
  · rcases hother with rfl | rfl | rfl | rfl | rfl | rfl
    all_goals rfl
  · simp only [not_or] at hother
    obtain ⟨h1, h2, h3, h4, h5, h6⟩ := hother
    rw [if_neg h1, if_neg h2, if_neg h3, if_neg h4, if_neg h5, if_neg h6, apply_ite HeldKeys.alt,
      apply_ite HeldKeys.alt]

theorem ctrl_after (h : HeldKeys) (code : Nat) :
    (h.after code).ctrl =
      if code = ctrlPress then true else if code = ctrlRelease then false else h.ctrl := by
  rw [HeldKeys.after]
  by_cases hother : code = lshiftPress ∨ code = lshiftRelease ∨ code = rshiftPress ∨
      code = rshiftRelease
  · rcases hother with rfl | rfl | rfl | rfl
    all_goals rfl
  · simp only [not_or] at hother
    obtain ⟨h1, h2, h3, h4⟩ := hother
    rw [if_neg h1, if_neg h2, if_neg h3, if_neg h4]
    simp only [apply_ite HeldKeys.ctrl, ite_self]

theorem FlagsFollow.step {e : ConsoleEvent} (h : s.FlagsFollow)
    (hstep : Typist.step img s e = some s') : s'.FlagsFollow := by
  by_cases hkey : ∃ code res frame, e = .key code res frame
  · obtain ⟨code, res, frame, rfl⟩ := hkey
    obtain ⟨-, hheld, hmodifiers⟩ := step_key hstep
    constructor
    · have hflag := (congrArg Modifiers.altDown hmodifiers).trans (altDown_after _ _)
      rw [hheld, alt_after, ← h.alt]
      exact hflag
    · have hflag := (congrArg Modifiers.ctrlDown hmodifiers).trans (ctrlDown_after _ _)
      rw [hheld, ctrl_after, ← h.ctrl]
      exact hflag
  · have hother : ∀ code res frame, e ≠ .key code res frame :=
      fun code res frame heq => hkey ⟨code, res, frame, heq⟩
    obtain ⟨hheld, hmodifiers⟩ := step_other hother hstep
    constructor
    · rw [hheld, ← h.alt]
      exact congrArg Modifiers.altDown hmodifiers
    · rw [hheld, ← h.ctrl]
      exact congrArg Modifiers.ctrlDown hmodifiers

theorem flagsFollow_of_run {espBoot : Word} {es : List ConsoleEvent}
    (hrun : runFrom (Typist.step img) (boot espBoot) es = some s) : s.FlagsFollow :=
  invariant_of_runFrom (fun _ _ _ h hstep => FlagsFollow.step h hstep) ⟨rfl, rfl⟩ hrun

end Follow

/-- In every state that a run reaches in which alt is held and control is not, F1, F2 and F3 work
exactly if the line is not full, `caps_lock` is off and `shift_down` is clear. -/
theorem switchKeyWorks_iff {img : FsImage} {espBoot : Word} {es : List ConsoleEvent} {s : Typist}
    (hrun : runFrom (Typist.step img) (boot espBoot) es = some s) (halt : s.held.alt = true)
    (hctrl : s.held.ctrl = false) (num : Terminal) :
    s.console.SwitchKeyWorks img num ↔
      s.console.kernel.kbd.bufferSIZE s.console.kernel.terms.currentTerminal ≠ maxCharacters ∧
        s.console.kernel.kbd.capsLock = false ∧ s.console.kernel.kbd.shiftDown = false := by
  have hfollow := flagsFollow_of_run hrun
  exact Console.switchKeyWorks_of_flags (hfollow.ctrl.trans hctrl) (hfollow.alt.trans halt) num

/-- The first shell is in a system call while keys are pressed. -/
def pressed (codes : List UInt8) : List ConsoleEvent :=
  [.respawn emptyResidue ⟨0x7FFF00, 0x7F6300⟩, .openWindow] ++
    codes.flatMap fun code => [.key code emptyResidue ⟨0x7F7D00, 0x7EE100⟩, .advance]

/-- The modifiers of a state, the size of its line, and its held alt, control and shift keys. -/
def status (s : Typist) : Modifiers × Nat × Bool × Bool × Bool :=
  (s.console.kernel.kbd.modifiers,
    s.console.kernel.kbd.bufferSIZE s.console.kernel.terms.currentTerminal, s.held.alt,
    s.held.ctrl, s.held.shift)

/-- With alt alone the keys work. -/
theorem switchKeyWorks_alt :
    ∃ s, runFrom (Typist.step shellImage) (boot 0x7FFFC0) (pressed [0x38]) = some s ∧
      s.held.alt = true ∧ s.held.ctrl = false ∧
      ∀ num, s.console.SwitchKeyWorks shellImage num := by
  have hfinal : (runFrom (Typist.step shellImage) (boot 0x7FFFC0) (pressed [0x38])).map status =
      some (⟨false, false, false, true⟩, 0, true, false, false) := by decide
  obtain ⟨s, hrun, hs⟩ := Option.map_eq_some_iff.mp hfinal
  obtain ⟨hmodifiers, hsize, halt, hctrl, -⟩ := by simpa only [status, Prod.mk.injEq] using hs
  refine ⟨s, hrun, halt, hctrl, fun num => (switchKeyWorks_iff hrun halt hctrl num).mpr ?_⟩
  refine ⟨?_, congrArg Modifiers.capsLock hmodifiers, congrArg Modifiers.shiftDown hmodifiers⟩
  rw [hsize]
  decide

/-- With caps lock on and alt held they do not. -/
theorem not_switchKeyWorks_caps :
    ∃ s, runFrom (Typist.step shellImage) (boot 0x7FFFC0) (pressed [0x3A, 0x38]) = some s ∧
      s.held.alt = true ∧ s.held.ctrl = false ∧ s.held.shift = false ∧
      ∀ num, ¬ s.console.SwitchKeyWorks shellImage num := by
  have hfinal : (runFrom (Typist.step shellImage) (boot 0x7FFFC0) (pressed [0x3A, 0x38])).map
      status = some (⟨false, true, false, true⟩, 0, true, false, false) := by decide
  obtain ⟨s, hrun, hs⟩ := Option.map_eq_some_iff.mp hfinal
  obtain ⟨hmodifiers, -, halt, hctrl, hshift⟩ := by simpa only [status, Prod.mk.injEq] using hs
  refine ⟨s, hrun, halt, hctrl, hshift, fun num hworks => ?_⟩
  have hfollow := flagsFollow_of_run hrun
  have hcaps := ((Console.switchKeyWorks_of_flags (hfollow.ctrl.trans hctrl)
    (hfollow.alt.trans halt) num).mp hworks).2.1
  have hset : s.console.kernel.kbd.capsLock = true := congrArg Modifiers.capsLock hmodifiers
  rw [hset] at hcaps
  cases hcaps

end Typist

end Ece391Os
