import Ece391Os.Properties.KeyActions
import Ece391Os.Properties.VideoRouting

/-!
# Modifier keys

The driver keeps four flags for the modifier keys. Alt and control are set on a press and cleared on
a release; both presses and releases of a shift key toggle one flag. A `Typist` is the console
together with the keys that are held down, so that the flags can be compared with the keys after
every code of a stream (`shiftRight_iff`).
-/

set_option autoImplicit false

namespace Ece391Os

open EventRun

/-! ## The flags -/

/-- The modifiers behind an event. -/
def ConsoleEvent.modifiersAfter (kbd : Keyboard) : ConsoleEvent → Modifiers
  | .key code _ _ => (keyAction kbd code.toNat).modifiersAfter kbd.modifiers
  | _ => kbd.modifiers

section Flags

variable {k k' : Kernel}

/-- The flags behind a scan code. -/
theorem modifiersAfter_eq (kbd : Keyboard) (key : Nat) :
    (keyAction kbd key).modifiersAfter kbd.modifiers =
      if key = capslock then { kbd.modifiers with capsLock := !kbd.capsLock }
      else if key = ctrlPress then { kbd.modifiers with ctrlDown := true }
      else if key = ctrlRelease then { kbd.modifiers with ctrlDown := false }
      else if key = altPress then { kbd.modifiers with altDown := true }
      else if key = altRelease then { kbd.modifiers with altDown := false }
      else if key = lshiftPress ∨ key = rshiftPress ∨ key = lshiftRelease ∨ key = rshiftRelease then
        { kbd.modifiers with shiftDown := !kbd.shiftDown }
      else kbd.modifiers := by
  simp only [keyAction, apply_ite (KeyAction.modifiersAfter kbd.modifiers)]
  simp only [KeyAction.modifiersAfter, ite_self]

/-- A press or a release of a shift key toggles `shift_down`, and no other code does. -/
theorem shiftDown_after (kbd : Keyboard) (key : Nat) :
    ((keyAction kbd key).modifiersAfter kbd.modifiers).shiftDown =
      if key = lshiftPress ∨ key = rshiftPress ∨ key = lshiftRelease ∨ key = rshiftRelease then
        !kbd.shiftDown
      else kbd.shiftDown := by
  rw [modifiersAfter_eq]
  by_cases hshift : key = lshiftPress ∨ key = rshiftPress ∨ key = lshiftRelease ∨
      key = rshiftRelease
  · rw [if_pos hshift]
    rcases hshift with rfl | rfl | rfl | rfl
    all_goals rfl
  · rw [if_neg hshift, if_neg hshift]
    simp only [apply_ite Modifiers.shiftDown, Keyboard.modifiers, ite_self]

/-- Control is set on a press and cleared on a release. -/
theorem ctrlDown_after (kbd : Keyboard) (key : Nat) :
    ((keyAction kbd key).modifiersAfter kbd.modifiers).ctrlDown =
      if key = ctrlPress then true else if key = ctrlRelease then false else kbd.ctrlDown := by
  rw [modifiersAfter_eq]
  by_cases hcaps : key = capslock
  · subst hcaps
    rfl
  · rw [if_neg hcaps]
    simp only [apply_ite Modifiers.ctrlDown, Keyboard.modifiers, ite_self]

/-- So is alt. -/
theorem altDown_after (kbd : Keyboard) (key : Nat) :
    ((keyAction kbd key).modifiersAfter kbd.modifiers).altDown =
      if key = altPress then true else if key = altRelease then false else kbd.altDown := by
  rw [modifiersAfter_eq]
  by_cases hfirst : key = capslock ∨ key = ctrlPress ∨ key = ctrlRelease
  · rcases hfirst with rfl | rfl | rfl
    all_goals rfl
  · obtain ⟨hcaps, hctrl, hctrl'⟩ : key ≠ capslock ∧ key ≠ ctrlPress ∧ key ≠ ctrlRelease := by
      simpa only [not_or] using hfirst
    rw [if_neg hcaps, if_neg hctrl, if_neg hctrl']
    simp only [apply_ite Modifiers.altDown, Keyboard.modifiers, ite_self]

/-- A typed key is no modifier. -/
theorem modifiersAfter_of_typed {kbd : Keyboard} {key : Nat} (h : TypedKey kbd key) :
    (keyAction kbd key).modifiersAfter kbd.modifiers = kbd.modifiers := by
  rcases h with rfl | ⟨hpressed, hcommand, -, -⟩
  · rfl
  · have hreleased : key ≠ ctrlRelease ∧ key ≠ altRelease ∧ key ≠ lshiftRelease ∧
        key ≠ rshiftRelease := by
      refine ⟨?_, ?_, ?_, ?_⟩
      all_goals
        rintro rfl
        exact absurd hpressed (by decide)
    simp only [commandKeys, List.mem_cons, not_or] at hcommand
    obtain ⟨hcaps, hctrl, halt, hlshift, hrshift, -⟩ := hcommand
    obtain ⟨hctrl', halt', hlshift', hrshift'⟩ := hreleased
    have hshift : ¬ (key = lshiftPress ∨ key = rshiftPress ∨ key = lshiftRelease ∨
        key = rshiftRelease) := by
      simp only [hlshift, hrshift, hlshift', hrshift', or_self, not_false_eq_true]
    rw [modifiersAfter_eq, if_neg hcaps, if_neg hctrl, if_neg hctrl', if_neg halt, if_neg halt',
      if_neg hshift]

theorem modifiers_terminalWrite (k : Kernel) (text : List UInt8) :
    (terminalWrite k text).2.kbd.modifiers = k.kbd.modifiers :=
  (sameInput_terminalWrite k text).modifiers

theorem modifiers_beginKey {key : Nat} {rest : List KeyStatement}
    (hrun : beginKey k key = some (k', rest)) : k'.kbd.modifiers = k.kbd.modifiers := by
  simp only [beginKey] at hrun
  split at hrun
  · split at hrun
    · cases hrun
      rfl
    · obtain ⟨row, text, moves, hr⟩ := startBackspace_eq_some hrun
      obtain ⟨rfl, -⟩ := Prod.mk.inj hr
      exact modifiers_terminalWrite _ text
  · split at hrun
    · cases hrun
      rfl
    · obtain ⟨row, text, moves, hr⟩ := startInsert_eq_some hrun
      obtain ⟨rfl, -⟩ := Prod.mk.inj hr
      exact modifiers_terminalWrite _ text

/-- A key up to where it can be interrupted. -/
theorem modifiers_startKey {key : Nat} {rest : List KeyStatement}
    (hrun : startKey k key = some (.running k' rest)) :
    k'.kbd.modifiers = (keyAction k.kbd key).modifiersAfter k.kbd.modifiers := by
  simp only [startKey] at hrun
  split at hrun
  next htyped =>
    obtain ⟨r, hbegin, hr⟩ := Option.map_eq_some_iff.mp hrun
    obtain ⟨rfl, rfl⟩ := KeyStart.running.inj hr
    rw [modifiersAfter_of_typed htyped]
    exact modifiers_beginKey hbegin
  next htyped =>
    obtain ⟨o, hhandle, ho⟩ := Option.map_eq_some_iff.mp hrun
    cases o with
    | done k₁ =>
        obtain ⟨rfl, -⟩ := KeyStart.running.inj ho
        rw [handleKeyboardInput_eq] at hhandle
        obtain ⟨d, -, hreplaces⟩ := replaces_run hhandle
        exact hreplaces.modifiers
    | switch num k₁ => cases ho

/-- A key that switches terminals is handled by the branch that translates keys. -/
theorem handle_of_startKey_switch {key : Nat} {num : Terminal}
    (hrun : startKey k key = some (.switch num k')) :
    handleKeyboardInput k key = some (.switch num k') := by
  simp only [startKey] at hrun
  split at hrun
  · obtain ⟨r, -, hr⟩ := Option.map_eq_some_iff.mp hrun
    cases hr
  · obtain ⟨o, hhandle, ho⟩ := Option.map_eq_some_iff.mp hrun
    cases o with
    | done k₁ => cases ho
    | switch num' k₁ =>
        obtain ⟨rfl, rfl⟩ := KeyStart.switch.inj ho
        exact hhandle

theorem modifiers_startKey_switch {key : Nat} {num : Terminal}
    (hrun : startKey k key = some (.switch num k')) :
    k' = k ∧ (keyAction k.kbd key).modifiersAfter k.kbd.modifiers = k.kbd.modifiers := by
  have hhandle := handle_of_startKey_switch hrun
  rw [handleKeyboardInput_eq] at hhandle
  obtain ⟨⟨c, htype⟩, hk⟩ := run_switch hhandle
  rw [htype]
  exact ⟨hk, rfl⟩

theorem kbd_keyboardKernel (k : Kernel) : (Machine.keyboardKernel k).kbd = k.kbd := rfl

theorem modifiers_exec (k : Kernel) (st : KeyStatement) :
    (st.exec k).kbd.modifiers = k.kbd.modifiers := by
  cases st <;> rfl

end Flags

namespace Console

section Steps

variable {img : FsImage} {c c' : Console}

/-- The timer does not use the keyboard. -/
theorem kbd_tickKernel (c : Console) (esp ebp : Word) (t : Terminal) :
    (c.tickKernel esp ebp t).kbd = c.kernel.kbd := by
  obtain ⟨tss, esps, ebps, hsaved⟩ := Machine.savedKernel_frame c.kernel esp ebp
  obtain ⟨pid, sched, video, hgoes⟩ := continueWith_frame (Machine.savedKernel c.kernel esp ebp) t
  rw [tickKernel, hgoes]
  change (Machine.savedKernel c.kernel esp ebp).kbd = _
  rw [hsaved]

/-- Only the codes of the modifier keys change a flag. -/
theorem modifiers_step {e : ConsoleEvent} (hstep : step img c e = some c') :
    c'.kernel.kbd.modifiers = e.modifiersAfter c.kernel.kbd := by
  cases effect_of_step hstep with
  | openWindow _ => rfl
  | closeWindow _ _ => rfl
  | @tick esp ebp t _ _ =>
      change (c.tickKernel esp ebp t).kbd.modifiers = c.kernel.kbd.modifiers
      rw [kbd_tickKernel]
  | @key code _ _ _ _ hstart =>
      have hkey := modifiers_startKey hstart
      rw [kbd_keyboardKernel] at hkey
      exact hkey
  | displayed hstart _ =>
      obtain ⟨rfl, hsame⟩ := modifiers_startKey_switch hstart
      rw [kbd_keyboardKernel] at hsame
      exact hsame.symm
  | waits hstart hswitch =>
      obtain ⟨rfl, hsame⟩ := modifiers_startKey_switch hstart
      rw [kbd_keyboardKernel] at hsame
      exact (congrArg Keyboard.modifiers (terminalSwitch_waiting_kbd hswitch)).trans hsame.symm
  | shellFails hstart hswitch =>
      obtain ⟨rfl, hsame⟩ := modifiers_startKey_switch hstart
      rw [kbd_keyboardKernel] at hsame
      obtain ⟨k₀, hkbd, -, hexec⟩ := terminalSwitch_executed_kbd hswitch
      have hmodifiers := modifiers_execute_returned hexec.symm
      rw [hkbd, kbd_keyboardKernel] at hmodifiers
      exact hmodifiers.trans hsame.symm
  | shellStarts hstart hswitch =>
      obtain ⟨rfl, hsame⟩ := modifiers_startKey_switch hstart
      rw [kbd_keyboardKernel] at hsame
      obtain ⟨k₀, hkbd, -, hexec⟩ := terminalSwitch_executed_kbd hswitch
      have hmodifiers := modifiers_execute_started hexec.symm
      rw [hkbd, kbd_keyboardKernel] at hmodifiers
      exact hmodifiers.trans hsame.symm
  | advance _ => exact modifiers_exec c.kernel _
  | leave _ => rfl
  | leaveSwitch _ _ => rfl
  | returned _ hret => exact (modifiers_execute_returned hret).trans rfl
  | started _ hstart => exact (modifiers_execute_started hstart).trans rfl
  | halt _ => rfl
  | respawnFails hret => exact (modifiers_execute_returned hret).trans rfl
  | respawns hstart => exact (modifiers_execute_started hstart).trans rfl
  | @write text _ =>
      simp only [write]
      split <;> rfl
  | output _ => rfl

end Steps

end Console

/-! ## The keys that are held -/

/-- The modifier keys that are held down. -/
structure HeldKeys where
  leftShift : Bool
  rightShift : Bool
  ctrl : Bool
  alt : Bool
  deriving DecidableEq, Repr

namespace HeldKeys

/-- No key is held. -/
def none : HeldKeys := ⟨false, false, false, false⟩

/-- At least one shift key is held. -/
def shift (h : HeldKeys) : Bool := h.leftShift || h.rightShift

/-- The keys that are held after a make or a break code. -/
def after (h : HeldKeys) (code : Nat) : HeldKeys :=
  if code = lshiftPress then { h with leftShift := true }
  else if code = lshiftRelease then { h with leftShift := false }
  else if code = rshiftPress then { h with rightShift := true }
  else if code = rshiftRelease then { h with rightShift := false }
  else if code = ctrlPress then { h with ctrl := true }
  else if code = ctrlRelease then { h with ctrl := false }
  else if code = altPress then { h with alt := true }
  else if code = altRelease then { h with alt := false }
  else h

/-- A key that is released was held. -/
def Allows (h : HeldKeys) (code : Nat) : Prop :=
  (code = lshiftRelease → h.leftShift = true) ∧ (code = rshiftRelease → h.rightShift = true)

instance (h : HeldKeys) (code : Nat) : Decidable (h.Allows code) :=
  inferInstanceAs (Decidable (_ ∧ _))

end HeldKeys

/-- The console, and the keys that are held down. -/
structure Typist where
  console : Console
  held : HeldKeys

namespace Typist

/-- Before the first program is executed, with no key held. -/
def boot (espBoot : Word) : Typist := ⟨bootConsole espBoot, .none⟩

/-- One step. A break code of a shift key comes only while that key is held. -/
def step (img : FsImage) (s : Typist) : ConsoleEvent → Option Typist
  | .key code res frame =>
      if s.held.Allows code.toNat then
        (s.console.step img (.key code res frame)).map fun c => ⟨c, s.held.after code.toNat⟩
      else none
  | e => (s.console.step img e).map fun c => ⟨c, s.held⟩

/-- The flag is set exactly while at least one shift key is held. -/
def ShiftRight (s : Typist) : Prop := s.console.kernel.kbd.shiftDown = s.held.shift

/-- No shift key is pressed, and no make code repeated, while a shift key is held. -/
def OneShift (s : Typist) (e : ConsoleEvent) (_ : Typist) : Prop :=
  match e with
  | .key code _ _ =>
      code.toNat = lshiftPress ∨ code.toNat = rshiftPress → s.held.shift = false
  | _ => True

section Steps

variable {img : FsImage} {s s' : Typist}

/-- What a step does to the flags and to the keys. -/
theorem step_key {code : UInt8} {res : Residue} {frame : ExecuteFrame}
    (hstep : step img s (.key code res frame) = some s') :
    s.held.Allows code.toNat ∧ s'.held = s.held.after code.toNat ∧
      s'.console.kernel.kbd.modifiers =
        (keyAction s.console.kernel.kbd code.toNat).modifiersAfter
          s.console.kernel.kbd.modifiers := by
  obtain ⟨hallows, hstep⟩ := Option.ite_none_right_eq_some.mp hstep
  obtain ⟨c, hc, rfl⟩ := Option.map_eq_some_iff.mp hstep
  exact ⟨hallows, rfl, Console.modifiers_step hc⟩

/-- A step that is no key leaves both. -/
theorem step_other {e : ConsoleEvent} (hkey : ∀ code res frame, e ≠ .key code res frame)
    (hstep : step img s e = some s') :
    s'.held = s.held ∧ s'.console.kernel.kbd.modifiers = s.console.kernel.kbd.modifiers := by
  cases e with
  | key code res frame => exact absurd rfl (hkey code res frame)
  | _ =>
      obtain ⟨c, hc, rfl⟩ := Option.map_eq_some_iff.mp hstep
      exact ⟨rfl, Console.modifiers_step hc⟩

end Steps

/-! ### Shift -/

/-- The flag is right, and at most one of the two keys is held. -/
structure SingleShift (s : Typist) : Prop where
  right : s.ShiftRight
  single : ¬ (s.held.leftShift = true ∧ s.held.rightShift = true)

section Shift

variable {img : FsImage} {s s' : Typist} {e : ConsoleEvent}

/-- A press of a shift key: the flag is right behind it exactly if no shift key was held. -/
theorem shiftRight_press (h : s.SingleShift)
    (hflag : s'.console.kernel.kbd.shiftDown = !s.console.kernel.kbd.shiftDown)
    (hheld : s'.held = { s.held with leftShift := true } ∨
      s'.held = { s.held with rightShift := true }) :
    (s'.ShiftRight ↔ s.held.shift = false) ∧ (s.held.shift = false → s'.SingleShift) := by
  have hbefore : s.console.kernel.kbd.shiftDown = s.held.shift := h.right
  have hafter : s'.held.shift = true := by
    rcases hheld with heq | heq
    · rw [heq]
      exact Bool.true_or _
    · rw [heq]
      exact Bool.or_true _
  have hiff : s'.ShiftRight ↔ s.held.shift = false := by
    rw [ShiftRight, hflag, hbefore, hafter, Bool.not_eq_true']
  refine ⟨hiff, fun hnone => ⟨hiff.mpr hnone, ?_⟩⟩
  obtain ⟨hleft, hright⟩ := Bool.or_eq_false_iff.mp hnone
  rintro ⟨hleft', hright'⟩
  rcases hheld with heq | heq
  · rw [heq, hright] at hright'
    cases hright'
  · rw [heq, hleft] at hleft'
    cases hleft'

/-- A release of the shift key that is held. -/
theorem shiftRight_release (h : s.SingleShift)
    (hflag : s'.console.kernel.kbd.shiftDown = !s.console.kernel.kbd.shiftDown)
    (hheld : s.held.leftShift = true ∧ s'.held = { s.held with leftShift := false } ∨
      s.held.rightShift = true ∧ s'.held = { s.held with rightShift := false }) :
    s'.SingleShift := by
  have hbefore : s.console.kernel.kbd.shiftDown = s.held.shift := h.right
  rcases hheld with ⟨hleft, heq⟩ | ⟨hright, heq⟩
  · -- the other key is up, or both would be held
    have hright : s.held.rightShift = false :=
      Bool.eq_false_iff.mpr fun hright => h.single ⟨hleft, hright⟩
    constructor
    · rw [ShiftRight, hflag, hbefore, heq, HeldKeys.shift, HeldKeys.shift, hleft, hright]
      rfl
    · rw [heq]
      exact fun hboth => Bool.false_ne_true hboth.1
  · have hleft : s.held.leftShift = false :=
      Bool.eq_false_iff.mpr fun hleft => h.single ⟨hleft, hright⟩
    constructor
    · rw [ShiftRight, hflag, hbefore, heq, HeldKeys.shift, HeldKeys.shift, hleft, hright]
      rfl
    · rw [heq]
      exact fun hboth => Bool.false_ne_true hboth.2

/-- An event that is no code of a shift key. -/
theorem SingleShift.of_same (h : s.SingleShift)
    (hflag : s'.console.kernel.kbd.shiftDown = s.console.kernel.kbd.shiftDown)
    (hleft : s'.held.leftShift = s.held.leftShift)
    (hright : s'.held.rightShift = s.held.rightShift) : s'.SingleShift where
  right := by
    rw [ShiftRight, hflag, HeldKeys.shift, hleft, hright]
    exact h.right
  single := by
    rw [hleft, hright]
    exact h.single

/-- From a right flag, a code leaves a right flag exactly if it presses no shift key while one is
held. -/
theorem singleShift_key {code : UInt8} {res : Residue} {frame : ExecuteFrame} (h : s.SingleShift)
    (hstep : step img s (.key code res frame) = some s') :
    (s'.ShiftRight ↔ OneShift s (.key code res frame) s') ∧
      (OneShift s (.key code res frame) s' → s'.SingleShift) := by
  obtain ⟨⟨hallowsLeft, hallowsRight⟩, hheld, hmodifiers⟩ := step_key hstep
  have hflag : s'.console.kernel.kbd.shiftDown = _ :=
    (congrArg Modifiers.shiftDown hmodifiers).trans (shiftDown_after _ _)
  simp only [OneShift]
  by_cases hlp : code.toNat = lshiftPress
  · rw [hlp] at hflag hheld ⊢
    have hpress := shiftRight_press h hflag (Or.inl hheld)
    simpa only [true_or, forall_const] using hpress
  by_cases hlr : code.toNat = lshiftRelease
  · -- the key was down, and alone
    have hleft := hallowsLeft hlr
    rw [hlr] at hflag hheld ⊢
    have hrelease := shiftRight_release h hflag (Or.inl ⟨hleft, hheld⟩)
    have hno : ¬ (lshiftRelease = lshiftPress ∨ lshiftRelease = rshiftPress) := by decide
    exact ⟨⟨fun _ hpress => absurd hpress hno, fun _ => hrelease.right⟩, fun _ => hrelease⟩
  by_cases hrp : code.toNat = rshiftPress
  · rw [hrp] at hflag hheld ⊢
    have hpress := shiftRight_press h hflag (Or.inr hheld)
    simpa only [or_true, forall_const] using hpress
  by_cases hrr : code.toNat = rshiftRelease
  · have hright := hallowsRight hrr
    rw [hrr] at hflag hheld ⊢
    have hrelease := shiftRight_release h hflag (Or.inr ⟨hright, hheld⟩)
    have hno : ¬ (rshiftRelease = lshiftPress ∨ rshiftRelease = rshiftPress) := by decide
    exact ⟨⟨fun _ hpress => absurd hpress hno, fun _ => hrelease.right⟩, fun _ => hrelease⟩
  · -- no shift key: the flag and the two keys stay
    have hshift : ¬ (code.toNat = lshiftPress ∨ code.toNat = rshiftPress ∨
        code.toNat = lshiftRelease ∨ code.toNat = rshiftRelease) := by
      simp only [hlp, hlr, hrp, hrr, or_self, not_false_eq_true]
    rw [if_neg hshift] at hflag
    have hkeys : s'.held.leftShift = s.held.leftShift ∧
        s'.held.rightShift = s.held.rightShift := by
      rw [hheld, HeldKeys.after, if_neg hlp, if_neg hlr, if_neg hrp, if_neg hrr]
      simp only [apply_ite HeldKeys.leftShift, apply_ite HeldKeys.rightShift, ite_self, and_self]
    have hsame := h.of_same hflag hkeys.1 hkeys.2
    have hno : ¬ (code.toNat = lshiftPress ∨ code.toNat = rshiftPress) := by
      simp only [hlp, hrp, or_self, not_false_eq_true]
    exact ⟨⟨fun _ hpress => absurd hpress hno, fun _ => hsame.right⟩, fun _ => hsame⟩

/-- Every step. -/
theorem singleShift_step (h : s.SingleShift) (hstep : step img s e = some s') :
    (s'.ShiftRight ↔ OneShift s e s') ∧ (OneShift s e s' → s'.SingleShift) := by
  by_cases hkey : ∃ code res frame, e = .key code res frame
  · obtain ⟨code, res, frame, rfl⟩ := hkey
    exact singleShift_key h hstep
  · have hother : ∀ code res frame, e ≠ .key code res frame :=
      fun code res frame heq => hkey ⟨code, res, frame, heq⟩
    obtain ⟨hheld, hmodifiers⟩ := step_other hother hstep
    have hsame : s'.SingleShift := by
      apply h.of_same (congrArg Modifiers.shiftDown hmodifiers)
      · rw [hheld]
      · rw [hheld]
    have hone : OneShift s e s' := by
      cases e with
      | key code res frame => exact absurd rfl (hother code res frame)
      | _ => trivial
    exact ⟨⟨fun _ => hone, fun _ => hsame.right⟩, fun _ => hsame⟩

end Shift

/-- In every run of codes in which a shift key is released only while it is held, the flag is right
after every step exactly if no shift key is pressed, and no press repeated, while one is held. -/
theorem shiftRight_iff (img : FsImage) (espBoot : Word) (es : List ConsoleEvent) :
    AllSteps (step img) (fun _ _ s' => s'.ShiftRight) (boot espBoot) es ↔
      AllSteps (step img) OneShift (boot espBoot) es := by
  have hboot : SingleShift (boot espBoot) := ⟨rfl, fun hboth => Bool.false_ne_true hboth.1⟩
  apply allSteps_iff_of_invariant ?_ ?_ es hboot
  · intro s e s' h hstep
    exact (singleShift_step h hstep).1
  · intro s e s' h hstep hone
    exact (singleShift_step h hstep).2 hone

/-- The first shell is in a system call when a shift key is pressed and its make code repeats. -/
def shiftRepeats : List ConsoleEvent :=
  [.respawn emptyResidue ⟨0x7FFF00, 0x7F6300⟩, .openWindow,
    .key 0x36 emptyResidue ⟨0x7F7D00, 0x7EE100⟩, .advance,
    .key 0x36 emptyResidue ⟨0x7F7D00, 0x7EE100⟩]

/-- The repeated code clears the flag while the key is held. -/
theorem not_shiftRight_shiftRepeats :
    (∃ s, runFrom (step shellImage) (boot 0x7FFFC0) shiftRepeats = some s ∧
        s.held.shift = true ∧ s.console.kernel.kbd.shiftDown = false) ∧
      ¬ AllSteps (step shellImage) (fun _ _ s' => s'.ShiftRight) (boot 0x7FFFC0) shiftRepeats := by
  have hfinal : (runFrom (step shellImage) (boot 0x7FFFC0) shiftRepeats).map
      (fun s => (s.held.shift, s.console.kernel.kbd.shiftDown)) = some (true, false) := by
    decide
  obtain ⟨s, hrun, hs⟩ := Option.map_eq_some_iff.mp hfinal
  obtain ⟨hheld, hflag⟩ := Prod.mk.inj hs
  refine ⟨⟨s, hrun, hheld, hflag⟩, fun hall => ?_⟩
  have hboot : ShiftRight (boot 0x7FFFC0) := rfl
  have hright : s.ShiftRight :=
    invariant_of_allSteps (I := ShiftRight) (fun _ _ _ _ _ h => h) hboot hall hrun
  rw [ShiftRight, hheld, hflag] at hright
  cases hright

end Typist

end Ece391Os
