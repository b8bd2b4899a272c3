import Ece391Os.Properties.BlinkList
import Mathlib.Data.BitVec

/-!
# The display of blinking characters

How an entry goes on with each tick, and what its cell of the text memory shows while other calls
are made: `run_shows_phase` is about every run in which the entry is added and then not named
again, and `run_sync_shows_iff` about the entry that `RTC_SYNC` has put in step.
-/

set_option autoImplicit false

namespace Ece391Os

/-! ## Phases -/

namespace BlinkEntry

/-- The number of ticks that a length stands for. The countdown is compared as a signed number
behind the decrement, so zero and the upper half of the lengths end with the first tick. -/
def phaseTicks (length : BitVec 16) : Nat :=
  if length = 0 ∨ 2 ^ 15 < length.toNat then 1 else length.toNat

/-- The ticks from one time that an entry turns on to the next. -/
def period (e : BlinkEntry) : Nat := phaseTicks e.onLength + phaseTicks e.offLength

/-- An entry in its on phase, and in its off phase, behind `j` ticks of the phase. -/
def onFor (e : BlinkEntry) (j : Nat) : BlinkEntry :=
  { e with status := 1, countdown := e.onLength - BitVec.ofNat 16 j }

def offFor (e : BlinkEntry) (j : Nat) : BlinkEntry :=
  { e with status := 0, countdown := e.offLength - BitVec.ofNat 16 j }

/-- An entry `r` ticks behind a time that it has turned on. -/
def phase (e : BlinkEntry) (r : Nat) : BlinkEntry :=
  if r < phaseTicks e.onLength then e.onFor r else e.offFor (r - phaseTicks e.onLength)

section Phases

variable {e : BlinkEntry} {length : BitVec 16} {j r : Nat}

theorem phaseTicks_pos (length : BitVec 16) : 0 < phaseTicks length := by
  rw [phaseTicks]
  split
  next => exact Nat.one_pos
  next h =>
    refine Nat.pos_of_ne_zero fun hzero => h (Or.inl ?_)
    exact BitVec.eq_of_toNat_eq hzero

theorem countdown_sub (length : BitVec 16) (j : Nat) :
    length - BitVec.ofNat 16 j - 1 = length - BitVec.ofNat 16 (j + 1) := by
  rw [BitVec.ofNat_add, sub_sub]
  rfl

/-- A phase ends with its last tick. -/
theorem turns_iff (hj : j < phaseTicks length) (hcount : e.countdown = length - BitVec.ofNat 16 j) :
    e.turns ↔ j + 1 = phaseTicks length := by
  have hlt := length.isLt
  have hzero : length = 0 ↔ length.toNat = 0 := by
    rw [BitVec.toNat_eq]
    rfl
  have hj' : j < 2 ^ 16 := by
    rw [phaseTicks] at hj
    split at hj <;> omega
  have hone : (1 : BitVec 16).toNat = 1 := rfl
  have hnat : (e.countdown - 1).toNat = (2 ^ 16 - 1 + (2 ^ 16 - j + length.toNat)) % 2 ^ 16 := by
    rw [hcount, BitVec.toNat_sub, BitVec.toNat_sub, BitVec.toNat_ofNat, hone, Nat.add_mod_mod,
      Nat.mod_eq_of_lt hj']
  rw [turns, BitVec.toInt_eq_toNat_cond, hnat]
  rw [phaseTicks] at hj ⊢
  split at hj
  next h =>
    rw [if_pos h]
    rw [hzero] at h
    split <;> omega
  next h =>
    rw [if_neg h]
    rw [hzero] at h
    split <;> omega

theorem isOn_onFor (e : BlinkEntry) (j : Nat) : (e.onFor j).isOn := by
  show (1 : BitVec 16) &&& 1 ≠ 0
  decide

theorem not_isOn_offFor (e : BlinkEntry) (j : Nat) : ¬ (e.offFor j).isOn := by
  show ¬ (0 : BitVec 16) &&& 1 ≠ 0
  decide

theorem tick_onFor (hj : j < phaseTicks e.onLength) :
    (e.onFor j).tick = if j + 1 = phaseTicks e.onLength then e.offFor 0 else e.onFor (j + 1) := by
  have hturns : (e.onFor j).turns ↔ j + 1 = phaseTicks e.onLength := turns_iff hj rfl
  rw [tick]
  by_cases hlast : j + 1 = phaseTicks e.onLength
  · have hflip : (e.onFor j).status ^^^ 1 = 0 := by
      show (1 : BitVec 16) ^^^ 1 = 0
      decide
    rw [if_pos (hturns.mpr hlast), if_pos (isOn_onFor e j), if_pos hlast, hflip, offFor,
      BitVec.sub_zero]
    rfl
  · rw [if_neg (mt hturns.mp hlast), if_neg hlast]
    show { e with status := 1, countdown := e.onLength - BitVec.ofNat 16 j - 1 } = _
    rw [countdown_sub]
    rfl

theorem tick_offFor (hj : j < phaseTicks e.offLength) :
    (e.offFor j).tick = if j + 1 = phaseTicks e.offLength then e.onFor 0 else e.offFor (j + 1) := by
  have hturns : (e.offFor j).turns ↔ j + 1 = phaseTicks e.offLength := turns_iff hj rfl
  rw [tick]
  by_cases hlast : j + 1 = phaseTicks e.offLength
  · have hflip : (e.offFor j).status ^^^ 1 = 1 := by
      show (0 : BitVec 16) ^^^ 1 = 1
      decide
    rw [if_pos (hturns.mpr hlast), if_neg (not_isOn_offFor e j), if_pos hlast, hflip, onFor,
      BitVec.sub_zero]
    rfl
  · rw [if_neg (mt hturns.mp hlast), if_neg hlast]
    show { e with status := 0, countdown := e.offLength - BitVec.ofNat 16 j - 1 } = _
    rw [countdown_sub]
    rfl

theorem phase_zero (e : BlinkEntry) : e.phase 0 = e.started := by
  rw [phase, if_pos (phaseTicks_pos _), onFor, BitVec.sub_zero]
  rfl

/-- A tick goes on in the phase, to the next one, or back to the first one. -/
theorem tick_phase (hr : r < e.period) : (e.phase r).tick = e.phase ((r + 1) % e.period) := by
  have hon := phaseTicks_pos e.onLength
  have hoff := phaseTicks_pos e.offLength
  rw [period] at hr ⊢
  by_cases h : r < phaseTicks e.onLength
  · rw [Nat.mod_eq_of_lt (by omega), phase, if_pos h, tick_onFor h, phase]
    split
    next hlast => rw [if_neg (by omega), hlast, Nat.sub_self]
    next hlast => rw [if_pos (by omega)]
  · rw [phase, if_neg h, tick_offFor (by omega)]
    split
    next hlast =>
      have hround : r + 1 = phaseTicks e.onLength + phaseTicks e.offLength := by omega
      rw [hround, Nat.mod_self, phase, if_pos hon]
    next hlast =>
      rw [Nat.mod_eq_of_lt (by omega), phase, if_neg (by omega), Nat.sub_add_comm (by omega)]

/-- Ticks go round the period. -/
theorem tick_iterate (e : BlinkEntry) (k : Nat) : tick^[k] e.started = e.phase (k % e.period) := by
  induction k with
  | zero => rw [Function.iterate_zero, id, Nat.zero_mod, phase_zero]
  | succ k ih =>
      have hpos : 0 < e.period := Nat.add_pos_left (phaseTicks_pos _) _
      rw [Function.iterate_succ_apply', ih, tick_phase (Nat.mod_lt k hpos), Nat.mod_add_mod]

theorem cell_phase (e : BlinkEntry) (r : Nat) : (e.phase r).cell = e.cell := by
  rw [phase]
  split <;> rfl

theorem char_phase (e : BlinkEntry) (r : Nat) :
    (e.phase r).char = if r < phaseTicks e.onLength then e.onChar else e.offChar := by
  rw [phase]
  split
  next => exact if_pos (isOn_onFor e r)
  next => exact if_neg (not_isOn_offFor e _)

end Phases

end BlinkEntry

/-! ## The cell of an entry -/

/-- The call neither adds nor removes an entry at the location, nor puts one there in step. -/
def BlinkCall.Leaves (location : BitVec 16) : BlinkCall → Prop
  | .add arg => arg.location ≠ location
  | .remove arg => arg.setWidth 16 ≠ location
  | .find _ => True
  | .sync arg => arg.setWidth 16 ≠ location
  | .tasklet => True

/-- The number of ticks. -/
def BlinkCall.ticks : List BlinkCall → Nat
  | [] => 0
  | .tasklet :: cs => ticks cs + 1
  | _ :: cs => ticks cs

namespace BlinkBoard

/-- `e` is the one entry at the location. -/
def Holds (b : BlinkBoard) (location : BitVec 16) (e : BlinkEntry) : Prop :=
  b.entries.filter (fun x => x.location = location) = [e]

/-- The cell of the entry shows its phase. -/
def Shows (b : BlinkBoard) (e : BlinkEntry) : Prop := b.vmem e.cell = e.char

section Cells

variable {b : BlinkBoard} {location : BitVec 16} {e : BlinkEntry}

theorem Holds.location_eq (h : b.Holds location e) : e.location = location := by
  have hmem : e ∈ b.entries.filter fun x => x.location = location := by
    rw [h]
    exact List.mem_singleton_self e
  exact of_decide_eq_true (List.mem_filter.mp hmem).2

theorem Holds.at?_eq (h : b.Holds location e) : b.at? location = some e := by
  rw [at?, ← List.head?_filter, h]
  rfl

theorem location_of_at? (h : b.at? location = some e) : e.location = location := by
  rw [at?] at h
  have hfound := List.find?_some h
  exact of_decide_eq_true hfound

/-- Cells of other locations. -/
theorem cell_ne {x : BlinkEntry} (h : x.location ≠ e.location) : x.cell ≠ e.cell := by
  intro hcell
  rw [BlinkEntry.cell, BlinkEntry.cell] at hcell
  exact h (BitVec.eq_of_toNat_eq (by omega))

/-- The elements of another kind. -/
theorem filter_eraseP {α : Type} {p q : α → Bool} (h : ∀ a, p a = true → ¬ q a = true)
    (l : List α) : (l.eraseP p).filter q = l.filter q := by
  induction l with
  | nil => rfl
  | cons a l ih =>
      rw [List.eraseP_cons]
      cases hp : p a with
      | true => rw [cond_true, List.filter_cons_of_neg (h a hp)]
      | false => rw [cond_false, List.filter_cons, List.filter_cons, ih]

theorem filter_modifyFirst {α : Type} {p q : α → Bool} {f : α → α}
    (h : ∀ a, p a = true → ¬ q a = true ∧ ¬ q (f a) = true) (l : List α) :
    (modifyFirst p f l).filter q = l.filter q := by
  induction l with
  | nil => rfl
  | cons a l ih =>
      rw [modifyFirst]
      split
      next hp => rw [List.filter_cons_of_neg (h a hp).1, List.filter_cons_of_neg (h a hp).2]
      next => rw [List.filter_cons, List.filter_cons, ih]

theorem turn_of_ne {x : BlinkEntry} {c : Nat} (v : Nat → UInt8) (h : c ≠ x.cell) :
    turn v x c = v c := by
  rw [turn]
  split
  next => exact Function.update_of_ne h _ _
  next => rfl

/-- The ticks of the other entries do not reach the cell. -/
theorem foldl_turn_filter (l : List BlinkEntry) {v v' : Nat → UInt8} {location : BitVec 16}
    (h : v (2 * location.toNat) = v' (2 * location.toNat)) :
    (l.foldl turn v) (2 * location.toNat) =
      ((l.filter fun x => x.location = location).foldl turn v') (2 * location.toNat) := by
  induction l generalizing v v' with
  | nil => exact h
  | cons x l ih =>
      by_cases hx : x.location = location
      · rw [List.filter_cons, if_pos (decide_eq_true hx), List.foldl_cons, List.foldl_cons]
        apply ih
        have hcell : x.cell = 2 * location.toNat := by
          rw [BlinkEntry.cell, hx]
        rw [turn, turn, ← hcell]
        split
        next => rw [Function.update_self, Function.update_self]
        next => rw [hcell, h]
      · have hne : ¬ decide (x.location = location) = true := by
          rwa [decide_eq_true_eq]
        rw [List.filter_cons, if_neg hne, List.foldl_cons]
        apply ih
        rw [turn_of_ne v fun hcell => hx (BitVec.eq_of_toNat_eq ?_), h]
        rw [BlinkEntry.cell] at hcell
        omega

/-- A tick shows the phase behind it. -/
theorem turn_eq_char {v : Nat → UInt8} (h : v e.cell = e.char) : turn v e e.cell = e.tick.char := by
  rw [turn]
  split
  next => exact Function.update_self _ _ _
  next hturns =>
    rw [h, BlinkEntry.char, BlinkEntry.char, BlinkEntry.onChar_tick, BlinkEntry.offChar_tick]
    exact if_congr (BlinkEntry.isOn_tick_of_not_turns hturns).symm rfl rfl

/-- What a call makes of an entry that it leaves. -/
def after (e : BlinkEntry) : BlinkCall → BlinkEntry
  | .tasklet => e.tick
  | _ => e

/-- A call leaves the entry alone, or ticks it, and its cell shows it. -/
theorem Holds.call {c : BlinkCall} (h : b.Holds location e) (hshows : b.Shows e)
    (hc : c.Leaves location) :
    (b.call c).1.Holds location (after e c) ∧ (b.call c).1.Shows (after e c) := by
  -- entries at other locations have other cells, so that only a tick writes to this one
  have hother : ∀ x : BlinkEntry, x.location ≠ location → e.cell ≠ x.cell := by
    intro x hx
    rw [← h.location_eq] at hx
    exact (cell_ne hx).symm
  cases c with
  | add arg =>
      rw [BlinkBoard.call]
      split
      next =>
        refine ⟨?_, (Function.update_of_ne (hother _ hc) _ _).trans hshows⟩
        have hne : ¬ decide (arg.started.location = location) = true := by
          rw [decide_eq_true_eq]
          exact hc
        rw [Holds, List.filter_cons, if_neg hne]
        exact h
      next => exact ⟨h, hshows⟩
  | remove arg =>
      rw [BlinkBoard.call]
      split
      next => exact ⟨h, hshows⟩
      next =>
        refine ⟨?_, hshows⟩
        rw [Holds, filter_eraseP]
        · exact h
        · intro x hx
          rw [decide_eq_true_eq] at hx ⊢
          rw [hx]
          exact hc
  | find _ =>
      rw [BlinkBoard.call]
      split <;> exact ⟨h, hshows⟩
  | sync arg =>
      rw [BlinkBoard.call]
      split
      next a x _ hx =>
        have hlocation : x.location = arg.setWidth 16 := location_of_at? hx
        refine ⟨?_, (Function.update_of_ne (hother x ?_) _ _).trans hshows⟩
        · rw [Holds, filter_modifyFirst]
          · exact h
          · intro y hy
            rw [decide_eq_true_eq] at hy
            have hne : ¬ decide (y.location = location) = true := by
              rw [decide_eq_true_eq, hy]
              exact hc
            exact ⟨hne, hne⟩
        · rw [hlocation]
          exact hc
      next => exact ⟨h, hshows⟩
  | tasklet =>
      constructor
      · rw [Holds, BlinkBoard.call, List.filter_map]
        have hsame : ((fun x : BlinkEntry => decide (x.location = location)) ∘ BlinkEntry.tick) =
            fun x => decide (x.location = location) := by
          funext x
          rw [Function.comp_apply, BlinkEntry.location_tick]
        rw [hsame, h]
        rfl
      · -- all entries are turned in their order; those of other cells drop out
        have hcell : e.cell = 2 * location.toNat := by
          rw [BlinkEntry.cell, h.location_eq]
        have htick : e.tick.cell = e.cell := by
          rw [BlinkEntry.cell, BlinkEntry.location_tick, BlinkEntry.cell]
        show b.entries.foldl turn b.vmem e.tick.cell = e.tick.char
        rw [htick, ← turn_eq_char hshows, hcell, foldl_turn_filter b.entries rfl, h]
        rfl

/-- Over a run of such calls the entry is ticked as often as the tasklet is called. -/
theorem Holds.run {cs : List BlinkCall} (h : b.Holds location e) (hshows : b.Shows e)
    (hcs : ∀ c ∈ cs, c.Leaves location) :
    (b.run cs).1.Shows (BlinkEntry.tick^[BlinkCall.ticks cs] e) := by
  induction cs generalizing b e with
  | nil => exact hshows
  | cons c cs ih =>
      obtain ⟨hholds, hshows'⟩ := h.call hshows (hcs c List.mem_cons_self)
      have hrest := ih hholds hshows' fun c' hc' => hcs c' (List.mem_cons_of_mem c hc')
      cases c with
      | tasklet =>
          rw [BlinkCall.ticks, Function.iterate_succ_apply]
          exact hrest
      | add arg => exact hrest
      | remove arg => exact hrest
      | find location => exact hrest
      | sync arg => exact hrest

theorem run_append (b : BlinkBoard) (cs ds : List BlinkCall) :
    (b.run (cs ++ ds)).1 = ((b.run cs).1.run ds).1 := by
  induction cs generalizing b with
  | nil => rfl
  | cons c cs ih =>
      rw [List.cons_append, run, run]
      exact ih (b.call c).1

/-- The first entry of a kind behind its change. -/
theorem find?_modifyFirst {α : Type} {p : α → Bool} {f : α → α} (h : ∀ a, p (f a) = p a)
    (l : List α) : (modifyFirst p f l).find? p = (l.find? p).map f := by
  induction l with
  | nil => rfl
  | cons a l ih =>
      rw [modifyFirst, List.find?_cons]
      cases hp : p a with
      | true => rw [if_pos rfl, List.find?_cons, h, hp]; rfl
      | false => rw [if_neg Bool.false_ne_true, List.find?_cons, hp, ih]

/-- A new entry is the one at its location, and its cell shows it. -/
theorem holds_add {arg : BlinkStruct} (hloc : arg.location.toNat < 2000)
    (hroom : b.entries.length < 2000) (hnew : b.at? arg.location = none) :
    (b.call (.add arg)).1.Holds arg.location arg.started ∧
      (b.call (.add arg)).1.Shows arg.started := by
  have hstarted : arg.started.isOn := by
    show (1 : BitVec 16) &&& 1 ≠ 0
    decide
  have hsame : decide (arg.started.location = arg.location) = true := decide_eq_true rfl
  have hnone : b.entries.filter (fun x => x.location = arg.location) = [] := by
    rw [List.filter_eq_nil_iff]
    rw [at?] at hnew
    exact List.find?_eq_none.mp hnew
  rw [BlinkBoard.call, if_pos ⟨hloc, hroom⟩]
  constructor
  · rw [Holds, List.filter_cons, if_pos hsame, hnone]
  · rw [Shows, BlinkEntry.char, if_pos hstarted]
    exact Function.update_self _ _ _

end Cells

end BlinkBoard

namespace Blink

variable {fuel : Nat} {vmem : Nat → UInt8} {cs ds : List BlinkCall}

/-- Between the time that an entry is added and the next call that names it to change it, its cell
shows the two characters in turn, each for as many ticks as its length stands for, whatever else is
called. -/
theorem run_shows_phase {arg : BlinkStruct} (hcs : ∀ c ∈ cs, c.Placed)
    (hroom : (BlinkBoard.run ⟨[], vmem⟩ cs).1.entries.length < 2000)
    (hnew : (BlinkBoard.run ⟨[], vmem⟩ cs).1.at? arg.location = none)
    (hloc : arg.location.toNat < 2000) (hne : arg.location ≠ 0) (hds : ∀ c ∈ ds, c.Placed)
    (hleaves : ∀ c ∈ ds, c.Leaves arg.location) (hfuel : 2000 < fuel) :
    ∃ s rs, (cleared vmem).run fuel (cs ++ .add arg :: ds) = some (s, rs) ∧
      s.vmem (2 * arg.location.toNat) =
        if BlinkCall.ticks ds % arg.period < BlinkEntry.phaseTicks arg.onLength then arg.onChar
        else arg.offChar := by
  have hplaced : ∀ c ∈ cs ++ .add arg :: ds, c.Placed := by
    intro c hc
    rw [List.mem_append, List.mem_cons] at hc
    rcases hc with hc | rfl | hc
    · exact hcs c hc
    · exact hne
    · exact hds c hc
  obtain ⟨s, rs, heq, -, hvmem⟩ := run_refines vmem hplaced hfuel
  refine ⟨s, rs, heq, ?_⟩
  obtain ⟨hholds, hshows⟩ := BlinkBoard.holds_add hloc hroom hnew
  have hrun := hholds.run hshows hleaves
  rw [BlinkEntry.tick_iterate] at hrun
  rw [hvmem, BlinkBoard.run_append, ← BlinkEntry.char_phase, ← hrun, BlinkEntry.cell_phase]
  rfl

/-- The structure of `main` behind its first seven ticks. -/
theorem run_shows_phase_mainBlink : ∃ s rs,
    (cleared fun _ => 0).run 2001 ([] ++ .add mainBlink :: List.replicate 7 .tasklet) =
      some (s, rs) ∧ s.vmem (2 * 540) = 77 := by
  have htasklet : ∀ c ∈ List.replicate 7 BlinkCall.tasklet, c = .tasklet :=
    fun _ => List.eq_of_mem_replicate
  exact run_shows_phase (fun _ hc => absurd hc List.not_mem_nil) (by decide) (by decide)
    (by decide) (by decide) (fun c hc => by rw [htasklet c hc]; trivial)
    (fun c hc => by rw [htasklet c hc]; trivial) (Nat.lt_succ_self 2000)

/-- `RTC_SYNC` puts the entry in the phase of the other one and shows its off character. That is the
character of the phase exactly if the other entry is not in its on phase, or the two characters
agree. -/
theorem run_sync_shows_iff {arg : Word} {a e : BlinkEntry} (hcs : ∀ c ∈ cs, c.Placed)
    (hsrc : (BlinkBoard.run ⟨[], vmem⟩ cs).1.at? ((arg >>> 16).setWidth 16) = some a)
    (hdst : (BlinkBoard.run ⟨[], vmem⟩ cs).1.at? (arg.setWidth 16) = some e)
    (hfuel : 2000 < fuel) :
    ∃ s rs x, (cleared vmem).run fuel (cs ++ [.sync arg]) = some (s, rs) ∧
      s.find fuel (arg.setWidth 16) = some ⟨0, some x⟩ ∧ x.toBlinkEntry = a.synced e ∧
      s.vmem x.cell = e.offChar ∧
      (s.vmem x.cell = x.char ↔ (a.isOn → e.onChar = e.offChar)) := by
  have hplaced : ∀ c ∈ cs ++ [.sync arg], c.Placed := by
    intro c hc
    rw [List.mem_append, List.mem_singleton] at hc
    rcases hc with hc | rfl
    · exact hcs c hc
    · trivial
  obtain ⟨s, rs, l, heq, hrep, -⟩ := (represents_cleared vmem).run hplaced hfuel
  rw [BlinkBoard.run_append] at hrep
  generalize (BlinkBoard.run ⟨[], vmem⟩ cs).1 = b at hsrc hdst hrep
  have hboard : (b.run [.sync arg]).1 =
      ⟨modifyFirst (fun x => x.location = arg.setWidth 16) a.synced b.entries,
        Function.update b.vmem e.cell e.offChar⟩ := by
    rw [BlinkBoard.run, BlinkBoard.call, hsrc, hdst]
    rfl
  rw [hboard] at hrep
  have hsame : ∀ x : BlinkEntry, decide ((a.synced x).location = arg.setWidth 16) =
      decide (x.location = arg.setWidth 16) := fun _ => rfl
  have hfound : BlinkBoard.at?
      ⟨modifyFirst (fun x => x.location = arg.setWidth 16) a.synced b.entries,
        Function.update b.vmem e.cell e.offChar⟩ (arg.setWidth 16) = some (a.synced e) :=
    (BlinkBoard.find?_modifyFirst hsame b.entries).trans (congrArg (Option.map a.synced) hdst)
  obtain ⟨⟨eax, copied⟩, hr, hanswer⟩ := hrep.find (arg.setWidth 16) hfuel
  rw [BlinkBoard.call, hfound] at hanswer
  obtain ⟨rfl, hcopied⟩ := Prod.mk.inj hanswer
  obtain ⟨x, rfl, hx⟩ := Option.map_eq_some_iff.mp hcopied
  have hshown : s.vmem x.cell = e.offChar := by
    rw [hx, ← hrep.vmem]
    exact Function.update_self _ _ _
  refine ⟨s, rs, x, heq, hr, hx, hshown, ?_⟩
  rw [hshown, hx]
  show e.offChar = (if a.isOn then e.onChar else e.offChar) ↔ _
  by_cases hon : a.isOn
  · rw [if_pos hon]
    exact ⟨fun heq _ => heq.symm, fun himp => (himp hon).symm⟩
  · rw [if_neg hon]
    exact iff_of_true rfl fun h => absurd h hon

/-- A structure at the location that `main` puts the added one in step with. -/
def frameBlink : BlinkStruct := { mainBlink with location := 40 }

/-- The structure of `main` put in step with one that is on. -/
theorem run_sync_shows_mainBlink : ∃ s rs x,
    (cleared fun _ => 0).run 2001
      ([.add frameBlink, .add mainBlink] ++ [.sync (40 <<< 16 ||| 540)]) = some (s, rs) ∧
      s.find 2001 540 = some ⟨0, some x⟩ ∧ s.vmem x.cell ≠ x.char := by
  have hplaced : ∀ c : BlinkCall, c ∈ [.add frameBlink, .add mainBlink] → c.Placed := by
    intro c hc
    simp only [List.mem_cons, List.not_mem_nil, or_false] at hc
    rcases hc with rfl | rfl
    · show frameBlink.location ≠ 0
      decide
    · show mainBlink.location ≠ 0
      decide
  have hsrc : (BlinkBoard.run ⟨[], fun _ => 0⟩ [.add frameBlink, .add mainBlink]).1.at?
      (((40 <<< 16 ||| 540 : Word) >>> 16).setWidth 16) = some frameBlink.started := by
    decide
  have hdst : (BlinkBoard.run ⟨[], fun _ => 0⟩ [.add frameBlink, .add mainBlink]).1.at?
      ((40 <<< 16 ||| 540 : Word).setWidth 16) = some mainBlink.started := by
    decide
  obtain ⟨s, rs, x, heq, hfind, -, -, hiff⟩ :=
    run_sync_shows_iff hplaced hsrc hdst (Nat.lt_succ_self 2000)
  refine ⟨s, rs, x, heq, hfind, fun hshows => ?_⟩
  exact absurd (hiff.mp hshows (by decide)) (by decide)

end Blink

end Ece391Os
