import Ece391Os.Library.PointerChain
import Ece391Os.Model.Blink
import Mathlib.Data.Fintype.Card

/-!
# The list of blinking characters

What the pointers of the nodes stand for is a board: a list of entries and the text memory. The
operations of the pointer structure are operations of the board, and come back, as long as
`mp1_malloc` hands out no node that is in the list. A node at location zero is in the list and free
at once, so `run_refines` is about the runs that add nothing there, and `run_add_add_tasklet_iff`
says what becomes of the other ones with the next addition.
-/

set_option autoImplicit false

namespace Ece391Os

open PointerChain

/-! ## The board -/

namespace BlinkEntry

/-- The character is the one for on. -/
def isOn (e : BlinkEntry) : Prop := e.status &&& 1 ≠ 0

instance (e : BlinkEntry) : Decidable e.isOn := inferInstanceAs (Decidable (_ ≠ _))

/-- The character of the phase. -/
def char (e : BlinkEntry) : UInt8 := if e.isOn then e.onChar else e.offChar

/-- The offset of the character in the text memory. -/
def cell (e : BlinkEntry) : Nat := 2 * e.location.toNat

/-- The next tick ends the phase. -/
def turns (e : BlinkEntry) : Prop := ¬ 0 < (e.countdown - 1).toInt

instance (e : BlinkEntry) : Decidable e.turns := inferInstanceAs (Decidable (¬ _))

/-- An entry behind a tick. -/
def tick (e : BlinkEntry) : BlinkEntry :=
  if e.turns then
    { e with
      countdown := if e.isOn then e.offLength else e.onLength
      status := e.status ^^^ 1 }
  else { e with countdown := e.countdown - 1 }

theorem isOn_iff (e : BlinkEntry) : e.isOn ↔ e.status.getLsbD 0 = true := by
  have hbit : e.status &&& 1 = BitVec.setWidth 16 (BitVec.ofBool (e.status.getLsbD 0)) :=
    BitVec.and_one_eq_setWidth_ofBool_getLsbD
  rw [isOn, hbit]
  cases e.status.getLsbD 0 <;> decide

/-- The phase changes at the tick that ends it. -/
theorem isOn_tick_of_turns {e : BlinkEntry} (h : e.turns) : e.tick.isOn ↔ ¬ e.isOn := by
  have hstatus : e.tick.status = e.status ^^^ 1 := by
    rw [tick, if_pos h]
  have hone : BitVec.getLsbD (1 : BitVec 16) 0 = true := rfl
  rw [isOn_iff, isOn_iff, hstatus, BitVec.getLsbD_xor, hone, Bool.xor_true, Bool.not_eq_true',
    Bool.not_eq_true]

theorem isOn_tick_of_not_turns {e : BlinkEntry} (h : ¬ e.turns) : e.tick.isOn ↔ e.isOn := by
  rw [tick, if_neg h]
  exact Iff.rfl

@[simp] theorem location_tick (e : BlinkEntry) : e.tick.location = e.location := by
  rw [tick]
  split <;> rfl

@[simp] theorem onChar_tick (e : BlinkEntry) : e.tick.onChar = e.onChar := by
  rw [tick]
  split <;> rfl

@[simp] theorem offChar_tick (e : BlinkEntry) : e.tick.offChar = e.offChar := by
  rw [tick]
  split <;> rfl

theorem char_tick_of_turns {e : BlinkEntry} (h : e.turns) :
    e.tick.char = if e.isOn then e.offChar else e.onChar := by
  rw [char, onChar_tick, offChar_tick]
  by_cases hon : e.isOn
  · rw [if_neg fun htick => (isOn_tick_of_turns h).mp htick hon, if_pos hon]
  · rw [if_pos ((isOn_tick_of_turns h).mpr hon), if_neg hon]

/-- An entry that is added. -/
def started (e : BlinkEntry) : BlinkEntry := { e with status := 1, countdown := e.onLength }

/-- An entry that is put in step with another one. -/
def synced (a e : BlinkEntry) : BlinkEntry :=
  { e with
    onLength := a.onLength
    offLength := a.offLength
    countdown := a.countdown
    status := a.status }

end BlinkEntry

/-- The first element of a kind is changed. -/
def modifyFirst {α : Type} (p : α → Bool) (f : α → α) : List α → List α
  | [] => []
  | a :: l => if p a = true then f a :: l else a :: modifyFirst p f l

theorem modifyFirst_append {α : Type} {p : α → Bool} {f : α → α} {l₁ l₂ : List α} {a : α}
    (hbefore : ∀ b ∈ l₁, ¬ p b = true) (ha : p a = true) :
    modifyFirst p f (l₁ ++ a :: l₂) = l₁ ++ f a :: l₂ := by
  induction l₁ with
  | nil => exact if_pos ha
  | cons b l₁ ih =>
      rw [List.cons_append, modifyFirst, if_neg (hbefore b List.mem_cons_self),
        ih fun c hc => hbefore c (List.mem_cons_of_mem b hc)]
      rfl

/-- The entries, the last one added first, and the text memory. -/
structure BlinkBoard where
  entries : List BlinkEntry
  vmem : Nat → UInt8

namespace BlinkBoard

/-- The entry that a location names. -/
def at? (b : BlinkBoard) (location : BitVec 16) : Option BlinkEntry :=
  b.entries.find? fun e => e.location = location

/-- The text memory behind the tick of an entry. -/
def turn (vmem : Nat → UInt8) (e : BlinkEntry) : Nat → UInt8 :=
  if e.turns then Function.update vmem e.cell e.tick.char else vmem

/-- A call. -/
def call (b : BlinkBoard) : BlinkCall → BlinkBoard × Int × Option BlinkEntry
  | .add arg =>
      if arg.location.toNat < 2000 ∧ b.entries.length < 2000 then
        (⟨arg.started :: b.entries, Function.update b.vmem arg.cell arg.onChar⟩, 0, none)
      else (b, -1, none)
  | .remove arg =>
      match b.at? (arg.setWidth 16) with
      | none => (b, -1, none)
      | some _ =>
          ({ b with entries := b.entries.eraseP fun e => e.location = arg.setWidth 16 }, 0, none)
  | .find location =>
      match b.at? location with
      | none => (b, -1, none)
      | some e => (b, 0, some e)
  | .sync arg =>
      match b.at? ((arg >>> 16).setWidth 16), b.at? (arg.setWidth 16) with
      | some a, some e =>
          (⟨modifyFirst (fun e => e.location = arg.setWidth 16) a.synced b.entries,
            Function.update b.vmem e.cell e.offChar⟩, 0, none)
      | _, _ => (b, -1, none)
  | .tasklet => (⟨b.entries.map BlinkEntry.tick, b.entries.foldl turn b.vmem⟩, 0, none)

/-- Calls one after the other. -/
def run : BlinkBoard → List BlinkCall → BlinkBoard × List (Int × Option BlinkEntry)
  | b, [] => (b, [])
  | b, c :: cs =>
      let (b, r) := b.call c
      let (b, rs) := b.run cs
      (b, r :: rs)

end BlinkBoard

/-- What a result says of the entries. -/
def BlinkResult.answer (r : BlinkResult) : Int × Option BlinkEntry :=
  (r.eax, r.copied.map fun e => e.toBlinkEntry)

/-- Nothing is added at location zero. -/
def BlinkCall.Placed : BlinkCall → Prop
  | .add arg => arg.location ≠ 0
  | _ => True

/-! ## Loops over a list -/

namespace Blink

/-- The pointers of the nodes. -/
def links (s : Blink) : BlinkNode → Option BlinkNode := fun i => (s.array i).next

section Loops

variable {s : Blink} {l : List BlinkNode} {p : Option BlinkNode} {i : BlinkNode} {fuel : Nat}

theorem findHelper_eq {location : BitVec 16} (h : IsList s.links p l) (hfuel : l.length < fuel) :
    s.findHelper location fuel p = some (l.find? fun i => (s.array i).location = location) := by
  induction l generalizing p fuel with
  | nil =>
      obtain rfl : p = none := h
      cases fuel with
      | zero => exact absurd hfuel (Nat.not_lt_zero _)
      | succ fuel => rfl
  | cons i l ih =>
      obtain ⟨rfl, hrest⟩ := h
      cases fuel with
      | zero => exact absurd hfuel (Nat.not_lt_zero _)
      | succ fuel =>
          rw [findHelper, List.find?_cons]
          by_cases hloc : (s.array i).location = location
          · rw [if_pos hloc, decide_eq_true hloc]
          · rw [if_neg hloc, decide_eq_false hloc]
            exact ih hrest (Nat.lt_of_succ_lt_succ hfuel)

/-- The walk for the pointer to a node ends at the node before it. -/
theorem findPrev_eq {place : Option BlinkNode} (h : IsPath s.links (s.pointerAt place) l (some i))
    (hi : i ∉ l) (hfuel : l.length < fuel) :
    s.findPrev i fuel place = some (l.getLast?.or place) := by
  induction l generalizing place fuel with
  | nil =>
      cases fuel with
      | zero => exact absurd hfuel (Nat.not_lt_zero _)
      | succ fuel =>
          have hplace : s.pointerAt place = some i := h
          rw [findPrev, if_pos hplace]
          rfl
  | cons j l ih =>
      obtain ⟨hplace, hrest⟩ := h
      cases fuel with
      | zero => exact absurd hfuel (Nat.not_lt_zero _)
      | succ fuel =>
          have hne : s.pointerAt place ≠ some i := by
            rw [hplace]
            exact fun heq => hi (Option.some.inj heq ▸ List.mem_cons_self)
          rw [findPrev, if_neg hne, hplace]
          simp only
          have hnext : IsPath s.links (s.pointerAt (some j)) l (some i) := hrest
          rw [ih hnext (fun hmem => hi (List.mem_cons_of_mem j hmem))
            (Nat.lt_of_succ_lt_succ hfuel)]
          cases l with
          | nil => rfl
          | cons j' l => rw [List.getLast?_cons_cons]; rfl

/-- A turn of the loop is a tick of the entry. -/
theorem taskletNode_eq (s : Blink) (i : BlinkNode) :
    s.taskletNode i =
      { s with
        array := Function.update s.array i
          { s.array i with toBlinkEntry := (s.array i).toBlinkEntry.tick }
        vmem := BlinkBoard.turn s.vmem (s.array i).toBlinkEntry } := by
  have hpos : 0 < ((s.array i).countdown - 1).toInt ↔ ¬ (s.array i).toBlinkEntry.turns :=
    not_not.symm
  have hon : (s.array i).status &&& 1 ≠ 0 ↔ (s.array i).toBlinkEntry.isOn := Iff.rfl
  simp only [taskletNode, hpos, hon, BlinkBoard.turn]
  by_cases hturns : (s.array i).toBlinkEntry.turns
  · rw [if_neg (not_not.mpr hturns), if_pos hturns, BlinkEntry.char_tick_of_turns hturns,
      BlinkEntry.tick, if_pos hturns]
    by_cases hison : (s.array i).toBlinkEntry.isOn
    · rw [if_pos hison, if_pos hison, if_pos hison]
      rfl
    · rw [if_neg hison, if_neg hison, if_neg hison]
      rfl
  · rw [if_pos hturns, if_neg hturns, BlinkEntry.tick, if_neg hturns]
    rfl

@[simp] theorem links_taskletNode (s : Blink) (i : BlinkNode) :
    (s.taskletNode i).links = s.links := by
  funext j
  rw [taskletNode_eq, links, links]
  simp only
  rcases eq_or_ne j i with rfl | hne
  · rw [Function.update_self]
  · rw [Function.update_of_ne hne]

/-- The loop takes the nodes of a list one after the other. -/
theorem taskletLoop_eq (h : IsList s.links p l) (hfuel : l.length < fuel) :
    taskletLoop fuel s p = some (l.foldl taskletNode s) := by
  induction l generalizing s p fuel with
  | nil =>
      obtain rfl : p = none := h
      cases fuel with
      | zero => exact absurd hfuel (Nat.not_lt_zero _)
      | succ fuel => rfl
  | cons i l ih =>
      obtain ⟨rfl, hrest⟩ := h
      cases fuel with
      | zero => exact absurd hfuel (Nat.not_lt_zero _)
      | succ fuel =>
          have hlinks := links_taskletNode s i
          rw [← hlinks] at hrest
          exact ih hrest (Nat.lt_of_succ_lt_succ hfuel)

/-- A loop that ends has gone through a list. -/
theorem isList_of_taskletLoop {s' : Blink} (h : taskletLoop fuel s p = some s') :
    ∃ l, IsList s.links p l := by
  induction fuel generalizing s p with
  | zero => exact absurd h (Option.some_ne_none s').symm
  | succ fuel ih =>
      cases p with
      | none => exact ⟨[], rfl⟩
      | some i =>
          obtain ⟨l, hl⟩ := ih h
          rw [links_taskletNode] at hl
          have hnext : ((s.taskletNode i).array i).next = s.links i :=
            congrFun (links_taskletNode s i) i
          exact ⟨i :: l, rfl, hnext ▸ hl⟩

/-- What the loop leaves. -/
theorem foldl_taskletNode (hl : l.Nodup) (s : Blink) :
    l.foldl taskletNode s =
      { s with
        array := fun i => if i ∈ l then
          { s.array i with toBlinkEntry := (s.array i).toBlinkEntry.tick } else s.array i
        vmem := (l.map fun i => (s.array i).toBlinkEntry).foldl BlinkBoard.turn s.vmem } := by
  induction l generalizing s with
  | nil => simp only [List.foldl_nil, List.map_nil, List.not_mem_nil, if_false]
  | cons i l ih =>
      obtain ⟨hi, hl⟩ := List.nodup_cons.mp hl
      have hkept : ∀ j ∈ l, (s.taskletNode i).array j = s.array j := by
        intro j hj
        rw [taskletNode_eq]
        exact Function.update_of_ne (ne_of_mem_of_not_mem hj hi) _ _
      have hmap : (l.map fun j => ((s.taskletNode i).array j).toBlinkEntry) =
          l.map fun j => (s.array j).toBlinkEntry :=
        List.map_congr_left fun j hj => by rw [hkept j hj]
      have harray : (fun j => if j ∈ l then { (s.taskletNode i).array j with
            toBlinkEntry := ((s.taskletNode i).array j).toBlinkEntry.tick }
          else (s.taskletNode i).array j) = fun j => if j ∈ i :: l then
            { s.array j with toBlinkEntry := (s.array j).toBlinkEntry.tick } else s.array j := by
        funext j
        rcases eq_or_ne j i with rfl | hne
        · rw [if_neg hi, if_pos List.mem_cons_self, taskletNode_eq]
          exact Function.update_self _ _ _
        · have hnode : (s.taskletNode i).array j = s.array j := by
            rw [taskletNode_eq]
            exact Function.update_of_ne hne _ _
          rw [hnode]
          simp only [List.mem_cons, hne, false_or]
      rw [List.foldl_cons, ih hl, hmap, harray, taskletNode_eq]
      rfl

end Loops

/-! ## What the nodes stand for -/

/-- The nodes `l` of the list stand for the entries of a board. All other nodes are free, and no
node of the list is. -/
structure Represents (s : Blink) (l : List BlinkNode) (b : BlinkBoard) : Prop where
  list : IsList s.links s.listHead l
  entries : b.entries = l.map fun i => (s.array i).toBlinkEntry
  vmem : b.vmem = s.vmem
  free : ∀ i, i ∉ l → (s.array i).location = 0
  used : ∀ i ∈ l, (s.array i).location ≠ 0

section Represents

variable {s : Blink} {l : List BlinkNode} {b : BlinkBoard} {i : BlinkNode} {fuel : Nat}

theorem represents_cleared (vmem : Nat → UInt8) :
    (cleared vmem).Represents [] ⟨[], vmem⟩ where
  list := rfl
  entries := rfl
  vmem := rfl
  free _ _ := rfl
  used _ hi := absurd hi List.not_mem_nil

/-- A list of distinct nodes is no longer than the array. -/
theorem length_le_of_nodup (h : l.Nodup) : l.length ≤ 2000 :=
  h.length_le_card.trans_eq (Fintype.card_fin 2000)

theorem Represents.length_lt (h : s.Represents l b) (hfuel : 2000 < fuel) : l.length < fuel :=
  Nat.lt_of_le_of_lt (length_le_of_nodup h.list.nodup) hfuel

/-- The first node of a kind is the first entry of it. -/
theorem Represents.find_entries (h : s.Represents l b) (location : BitVec 16) :
    b.at? location =
      (l.find? fun i => (s.array i).location = location).map fun i => (s.array i).toBlinkEntry := by
  rw [BlinkBoard.at?, h.entries, List.find?_map]
  rfl

theorem malloc_eq_some (h : s.malloc = some i) : (s.array i).location = 0 := by
  rw [malloc] at h
  have hzero := List.find?_some h
  exact of_decide_eq_true hzero

/-- A node that is handed out is not in the list. -/
theorem Represents.not_mem_of_malloc (h : s.Represents l b) (hmalloc : s.malloc = some i) :
    i ∉ l :=
  fun hi => h.used i hi (malloc_eq_some hmalloc)

/-- Only a full list leaves no node. -/
theorem Represents.length_of_malloc (h : s.Represents l b) (hmalloc : s.malloc = none) :
    l.length = 2000 := by
  have hall : ∀ i, i ∈ l := by
    intro i
    by_contra hi
    rw [malloc, List.find?_eq_none] at hmalloc
    exact hmalloc i (List.mem_finRange i) (decide_eq_true (h.free i hi))
  apply le_antisymm (length_le_of_nodup h.list.nodup)
  have hcard : (Finset.univ : Finset BlinkNode).card ≤ l.toFinset.card :=
    Finset.card_le_card fun i _ => List.mem_toFinset.mpr (hall i)
  rw [Finset.card_univ, Fintype.card_fin] at hcard
  exact hcard.trans (List.toFinset_card_le l)

/-- A node from `mp1_malloc` gets the entry and comes first. -/
theorem add_eq_of_malloc {arg : BlinkStruct} (hloc : arg.location.toNat < 2000)
    (hmalloc : s.malloc = some i) :
    s.add arg = ({ s.setNode i ⟨arg.started, s.listHead⟩ with
      listHead := some i
      vmem := Function.update s.vmem arg.cell arg.onChar }, 0) := by
  rw [add, if_neg (Nat.not_le.mpr hloc), hmalloc]
  simp only [setNode, poke, Function.update_self, Function.update_idem]
  rfl

@[simp] theorem array_setNode_self (s : Blink) (i : BlinkNode) (e : BlinkStruct) :
    (s.setNode i e).array i = e :=
  Function.update_self _ _ _

theorem array_setNode_of_ne {j : BlinkNode} (h : j ≠ i) (e : BlinkStruct) :
    (s.setNode i e).array j = s.array j :=
  Function.update_of_ne h _ _

theorem links_setNode (s : Blink) (i : BlinkNode) (e : BlinkStruct) :
    (s.setNode i e).links = Function.update s.links i e.next := by
  funext j
  rw [links]
  rcases eq_or_ne j i with rfl | hne
  · rw [array_setNode_self, Function.update_self]
  · rw [array_setNode_of_ne hne, Function.update_of_ne hne, links]

/-- Entries of nodes that are not stored to. -/
theorem map_entry_setNode (hi : i ∉ l) (e : BlinkStruct) :
    (l.map fun j => ((s.setNode i e).array j).toBlinkEntry) =
      l.map fun j => (s.array j).toBlinkEntry :=
  List.map_congr_left fun j hj => by rw [array_setNode_of_ne (ne_of_mem_of_not_mem hj hi)]

theorem Represents.add (h : s.Represents l b) {arg : BlinkStruct} (harg : arg.location ≠ 0) :
    ∃ l', (s.add arg).1.Represents l' (b.call (.add arg)).1 ∧
      ((s.add arg).2, none) = (b.call (.add arg)).2 := by
  have hlen : b.entries.length = l.length := by
    rw [h.entries, List.length_map]
  rw [BlinkBoard.call]
  by_cases hloc : arg.location.toNat < 2000
  · cases hmalloc : s.malloc with
    | none =>
        have hfull := h.length_of_malloc hmalloc
        rw [if_neg fun hc => by omega, Blink.add, if_neg (Nat.not_le.mpr hloc), hmalloc]
        exact ⟨l, h, rfl⟩
    | some i =>
        have hi := h.not_mem_of_malloc hmalloc
        have hroom : (i :: l).length ≤ 2000 :=
          length_le_of_nodup (List.nodup_cons.mpr ⟨hi, h.list.nodup⟩)
        rw [List.length_cons] at hroom
        rw [if_pos ⟨hloc, by omega⟩, add_eq_of_malloc hloc hmalloc]
        refine ⟨i :: l, ⟨?_, ?_, ?_, fun j hj => ?_, fun j hj => ?_⟩, rfl⟩
        · -- the new structure is in front of the old list, whose pointers stay
          show IsPath (s.setNode i ⟨arg.started, s.listHead⟩).links (some i) (i :: l) none
          rw [links_setNode]
          exact h.list.cons_update hi
        · show _ = ((s.setNode i _).array i).toBlinkEntry ::
            l.map fun j => ((s.setNode i _).array j).toBlinkEntry
          rw [array_setNode_self, map_entry_setNode hi, h.entries]
        · show Function.update b.vmem _ _ = _
          rw [h.vmem]
        · rw [List.mem_cons, not_or] at hj
          show ((s.setNode i _).array j).location = 0
          rw [array_setNode_of_ne hj.1]
          exact h.free j hj.2
        · show ((s.setNode i _).array j).location ≠ 0
          rcases eq_or_ne j i with rfl | hne
          · rw [array_setNode_self]
            exact harg
          · rw [array_setNode_of_ne hne]
            exact h.used j ((List.mem_cons.mp hj).resolve_left hne)
  · rw [if_neg fun hc => hloc hc.1, Blink.add, if_pos (Nat.not_lt.mp hloc)]
    exact ⟨l, h, rfl⟩

theorem Represents.find (h : s.Represents l b) (location : BitVec 16) (hfuel : 2000 < fuel) :
    ∃ r, s.find fuel location = some r ∧
      (r.eax, r.copied.map fun e => e.toBlinkEntry) = (b.call (.find location)).2 := by
  rw [Blink.find, findHelper_eq h.list (h.length_lt hfuel), BlinkBoard.call, h.find_entries]
  cases l.find? fun i => (s.array i).location = location with
  | none => exact ⟨_, rfl, rfl⟩
  | some i => exact ⟨_, rfl, rfl⟩

theorem Represents.tasklet (h : s.Represents l b) (hfuel : 2000 < fuel) :
    ∃ s', s.tasklet fuel = some s' ∧ s'.Represents l (b.call .tasklet).1 := by
  refine ⟨_, taskletLoop_eq h.list (h.length_lt hfuel), ?_⟩
  have hlinks : (l.foldl taskletNode s).links = s.links := by
    rw [foldl_taskletNode h.list.nodup]
    funext j
    simp only [links]
    split <;> rfl
  have hlocation : ∀ j, ((l.foldl taskletNode s).array j).location = (s.array j).location := by
    intro j
    rw [foldl_taskletNode h.list.nodup]
    simp only
    split
    · exact BlinkEntry.location_tick _
    · rfl
  refine ⟨?_, ?_, ?_, fun j hj => (hlocation j).trans (h.free j hj), fun j hj => ?_⟩
  · rw [hlinks, foldl_taskletNode h.list.nodup]
    exact h.list
  · rw [foldl_taskletNode h.list.nodup, BlinkBoard.call, h.entries, List.map_map]
    refine List.map_congr_left fun j hj => ?_
    simp only [Function.comp_apply, if_pos hj]
  · rw [foldl_taskletNode h.list.nodup, BlinkBoard.call, h.entries, h.vmem]
  · rw [hlocation]
    exact h.used j hj

/-- The pointer to a node is replaced by the one in it. -/
theorem unlink {l₁ l₂ : List BlinkNode} (h : IsList s.links s.listHead (l₁ ++ i :: l₂)) :
    IsList (s.setPointer (s.array i).next l₁.getLast?).links
        (s.setPointer (s.array i).next l₁.getLast?).listHead (l₁ ++ l₂) ∧
      (∀ j, ((s.setPointer (s.array i).next l₁.getLast?).array j).toBlinkEntry =
        (s.array j).toBlinkEntry) ∧
      (s.setPointer (s.array i).next l₁.getLast?).vmem = s.vmem := by
  rcases List.eq_nil_or_concat l₁ with rfl | ⟨l₁, j, rfl⟩
  · exact ⟨h.2, fun _ => rfl, rfl⟩
  · rw [List.concat_eq_append, List.getLast?_concat]
    rw [List.concat_eq_append, List.append_assoc] at h
    refine ⟨?_, fun k => ?_, rfl⟩
    · rw [List.append_assoc]
      show IsPath (s.setNode j _).links s.listHead _ none
      rw [links_setNode]
      exact IsList.erase_update h
    · show ((s.setNode j _).array k).toBlinkEntry = _
      rcases eq_or_ne k j with rfl | hne
      · rw [array_setNode_self]
      · rw [array_setNode_of_ne hne]

theorem Represents.remove (h : s.Represents l b) (arg : Word) (hfuel : 2000 < fuel) :
    ∃ s' eax l', s.remove fuel arg = some (s', eax) ∧ s'.Represents l' (b.call (.remove arg)).1 ∧
      (eax, none) = (b.call (.remove arg)).2 := by
  rw [Blink.remove, findHelper_eq h.list (h.length_lt hfuel), BlinkBoard.call, h.find_entries]
  cases hfind : l.find? fun i => (s.array i).location = arg.setWidth 16 with
  | none => exact ⟨s, -1, l, rfl, h, rfl⟩
  | some i =>
      -- the list splits at the first structure with the location
      obtain ⟨hi, l₁, l₂, rfl, hbefore⟩ := List.find?_eq_some_iff_append.mp hfind
      have hnodup := h.list.nodup
      rw [List.nodup_append'] at hnodup
      have hi₁ : i ∉ l₁ := fun hmem => hnodup.2.2 hmem List.mem_cons_self
      have hi₂ : i ∉ l₁ ++ l₂ := by
        rw [List.mem_append, not_or]
        exact ⟨hi₁, (List.nodup_cons.mp hnodup.2.1).1⟩
      obtain ⟨q, hpath, rfl, -⟩ := isPath_append.mp h.list
      have hlen := h.length_lt hfuel
      rw [List.length_append] at hlen
      have hprev : s.findPrev i fuel none = some (l₁.getLast?.or none) :=
        findPrev_eq hpath hi₁ (by omega)
      rw [Option.or_none] at hprev
      obtain ⟨hlist, hkept, hvmem⟩ := unlink h.list
      simp only [Option.bind_eq_bind, Option.bind_some, hprev, Option.map_some]
      refine ⟨_, 0, l₁ ++ l₂, rfl, ⟨?_, ?_, ?_, fun j hj => ?_, fun j hj => ?_⟩, rfl⟩
      · rw [Blink.free, links_setNode]
        exact hlist.update hi₂
      · -- the board erases the first entry with the location, which is that of `i`
        have hmap : ((l₁ ++ i :: l₂).map fun j => (s.array j).toBlinkEntry).eraseP
            (fun e => e.location = arg.setWidth 16) =
            (l₁ ++ l₂).map fun j => (s.array j).toBlinkEntry := by
          have hskip : ∀ e ∈ l₁.map fun j => (s.array j).toBlinkEntry,
              ¬ decide (e.location = arg.setWidth 16) = true := by
            intro e he
            obtain ⟨j, hj, rfl⟩ := List.mem_map.mp he
            have hne := hbefore j hj
            rwa [Bool.not_eq_true', ← Bool.not_eq_true] at hne
          rw [List.map_append, List.map_append, List.map_cons, List.eraseP_append_right _ hskip]
          exact congrArg _ (List.eraseP_cons_of_pos hi)
        rw [Blink.free, map_entry_setNode hi₂, h.entries, hmap]
        exact List.map_congr_left fun j _ => (hkept j).symm
      · exact h.vmem.trans hvmem.symm
      · rw [Blink.free]
        rcases eq_or_ne j i with rfl | hne
        · rw [array_setNode_self]
          rfl
        · rw [array_setNode_of_ne hne]
          refine (congrArg BlinkEntry.location (hkept j)).trans (h.free j fun hmem => hj ?_)
          rw [List.mem_append, List.mem_cons] at hmem
          rw [List.mem_append]
          exact hmem.imp_right fun hmem => hmem.resolve_left hne
      · rw [Blink.free, array_setNode_of_ne (ne_of_mem_of_not_mem hj hi₂)]
        refine (congrArg BlinkEntry.location (hkept j)).trans_ne (h.used j ?_)
        rw [List.mem_append] at hj
        rw [List.mem_append, List.mem_cons]
        exact hj.imp_right Or.inr

/-- The test of `mp1_ioctl_sync` does not set the sign. -/
theorem syncChar_eq (e : BlinkStruct) : syncChar e = e.offChar := by
  have hmsb : (e.status.setWidth 8 &&& 1#8).msb = false := by
    rw [BitVec.msb_and]
    exact Bool.and_false _
  rw [syncChar]
  simp only [hmsb, Bool.false_eq_true, if_false]

theorem setWidth_and_mask (arg : Word) : (arg &&& 0xFFFF).setWidth 16 = arg.setWidth 16 := by
  have hmask : (0xFFFF : Word).setWidth 16 = BitVec.allOnes 16 := rfl
  rw [BitVec.setWidth_and, hmask, BitVec.and_allOnes]

theorem Represents.sync (h : s.Represents l b) (arg : Word) (hfuel : 2000 < fuel) :
    ∃ s' eax, s.sync fuel arg = some (s', eax) ∧ s'.Represents l (b.call (.sync arg)).1 ∧
      (eax, none) = (b.call (.sync arg)).2 := by
  have hhelper : ∀ location, s.findHelper location fuel s.listHead =
      some (l.find? fun i => (s.array i).location = location) :=
    fun location => findHelper_eq h.list (h.length_lt hfuel)
  rw [Blink.sync, hhelper, BlinkBoard.call, h.find_entries, h.find_entries, setWidth_and_mask]
  cases hsrc : l.find? fun i => (s.array i).location = (arg >>> 16).setWidth 16 with
  | none => exact ⟨s, -1, rfl, h, rfl⟩
  | some i =>
      simp only [Option.bind_eq_bind, Option.bind_some, hhelper]
      cases hdst : l.find? fun i => (s.array i).location = arg.setWidth 16 with
      | none => exact ⟨s, -1, rfl, h, rfl⟩
      | some j =>
          obtain ⟨hj, l₁, l₂, rfl, hbefore⟩ := List.find?_eq_some_iff_append.mp hdst
          have hnodup := h.list.nodup
          rw [List.nodup_append'] at hnodup
          have hj₁ : j ∉ l₁ := fun hmem => hnodup.2.2 hmem List.mem_cons_self
          have hj₂ : j ∉ l₂ := (List.nodup_cons.mp hnodup.2.1).1
          have hlinks : (s.setNode j (syncFields (s.array i) (s.array j))).links = s.links := by
            rw [links_setNode]
            exact Function.update_eq_self j s.links
          have hlocation : ∀ k,
              ((s.setNode j (syncFields (s.array i) (s.array j))).array k).location =
                (s.array k).location := by
            intro k
            rcases eq_or_ne k j with rfl | hne
            · rw [array_setNode_self]
              rfl
            · rw [array_setNode_of_ne hne]
          refine ⟨_, 0, rfl, ⟨?_, ?_, ?_, fun k hk => (hlocation k).trans (h.free k hk),
            fun k hk => (hlocation k).trans_ne (h.used k hk)⟩, rfl⟩
          · show IsPath (s.setNode j _).links s.listHead _ none
            rw [hlinks]
            exact h.list
          · have hskip : ∀ e ∈ l₁.map fun k => (s.array k).toBlinkEntry,
                ¬ decide (e.location = arg.setWidth 16) = true := by
              intro e he
              obtain ⟨k, hk, rfl⟩ := List.mem_map.mp he
              have hne := hbefore k hk
              rwa [Bool.not_eq_true', ← Bool.not_eq_true] at hne
            show modifyFirst _ _ b.entries = (l₁ ++ j :: l₂).map fun k =>
              ((s.setNode j (syncFields (s.array i) (s.array j))).array k).toBlinkEntry
            rw [h.entries, List.map_append, List.map_append, List.map_cons, List.map_cons,
              map_entry_setNode hj₁, map_entry_setNode hj₂, array_setNode_self,
              modifyFirst_append hskip hj]
            rfl
          · show Function.update b.vmem _ _ = Function.update s.vmem _ (syncChar _)
            rw [h.vmem, syncChar_eq, array_setNode_self]
            rfl

end Represents

/-! ## Whole runs -/

section Runs

variable {s : Blink} {l : List BlinkNode} {b : BlinkBoard} {fuel : Nat}

/-- A call does to the nodes what it does to the board. -/
theorem Represents.call (h : s.Represents l b) {c : BlinkCall} (hc : c.Placed)
    (hfuel : 2000 < fuel) :
    ∃ s' r l', s.call fuel c = some (s', r) ∧ s'.Represents l' (b.call c).1 ∧
      r.answer = (b.call c).2 := by
  cases c with
  | add arg =>
      obtain ⟨l', hrep, hres⟩ := h.add hc
      exact ⟨_, _, l', rfl, hrep, hres⟩
  | remove arg =>
      obtain ⟨s', eax, l', heq, hrep, hres⟩ := h.remove arg hfuel
      rw [Blink.call, heq]
      exact ⟨s', _, l', rfl, hrep, hres⟩
  | find location =>
      obtain ⟨r, heq, hres⟩ := h.find location hfuel
      have hboard : (b.call (.find location)).1 = b := by
        rw [BlinkBoard.call]
        split <;> rfl
      rw [Blink.call, heq, hboard]
      exact ⟨s, r, l, rfl, h, hres⟩
  | sync arg =>
      obtain ⟨s', eax, heq, hrep, hres⟩ := h.sync arg hfuel
      rw [Blink.call, heq]
      exact ⟨s', _, l, rfl, hrep, hres⟩
  | tasklet =>
      obtain ⟨s', heq, hrep⟩ := h.tasklet hfuel
      rw [Blink.call, heq]
      exact ⟨s', _, l, rfl, hrep, rfl⟩

/-- Calls come back, and do to the nodes what they do to the board. -/
theorem Represents.run {cs : List BlinkCall} (h : s.Represents l b) (hcs : ∀ c ∈ cs, c.Placed)
    (hfuel : 2000 < fuel) :
    ∃ s' rs l', s.run fuel cs = some (s', rs) ∧ s'.Represents l' (b.run cs).1 ∧
      rs.map BlinkResult.answer = (b.run cs).2 := by
  induction cs generalizing s l b with
  | nil => exact ⟨s, [], l, rfl, h, rfl⟩
  | cons c cs ih =>
      obtain ⟨s₁, r, l₁, heq, hrep, hres⟩ := h.call (hcs c List.mem_cons_self) hfuel
      obtain ⟨s', rs, l', heqs, hreps, hress⟩ :=
        ih hrep fun c' hc' => hcs c' (List.mem_cons_of_mem c hc')
      refine ⟨s', r :: rs, l', ?_, hreps, ?_⟩
      · rw [Blink.run, heq]
        simp only [Option.bind_eq_bind, Option.bind_some, heqs]
      · rw [List.map_cons, hres, hress]
        rfl

theorem run_append (s : Blink) (cs ds : List BlinkCall) :
    s.run fuel (cs ++ ds) =
      (s.run fuel cs).bind fun r => (r.1.run fuel ds).map fun t => (t.1, r.2 ++ t.2) := by
  induction cs generalizing s with
  | nil =>
      rw [List.nil_append, Blink.run, Option.bind_some]
      cases s.run fuel ds <;> rfl
  | cons c cs ih =>
      rw [List.cons_append, Blink.run, Blink.run]
      cases s.call fuel c with
      | none => rfl
      | some r =>
          simp only [Option.bind_eq_bind, Option.bind_some, ih]
          cases r.1.run fuel cs with
          | none => rfl
          | some t =>
              simp only [Option.bind_some]
              cases t.1.run fuel ds <;> rfl

/-- From the cleared array on, every sequence of calls that adds nothing at location zero comes
back, with the results and the text memory of the board. -/
theorem run_refines (vmem : Nat → UInt8) {cs : List BlinkCall} (hcs : ∀ c ∈ cs, c.Placed)
    (hfuel : 2000 < fuel) :
    ∃ s' rs, (cleared vmem).run fuel cs = some (s', rs) ∧
      rs.map BlinkResult.answer = (BlinkBoard.run ⟨[], vmem⟩ cs).2 ∧
      s'.vmem = (BlinkBoard.run ⟨[], vmem⟩ cs).1.vmem := by
  obtain ⟨s', rs, l', heq, hrep, hres⟩ := (represents_cleared vmem).run hcs hfuel
  exact ⟨s', rs, heq, hres, hrep.vmem.symm⟩

/-- An entry that is added, ticked, taken out, and looked for. -/
theorem run_refines_mainBlink : ∃ s' rs,
    (cleared fun _ => 0).run 2001 [.add mainBlink, .tasklet, .remove 540, .find 540] =
      some (s', rs) ∧
        rs.map BlinkResult.answer = [(0, none), (0, none), (0, none), (-1, none)] := by
  have hplaced : ∀ c : BlinkCall, c ∈ [.add mainBlink, .tasklet, .remove 540, .find 540] →
      c.Placed := by
    intro c hc
    simp only [List.mem_cons, List.not_mem_nil, or_false] at hc
    rcases hc with rfl | rfl | rfl | rfl
    · show mainBlink.location ≠ 0
      decide
    all_goals trivial
  obtain ⟨s', rs, heq, hanswers, -⟩ :=
    run_refines (fun _ => 0) hplaced (Nat.lt_succ_self 2000)
  exact ⟨s', rs, heq, hanswers.trans (by decide)⟩

end Runs

/-! ## Location zero -/

section LocationZero

variable {s : Blink} {l : List BlinkNode} {b : BlinkBoard} {i : BlinkNode} {fuel : Nat}
  {arg arg' : BlinkStruct}

/-- The tasklet returns exactly if the pointers are a list. -/
theorem tasklet_returns_iff :
    (∃ fuel s', s.tasklet fuel = some s') ↔ ∃ l, IsList s.links s.listHead l := by
  constructor
  · rintro ⟨fuel, s', h⟩
    exact isList_of_taskletLoop h
  · rintro ⟨l, h⟩
    exact ⟨l.length + 1, _, taskletLoop_eq h (Nat.lt_succ_self _)⟩

/-- A node at location zero is handed out again. -/
theorem malloc_add_zero (hmalloc : s.malloc = some i) (harg : arg.location = 0) :
    (s.add arg).1.malloc = some i := by
  have hloc : arg.location.toNat < 2000 := by
    rw [harg]
    decide
  have hsame : ∀ j, ((s.add arg).1.array j).location = 0 ↔ (s.array j).location = 0 := by
    intro j
    rw [add_eq_of_malloc hloc hmalloc]
    show ((s.setNode i _).array j).location = 0 ↔ _
    rcases eq_or_ne j i with rfl | hne
    · rw [array_setNode_self]
      exact iff_of_true harg (malloc_eq_some hmalloc)
    · rw [array_setNode_of_ne hne]
  rw [malloc] at hmalloc ⊢
  simp only [hsame]
  exact hmalloc

/-- A node that is added again in front of itself is all that is left of the list. -/
theorem loop_of_add (hhead : s.listHead = some i) (hmalloc : s.malloc = some i)
    (hloc : arg.location.toNat < 2000) :
    (s.add arg).1.listHead = some i ∧ IsPath (s.add arg).1.links (some i) [i] (some i) := by
  rw [add_eq_of_malloc hloc hmalloc]
  refine ⟨rfl, rfl, ?_⟩
  show (s.setNode i ⟨arg.started, s.listHead⟩).links i = some i
  rw [links_setNode, Function.update_self, hhead]

/-- Behind two additions, the first of them at location zero, the tasklet does not return. -/
theorem tasklet_eq_none_of_add_zero (h : s.Represents l b) (hroom : b.entries.length < 2000)
    (harg : arg.location = 0) (harg' : arg'.location.toNat < 2000) (fuel : Nat) :
    ((s.add arg).1.add arg').1.tasklet fuel = none := by
  have hloc : arg.location.toNat < 2000 := by
    rw [harg]
    decide
  cases hmalloc : s.malloc with
  | none =>
      have hfull := h.length_of_malloc hmalloc
      rw [h.entries, List.length_map] at hroom
      omega
  | some i =>
      have hagain := malloc_add_zero hmalloc harg
      have hfirst : (s.add arg).1.listHead = some i := by
        rw [add_eq_of_malloc hloc hmalloc]
      obtain ⟨hhead, hloop⟩ := loop_of_add hfirst hagain harg'
      cases hresult : ((s.add arg).1.add arg').1.tasklet fuel with
      | none => rfl
      | some s' =>
          obtain ⟨l', hl'⟩ := tasklet_returns_iff.mp ⟨fuel, s', hresult⟩
          rw [hhead] at hl'
          exact absurd hl' (not_isList_of_loop hloop)

/-- An addition leaves a list, at whatever location. -/
theorem Represents.isList_add (h : s.Represents l b) (arg : BlinkStruct) :
    ∃ l', IsList (s.add arg).1.links (s.add arg).1.listHead l' ∧ l'.length ≤ 2000 := by
  have hkept : ∃ l', IsList s.links s.listHead l' ∧ l'.length ≤ 2000 :=
    ⟨l, h.list, length_le_of_nodup h.list.nodup⟩
  by_cases hloc : arg.location.toNat < 2000
  · cases hmalloc : s.malloc with
    | none =>
        rw [Blink.add, if_neg (Nat.not_le.mpr hloc), hmalloc]
        exact hkept
    | some i =>
        have hi := h.not_mem_of_malloc hmalloc
        rw [add_eq_of_malloc hloc hmalloc]
        refine ⟨i :: l, ?_, length_le_of_nodup (List.nodup_cons.mpr ⟨hi, h.list.nodup⟩)⟩
        show IsPath (s.setNode i ⟨arg.started, s.listHead⟩).links (some i) (i :: l) none
        rw [links_setNode]
        exact h.list.cons_update hi
  · rw [Blink.add, if_pos (Nat.not_lt.mp hloc)]
    exact hkept

/-- Behind a run that adds nothing at location zero, two additions and a tasklet come back exactly
if the first addition is not at location zero either. -/
theorem run_add_add_tasklet_iff {vmem : Nat → UInt8} {cs : List BlinkCall}
    (hcs : ∀ c ∈ cs, c.Placed) (hroom : (BlinkBoard.run ⟨[], vmem⟩ cs).1.entries.length < 2000)
    (harg' : arg'.location.toNat < 2000) (hfuel : 2000 < fuel) :
    ((cleared vmem).run fuel (cs ++ [.add arg, .add arg', .tasklet])).isSome = true ↔
      arg.location ≠ 0 := by
  obtain ⟨s, rs, l, heq, hrep, -⟩ := (represents_cleared vmem).run hcs hfuel
  constructor
  · intro hsome hzero
    have hstuck := tasklet_eq_none_of_add_zero hrep hroom hzero harg' fuel
    rw [run_append, heq] at hsome
    simp only [Blink.run, Blink.call, Option.bind_some, Option.bind_eq_bind, hstuck,
      Option.bind_none, Option.map_none, Option.isSome_none, Bool.false_eq_true] at hsome
  · intro harg
    obtain ⟨l₁, hrep₁, -⟩ := hrep.add harg
    obtain ⟨l₂, hlist, hlen⟩ := hrep₁.isList_add arg'
    have htasklet : ((s.add arg).1.add arg').1.tasklet fuel = some _ :=
      taskletLoop_eq hlist (Nat.lt_of_le_of_lt hlen hfuel)
    rw [run_append, heq]
    simp only [Blink.run, Blink.call, Option.bind_some, Option.bind_eq_bind, htasklet,
      Option.map_some, Option.isSome_some]

/-- The tasklet does not return if the structure of `main` follows one at location zero. -/
theorem run_add_add_tasklet_mainBlink :
    (cleared fun _ => 0).run 2001 [.add clearedBlink, .add mainBlink, .tasklet] = none := by
  have hiff : ((cleared fun _ => 0).run 2001
      ([] ++ [.add clearedBlink, .add mainBlink, .tasklet])).isSome = true ↔
        clearedBlink.location ≠ 0 :=
    run_add_add_tasklet_iff (fun _ hc => absurd hc List.not_mem_nil) (by decide) (by decide)
      (Nat.lt_succ_self 2000)
  rw [← Option.not_isSome_iff_eq_none]
  exact fun hsome => hiff.mp hsome rfl

end LocationZero

end Blink

end Ece391Os
