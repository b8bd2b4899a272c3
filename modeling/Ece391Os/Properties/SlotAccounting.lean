import Ece391Os.Model.InterruptedExecute
import Ece391Os.Properties.ProcessAccounting

/-!
# The counter and the control blocks under interrupted executions

`execute` tests `num_active_processes` first and lets `create_new_pcb` search the control blocks
later. A call that is interrupted in between, or inside `create_new_pcb`, can lose the block that
the test had promised. While calls keep out of each other's way (`KeepsApart`), counter and control
blocks agree in every state of every run, and the search never fails (`slotsRight_of_run`).
-/

set_option autoImplicit false

namespace Ece391Os

open EventRun

/-! ## Calls in `create_new_pcb` -/

namespace ExecutePoint

/-- The call is between the start of the search and the store of the number. -/
def seeks : ExecutePoint → Bool
  | .searching _ _ _ | .claiming _ _ _ => true
  | _ => false

/-- The call has taken a block that is not counted yet. -/
def uncounted : ExecutePoint → Bool
  | .counting _ _ | .counted _ _ _ => true
  | _ => false

/-- The call is between the load and the store of the counter. -/
def holdsCount : ExecutePoint → Bool
  | .counted _ _ _ => true
  | _ => false

/-- `create_new_pcb` has returned `FAILURE`. -/
def hasFailed : ExecutePoint → Bool
  | .failed => true
  | _ => false

/-- What a call relies on at a point. -/
def Serves (k : Kernel) : ExecutePoint → Prop
  | .searching _ _ rest => (∀ p ∈ rest, p ≠ sentinelProcess) ∧ ∃ p ∈ rest, k.slots.1 p = -1
  | .claiming _ _ pid => pid ≠ sentinelProcess ∧ k.slots.1 pid = -1
  | .counted _ _ n => n = k.slots.2
  | .failed => False
  | _ => True

end ExecutePoint

/-- The number of calls at points of a kind. -/
def callsAt (kind : ExecutePoint → Bool) (calls : List ExecuteCall) : Nat :=
  calls.countP fun c => kind c.point

theorem callsAt_cons (kind : ExecutePoint → Bool) (c : ExecuteCall) (calls : List ExecuteCall) :
    callsAt kind (c :: calls) = callsAt kind calls + if kind c.point then 1 else 0 :=
  List.countP_cons

/-- A call that stays at points of a kind, or at others, does not change their number. -/
theorem callsAt_congr {kind : ExecutePoint → Bool} {c d : ExecuteCall} {calls : List ExecuteCall}
    (h : kind c.point = kind d.point) : callsAt kind (c :: calls) = callsAt kind (d :: calls) := by
  rw [callsAt_cons, callsAt_cons, h]

theorem callsAt_eq_zero {kind : ExecutePoint → Bool} {calls : List ExecuteCall} :
    callsAt kind calls = 0 ↔ ∀ c ∈ calls, kind c.point = false := by
  simp [callsAt, List.countP_eq_zero]

/-- The kernel and the calls under way: each block is free or holds its own number, the counter
lacks the blocks that are not counted yet, at most one call seeks a block and at most one holds the
counter. -/
structure SlotsAgree (k : Kernel) (calls : List ExecuteCall) : Prop where
  slots : ∀ p, p ≠ sentinelProcess → k.slots.1 p = -1 ∨ k.slots.1 p = p.val
  count : k.slots.2 + callsAt ExecutePoint.uncounted calls = (liveSlots k.slots.1).card
  seeking : callsAt ExecutePoint.seeks calls ≤ 1
  counting : callsAt ExecutePoint.holdsCount calls ≤ 1
  serves : ∀ c ∈ calls, c.point.Serves k

section Calls

variable {img : FsImage} {k k' : Kernel} {calls : List ExecuteCall} {c : ExecuteCall}
  {point : ExecutePoint}

/-- What a call relies on lasts while blocks become free at most and the counter stays. -/
theorem ExecutePoint.Serves.of_slots (h : point.Serves k)
    (hfree : point.seeks = true → ∀ p, k.slots.1 p = -1 → k'.slots.1 p = -1)
    (hcount : point.holdsCount = true → k'.slots.2 = k.slots.2) : point.Serves k' := by
  cases point with
  | searching buf parent rest =>
      obtain ⟨hrest, p, hp, hpid⟩ := h
      exact ⟨hrest, p, hp, hfree rfl p hpid⟩
  | claiming buf parent pid => exact ⟨h.1, hfree rfl pid h.2⟩
  | counted buf pid n => exact h.trans (hcount rfl).symm
  | failed => exact h
  | opening | reading | closing | counting | created => trivial

theorem SlotsAgree.perm {calls' : List ExecuteCall} (h : SlotsAgree k calls)
    (hperm : calls.Perm calls') : SlotsAgree k calls' where
  slots := h.slots
  count := by
    have hsame : callsAt ExecutePoint.uncounted calls' = callsAt ExecutePoint.uncounted calls :=
      hperm.symm.countP_eq _
    rw [hsame]
    exact h.count
  seeking := (hperm.symm.countP_eq _).trans_le h.seeking
  counting := (hperm.symm.countP_eq _).trans_le h.counting
  serves := fun c hc => h.serves c (hperm.mem_iff.mpr hc)

theorem SlotsAgree.of_slots (h : SlotsAgree k calls) (hslots : k'.slots = k.slots) :
    SlotsAgree k' calls where
  slots := hslots ▸ h.slots
  count := hslots ▸ h.count
  seeking := h.seeking
  counting := h.counting
  serves := fun c hc => (h.serves c hc).of_slots (fun _ _ hp => hslots ▸ hp) fun _ => by rw [hslots]

/-- A call goes on, or ends, without a store to a block or to the counter. -/
theorem SlotsAgree.tail (h : SlotsAgree k (c :: calls)) (hcounted : c.point.uncounted = false) :
    SlotsAgree k calls where
  slots := h.slots
  count := by
    have hcount := h.count
    rw [callsAt_cons, hcounted] at hcount
    exact hcount
  seeking := le_trans (by rw [callsAt_cons]; omega) h.seeking
  counting := le_trans (by rw [callsAt_cons]; omega) h.counting
  serves := fun d hd => h.serves d (List.mem_cons_of_mem c hd)

/-- A call comes to a point at which no block is taken uncounted. -/
theorem SlotsAgree.cons (h : SlotsAgree k calls) (hcounted : c.point.uncounted = false)
    (hserves : c.point.Serves k)
    (hseeks : c.point.seeks = true → callsAt ExecutePoint.seeks calls = 0) :
    SlotsAgree k (c :: calls) where
  slots := h.slots
  count := by
    rw [callsAt_cons, hcounted]
    exact h.count
  seeking := by
    rw [callsAt_cons]
    split
    next hat => rw [hseeks hat]
    · exact h.seeking
  counting := by
    have hholds : c.point.holdsCount = false := by
      cases hpoint : c.point with
      | counted => rw [hpoint] at hcounted; cases hcounted
      | _ => rfl
    rw [callsAt_cons, hholds]
    exact h.counting
  serves := fun d hd => by
    rcases List.mem_cons.mp hd with rfl | hd
    · exact hserves
    · exact h.serves d hd

/-- The call that seeks a block is the only one. -/
theorem SlotsAgree.seeks_tail (h : SlotsAgree k (c :: calls)) (hseeks : c.point.seeks = true) :
    callsAt ExecutePoint.seeks calls = 0 := by
  have hone := h.seeking
  rw [callsAt_cons, if_pos hseeks] at hone
  omega

theorem SlotsAgree.holds_tail (h : SlotsAgree k (c :: calls)) (hholds : c.point.holdsCount = true) :
    callsAt ExecutePoint.holdsCount calls = 0 := by
  have hone := h.counting
  rw [callsAt_cons, if_pos hholds] at hone
  omega

/-! ## The search and the stores of `create_new_pcb` -/

/-- The magic test has passed while no other call seeks a block and one is free. -/
theorem SlotsAgree.enter {buf : Nat → UInt8} {parent : Pid} (h : SlotsAgree k calls)
    (hnone : callsAt ExecutePoint.seeks calls = 0)
    (hfree : ∃ p, p ≠ sentinelProcess ∧ k.slots.1 p = -1) :
    SlotsAgree k ({ c with point := .searching buf parent pcbSlots } :: calls) := by
  obtain ⟨p, hp, hpid⟩ := hfree
  have hmem : ∀ p, p ≠ sentinelProcess → p ∈ pcbSlots := by decide
  have hslots : ∀ p ∈ pcbSlots, p ≠ sentinelProcess := by decide
  exact h.cons rfl ⟨hslots, p, hmem p hp, hpid⟩ fun _ => hnone

/-- The search has come to a free block. -/
theorem SlotsAgree.find {buf : Nat → UInt8} {parent q : Pid} {rest : List Pid}
    (h : SlotsAgree k (c :: calls)) (hpoint : c.point = .searching buf parent (q :: rest))
    (hq : k.slots.1 q = -1) :
    SlotsAgree k ({ c with point := .claiming buf parent q } :: calls) := by
  have hnone := h.seeks_tail (by rw [hpoint]; rfl)
  have hserves := h.serves c List.mem_cons_self
  rw [hpoint] at hserves
  exact (h.tail (by rw [hpoint]; rfl)).cons rfl ⟨hserves.1 q List.mem_cons_self, hq⟩
    fun _ => hnone

/-- The search goes on, and the free block that it relies on is still to come. -/
theorem SlotsAgree.search {buf : Nat → UInt8} {parent q : Pid} {rest : List Pid}
    (h : SlotsAgree k (c :: calls)) (hpoint : c.point = .searching buf parent (q :: rest))
    (hq : k.slots.1 q ≠ -1) :
    SlotsAgree k ({ c with point := .searching buf parent rest } :: calls) := by
  have hnone := h.seeks_tail (by rw [hpoint]; rfl)
  have hserves := h.serves c List.mem_cons_self
  rw [hpoint] at hserves
  obtain ⟨hrest, p, hp, hfree⟩ := hserves
  have hne : p ≠ q := by
    rintro rfl
    exact hq hfree
  have hlater : p ∈ rest := (List.mem_cons.mp hp).resolve_left hne
  exact (h.tail (by rw [hpoint]; rfl)).cons rfl
    ⟨fun p hp => hrest p (List.mem_cons_of_mem q hp), p, hlater, hfree⟩ fun _ => hnone

theorem slots_claimPcb (k : Kernel) (pid parent : Pid) :
    (claimPcb k pid parent).slots = (Function.update k.slots.1 pid pid.val, k.slots.2) := by
  refine Prod.ext (funext fun q => ?_) rfl
  rcases eq_or_ne q pid with rfl | hne
  · simp [Kernel.slots, claimPcb, Kernel.setPcb]
  · simp [Kernel.slots, claimPcb, Kernel.setPcb, Function.update_of_ne hne]

/-- The free block is taken. -/
theorem SlotsAgree.claim {buf : Nat → UInt8} {parent pid : Pid} (h : SlotsAgree k (c :: calls))
    (hpoint : c.point = .claiming buf parent pid) :
    SlotsAgree (claimPcb k pid parent) ({ c with point := .counting buf pid } :: calls) := by
  have hslots := slots_claimPcb k pid parent
  have hnone := h.seeks_tail (by rw [hpoint]; rfl)
  obtain ⟨hpid, hfree⟩ : pid ≠ sentinelProcess ∧ k.slots.1 pid = -1 := by
    have hserves := h.serves c List.mem_cons_self
    rw [hpoint] at hserves
    exact hserves
  have htail := h.tail (by rw [hpoint]; rfl)
  constructor
  · intro p hp
    rw [hslots]
    rcases eq_or_ne p pid with rfl | hne
    · exact Or.inr (Function.update_self _ _ _)
    · simp only [Function.update_of_ne hne]
      exact h.slots p hp
  · -- one more live slot, and one more call that has not counted it
    have hnew : pid ∉ liveSlots k.slots.1 := fun hmem => (mem_liveSlots.mp hmem).2 hfree
    have hval : ((pid.val : Nat) : Int) ≠ -1 := by omega
    have hcount := htail.count
    have hone : callsAt ExecutePoint.uncounted ({ c with point := .counting buf pid } :: calls) =
        callsAt ExecutePoint.uncounted calls + 1 := callsAt_cons _ _ _
    rw [hslots, hone]
    simp only [liveSlots_insert hpid hval, Finset.card_insert_of_notMem hnew]
    push_cast
    omega
  · rw [callsAt_cons]
    exact htail.seeking
  · rw [callsAt_cons]
    exact htail.counting
  · intro d hd
    rcases List.mem_cons.mp hd with rfl | hd
    · trivial
    · -- no other call seeks a block, so none relies on this one
      have hother := callsAt_eq_zero.mp hnone d hd
      refine (htail.serves d hd).of_slots ?_ ?_
      · rw [hother]
        nofun
      · intro _
        rw [hslots]

/-- The counter is loaded. -/
theorem SlotsAgree.load {buf : Nat → UInt8} {pid : Pid} (h : SlotsAgree k (c :: calls))
    (hpoint : c.point = .counting buf pid)
    (hnone : callsAt ExecutePoint.holdsCount calls = 0) :
    SlotsAgree k ({ c with point := .counted buf pid k.procs.numActiveProcesses } :: calls) := by
  constructor
  · exact h.slots
  · have hsame : callsAt ExecutePoint.uncounted
        ({ c with point := .counted buf pid k.procs.numActiveProcesses } :: calls) =
          callsAt ExecutePoint.uncounted (c :: calls) := callsAt_congr (by rw [hpoint]; rfl)
    rw [hsame]
    exact h.count
  · exact (callsAt_congr (by rw [hpoint]; rfl)).trans_le h.seeking
  · rw [callsAt_cons, hnone]
    exact Nat.le_refl 1
  · intro d hd
    rcases List.mem_cons.mp hd with rfl | hd
    · rfl
    · exact h.serves d (List.mem_cons_of_mem c hd)

theorem slots_counted (k : Kernel) (n : Int) :
    (clearArgs (k.setActive n)).slots = (k.slots.1, n) := slots_clearArgs _

/-- The counter is stored. -/
theorem SlotsAgree.store {buf : Nat → UInt8} {pid : Pid} {n : Int} (h : SlotsAgree k (c :: calls))
    (hpoint : c.point = .counted buf pid n) :
    SlotsAgree (clearArgs (k.setActive (n + 1)))
      ({ c with point := .created buf pid } :: calls) := by
  have hslots := slots_counted k (n + 1)
  have hnone := h.holds_tail (by rw [hpoint]; rfl)
  have hn : n = k.slots.2 := by
    have hserves := h.serves c List.mem_cons_self
    rw [hpoint] at hserves
    exact hserves
  constructor
  · rw [hslots]
    exact h.slots
  · have hcount := h.count
    have hone : callsAt ExecutePoint.uncounted (c :: calls) =
        callsAt ExecutePoint.uncounted calls + 1 := by
      rw [callsAt_cons, hpoint]
      rfl
    rw [hone] at hcount
    push_cast at hcount
    rw [hslots, callsAt_cons]
    simp only [ExecutePoint.uncounted, Bool.false_eq_true, if_false, Nat.add_zero]
    omega
  · exact (callsAt_congr (by rw [hpoint]; rfl)).trans_le h.seeking
  · rw [callsAt_cons, hnone]
    exact Nat.zero_le 1
  · intro d hd
    rcases List.mem_cons.mp hd with rfl | hd
    · trivial
    · -- no other call holds the old value of the counter
      have hother := callsAt_eq_zero.mp hnone d hd
      refine (h.serves d (List.mem_cons_of_mem c hd)).of_slots ?_ ?_
      · intro _ p hp
        rw [hslots]
        exact hp
      · rw [hother]
        nofun

theorem slots_enterProgram (k : Kernel) (buf : Nat → UInt8) :
    (enterProgram k buf).slots = k.slots := rfl

theorem slots_moveArgs (k : Kernel) (command : CString) :
    (moveArgs k command).slots = k.slots := by
  rw [moveArgs_eq]
  exact slots_setPcb_same rfl

theorem slots_loadPcb (k : Kernel) (pid : Pid) (ss esp : Word) :
    (loadPcb k pid ss esp).slots = k.slots := slots_setPcb_same rfl

/-- `execute` behind `create_new_pcb`. -/
theorem slots_spawnProcess (frame : ExecuteFrame) (k : Kernel) (pid : Pid) (command : CString)
    (buf : Nat → UInt8) : (spawnProcess frame k pid command buf).slots = k.slots := by
  have hstack : ((k.runAs pid).setPcb pid { (k.runAs pid).procs.controlBlocks pid with
      stackPos := frame.esp }).slots = k.slots := slots_setPcb_same rfl
  rw [spawnProcess, slots_enterProgram, slots_moveArgs, slots_loadPcb, ← hstack]
  -- neither `shell_pid` nor the task state segment is a part of the slots
  generalize (k.runAs pid).setPcb pid { (k.runAs pid).procs.controlBlocks pid with
    stackPos := frame.esp } = k₁
  split
  · rfl
  · rfl

/-- A live process halts while no call holds the counter. -/
theorem SlotsAgree.halt {q : Pid} (h : SlotsAgree k calls) (hq : q ≠ sentinelProcess)
    (hlive : k.slots.1 q ≠ -1) (hnone : callsAt ExecutePoint.holdsCount calls = 0)
    (hslots : k'.slots = (Function.update k.slots.1 q (-1), k.slots.2 - 1)) :
    SlotsAgree k' calls := by
  constructor
  · intro p hp
    rw [hslots]
    rcases eq_or_ne p q with rfl | hne
    · exact Or.inl (Function.update_self _ _ _)
    · simp only [Function.update_of_ne hne]
      exact h.slots p hp
  · -- slots and counter go down together
    have hmem : q ∈ liveSlots k.slots.1 := mem_liveSlots.mpr ⟨hq, hlive⟩
    have hcard := Finset.card_erase_add_one hmem
    have hcount := h.count
    rw [hslots]
    simp only [liveSlots_erase]
    omega
  · exact h.seeking
  · exact h.counting
  · intro d hd
    have hother := callsAt_eq_zero.mp hnone d hd
    refine (h.serves d hd).of_slots ?_ ?_
    · intro _ p hp
      rw [hslots]
      rcases eq_or_ne p q with rfl | hne
      · exact Function.update_self _ _ _
      · exact (Function.update_of_ne hne _ _).trans hp
    · rw [hother]
      nofun

end Calls

/-! ## Every run -/

/-- A call goes on apart from the others: it enters `create_new_pcb` while a block is free and no
other call seeks one, and it loads the counter while no other call is about to store it. -/
def ExecuteCall.AdvancesApart (c : ExecuteCall) (k : Kernel)
    (others : List ExecuteCall) : Prop :=
  match c.point with
  | .closing _ buf =>
      (List.range 4).map buf = magicLead →
        callsAt ExecutePoint.seeks others = 0 ∧ ∃ p, p ≠ sentinelProcess ∧ ¬ k.Live p
  | .counting _ _ => callsAt ExecutePoint.holdsCount others = 0
  | _ => True

instance (c : ExecuteCall) (k : Kernel) (others : List ExecuteCall) :
    Decidable (c.AdvancesApart k others) := by
  unfold ExecuteCall.AdvancesApart
  split <;> infer_instance

namespace Executions

/-- The calls under way. -/
def calls (s : Executions) : List ExecuteCall := s.current.toList ++ s.interrupted

/-- What `execute` relies on. Each block is free or holds its own number; the counter is the number
of live processes, but for those that `create_new_pcb` has not counted yet; if there is none, the
counter lies between `0` and `6`, and `execute` refuses for lack of blocks exactly if all six are
taken; a block that `create_new_pcb` takes is free; and its search does not fail. -/
structure SlotsRight (s : Executions) : Prop where
  slots : ∀ p, p ≠ sentinelProcess →
    (s.kernel.procs.controlBlocks p).pid = -1 ∨ (s.kernel.procs.controlBlocks p).pid = p.val
  count : s.kernel.procs.numActiveProcesses + callsAt ExecutePoint.uncounted s.calls =
    (liveSlots s.kernel.slots.1).card
  bounds : callsAt ExecutePoint.uncounted s.calls = 0 →
    0 ≤ s.kernel.procs.numActiveProcesses ∧ s.kernel.procs.numActiveProcesses ≤ maxProcesses
  guard : callsAt ExecutePoint.uncounted s.calls = 0 →
    (s.kernel.procs.numActiveProcesses ≥ maxProcesses ↔
      ∀ p, p ≠ sentinelProcess → s.kernel.Live p)
  refuses : callsAt ExecutePoint.uncounted s.calls = 0 →
    (∀ p, p ≠ sentinelProcess → s.kernel.Live p) → ∀ caller command res frame,
      s.call caller command res frame = { s with kernel := s.kernel.enter caller }
  takes : ∀ c ∈ s.calls, ∀ buf parent pid, c.point = .claiming buf parent pid →
    pid ≠ sentinelProcess ∧ (s.kernel.procs.controlBlocks pid).pid = -1
  finds : ∀ c ∈ s.calls, c.point ≠ .failed

/-- The calls keep out of each other's way, and a process halts while no call is between the load
and the store of the counter. -/
def KeepsApart (s : Executions) (e : ExecutionEvent) (_ : Executions) : Prop :=
  match e with
  | .advance => ∀ c ∈ s.current, c.AdvancesApart s.kernel s.interrupted
  | .halt _ => callsAt ExecutePoint.holdsCount s.interrupted = 0
  | _ => True

instance (s : Executions) (e : ExecutionEvent) (s' : Executions) :
    Decidable (KeepsApart s e s') := by
  unfold KeepsApart
  cases e <;> dsimp only <;> infer_instance

section Steps

variable {img : FsImage} {s s' : Executions}

/-- The calls agree with the counter and the control blocks. -/
theorem slotsRight_of_agree (h : SlotsAgree s.kernel s.calls) : SlotsRight s := by
  have haccounted : callsAt ExecutePoint.uncounted s.calls = 0 → Accounted s.kernel := by
    intro hnone
    have hcount := h.count
    rw [hnone] at hcount
    exact ⟨h.slots, by omega⟩
  refine ⟨h.slots, h.count, fun hnone => (haccounted hnone).bounds,
    fun hnone => (haccounted hnone).guard_iff, ?_, ?_, ?_⟩
  · intro hnone hall caller command res frame
    have hfull : (s.kernel.enter caller).procs.numActiveProcesses ≥ maxProcesses :=
      (haccounted hnone).guard_iff.mpr hall
    cases command with
    | none => rfl
    | some command => simp only [call, if_pos hfull]
  · intro c hc buf parent pid hpoint
    have hserves := h.serves c hc
    rw [hpoint] at hserves
    exact hserves
  · intro c hc hpoint
    have hserves := h.serves c hc
    rw [hpoint] at hserves
    exact hserves

/-- The call on the processor goes on. -/
theorem slotsAgree_advance {c : ExecuteCall} {calls : List ExecuteCall} {k : Kernel}
    {r : ExecuteCall.Outcome} (h : SlotsAgree k (c :: calls))
    (hapart : c.AdvancesApart k calls)
    (hadvance : c.advance img k = some r) :
    match r with
    | .at point k' => SlotsAgree k' ({ c with point := point } :: calls)
    | .ended k' => SlotsAgree k' calls := by
  simp only [ExecuteCall.advance] at hadvance
  unfold ExecuteCall.AdvancesApart at hapart
  split at hadvance
  next hpoint =>
    have htail := h.tail (by rw [hpoint]; rfl)
    have hopen : (sysOpen img c.res k (some (commandWord c.command))).2.slots = k.slots :=
      callFrame_slots.toOpenFrame.sysOpen k _
    split at hadvance
    · obtain rfl := Option.some.inj hadvance
      exact htail.of_slots hopen
    · obtain rfl := Option.some.inj hadvance
      exact (htail.of_slots hopen).cons rfl trivial nofun
  next fd hpoint =>
    have htail := h.tail (by rw [hpoint]; rfl)
    split at hadvance
    · cases hadvance
    · cases hadvance
    · obtain rfl := Option.some.inj hadvance
      exact (htail.of_slots (callFrame_slots.sysRead k _ _ _)).cons rfl trivial nofun
  next fd buf hpoint =>
    have htail := h.tail (by rw [hpoint]; rfl)
    have hclose : (sysClose k fd).2.slots = k.slots := callFrame_slots.toOpenFrame.sysClose k fd
    split at hadvance
    next hmagic =>
      obtain rfl := Option.some.inj hadvance
      rw [hpoint] at hapart
      obtain ⟨hnone, p, hp, hfree⟩ := hapart hmagic
      exact (htail.of_slots hclose).enter hnone ⟨p, hp, hclose ▸ not_not.mp hfree⟩
    · obtain rfl := Option.some.inj hadvance
      exact htail.of_slots hclose
  next buf parent rest hpoint =>
    cases rest with
    | nil =>
        -- a search that finds nothing would have relied on a block of the empty list
        have hserves := h.serves c List.mem_cons_self
        rw [hpoint] at hserves
        obtain ⟨-, p, hp, -⟩ := hserves
        cases hp
    | cons q rest =>
        dsimp only at hadvance
        split at hadvance
        next hq =>
          obtain rfl := Option.some.inj hadvance
          exact h.find hpoint hq
        next hq =>
          obtain rfl := Option.some.inj hadvance
          exact h.search hpoint hq
  next hpoint =>
    obtain rfl := Option.some.inj hadvance
    exact h.claim hpoint
  next hpoint =>
    obtain rfl := Option.some.inj hadvance
    rw [hpoint] at hapart
    exact h.load hpoint hapart
  next hpoint =>
    obtain rfl := Option.some.inj hadvance
    exact h.store hpoint
  next buf pid hpoint =>
    obtain rfl := Option.some.inj hadvance
    exact (h.tail (by rw [hpoint]; rfl)).of_slots (slots_spawnProcess _ _ _ _ _)
  · cases hadvance

/-- One step. -/
theorem slotsAgree_step {e : ExecutionEvent} (h : SlotsAgree s.kernel s.calls)
    (hstep : step img s e = some s') (hkeeps : KeepsApart s e s') :
    SlotsAgree s'.kernel s'.calls := by
  obtain ⟨k, current, interrupted⟩ := s
  cases e with
  | execute caller command res frame =>
      obtain ⟨⟨hnone, -⟩, hs'⟩ := Option.ite_none_right_eq_some.mp hstep
      obtain rfl := Option.some.inj hs'
      obtain rfl : current = none := Option.isNone_iff_eq_none.mp hnone
      have hentered : SlotsAgree (k.enter caller) interrupted := h.of_slots rfl
      simp only [call]
      split
      · exact hentered
      · split
        · exact hentered
        · split
          · exact hentered
          · exact hentered.cons rfl trivial nofun
  | advance =>
      obtain ⟨c, hc, hadvance⟩ := Option.bind_eq_some_iff.mp hstep
      obtain ⟨r, hr, hs'⟩ := Option.map_eq_some_iff.mp hadvance
      dsimp only at hc
      subst hc
      have hagree := slotsAgree_advance h (hkeeps c rfl) hr
      cases r with
      | «at» point k' =>
          subst hs'
          exact hagree
      | ended k' =>
          subst hs'
          exact hagree
  | interrupt =>
      cases current with
      | none => cases hstep
      | some c =>
          obtain ⟨-, hs'⟩ := Option.ite_none_right_eq_some.mp hstep
          obtain rfl := Option.some.inj hs'
          exact h
  | resume i pid =>
      -- the same calls in another order
      obtain ⟨hnone, hs'⟩ := Option.ite_none_right_eq_some.mp hstep
      obtain rfl : current = none := Option.isNone_iff_eq_none.mp hnone
      obtain ⟨c, hc, rfl⟩ := Option.map_eq_some_iff.mp hs'
      obtain ⟨hi, hget⟩ := List.getElem?_eq_some_iff.mp hc
      have hperm := (List.getElem_cons_eraseIdx_perm hi).symm
      rw [hget] at hperm
      have hagree : SlotsAgree ((k.runAs pid).sti) interrupted := h.of_slots rfl
      exact hagree.perm hperm
  | halt caller =>
      obtain ⟨⟨hnone, hcaller, hlive⟩, hs'⟩ := Option.ite_none_right_eq_some.mp hstep
      obtain rfl := Option.some.inj hs'
      obtain rfl : current = none := Option.isNone_iff_eq_none.mp hnone
      exact SlotsAgree.halt (k := k) h hcaller hlive hkeeps (slots_halt (k.enter caller))
  | interrupts sched terms kbd video =>
      obtain ⟨-, hs'⟩ := Option.ite_none_right_eq_some.mp hstep
      obtain rfl := Option.some.inj hs'
      exact h.of_slots rfl

end Steps

theorem slotsAgree_boot (espBoot : Word) :
    SlotsAgree (boot espBoot).kernel (boot espBoot).calls where
  slots := (accounted_boot espBoot).slots
  count := (accounted_boot espBoot).count
  seeking := Nat.zero_le 1
  counting := Nat.zero_le 1
  serves := fun c hc => by cases hc

/-- In every run whose calls keep out of each other's way, counter and control blocks agree in every
state, `create_new_pcb` takes free blocks only, and its search does not fail. -/
theorem slotsRight_of_run (img : FsImage) (espBoot : Word) (es : List ExecutionEvent)
    (hall : AllSteps (step img) KeepsApart (boot espBoot) es) :
    AllSteps (step img) (fun _ _ s' => SlotsRight s') (boot espBoot) es := by
  apply allSteps_of_invariant (I := fun s => SlotsAgree s.kernel s.calls) ?_
    (slotsAgree_boot espBoot) hall
  intro s e s' hagree hstep hkeeps
  have hagree' := slotsAgree_step hagree hstep hkeeps
  exact ⟨hagree', slotsRight_of_agree hagree'⟩

/-! ## A call that is not interrupted -/

section Uninterrupted

variable {img : FsImage} {res : Residue} {frame : ExecuteFrame} {k k' : Kernel}
  {command : CString} {others : List ExecuteCall}

/-- The call on the processor goes on from `s` to `s'`. -/
def Advances (img : FsImage) (s s' : Executions) : Prop :=
  ∃ n, runFrom (step img) s (List.replicate n .advance) = some s'

theorem Advances.refl (s : Executions) : Advances img s s := ⟨0, rfl⟩

theorem Advances.head {s t s' : Executions} (hstep : step img s .advance = some t)
    (h : Advances img t s') : Advances img s s' := by
  obtain ⟨n, hn⟩ := h
  refine ⟨n + 1, ?_⟩
  rw [List.replicate_succ, runFrom_cons, hstep]
  exact hn

theorem step_opening
    (hopen : (sysOpen img res k (some (commandWord command))).1 ≠ -1) :
    step img ⟨k, some ⟨command, res, frame, .opening⟩, others⟩ .advance =
      some ⟨(sysOpen img res k (some (commandWord command))).2, some ⟨command, res, frame,
        .reading (sysOpen img res k (some (commandWord command))).1⟩, others⟩ := by
  simp only [step, Option.bind_some, ExecuteCall.advance, if_neg hopen, Option.map_some]

theorem step_reading {fd v : Int}
    (hread : (sysRead img res k fd (some frame.buf) executeLength).exit = .returned v) :
    step img ⟨k, some ⟨command, res, frame, .reading fd⟩, others⟩ .advance =
      some ⟨(sysRead img res k fd (some frame.buf) executeLength).kernel, some ⟨command, res, frame,
        .closing fd (applyStores res.buf
          (sysRead img res k fd (some frame.buf) executeLength).stores)⟩, others⟩ := by
  simp only [step, Option.bind_some, ExecuteCall.advance, hread, Option.map_some]

theorem step_closing {fd : Int} {buf : Nat → UInt8}
    (hmagic : (List.range 4).map buf = magicLead) :
    step img ⟨k, some ⟨command, res, frame, .closing fd buf⟩, others⟩ .advance =
      some ⟨(sysClose k fd).2, some ⟨command, res, frame,
        .searching buf (sysClose k fd).2.procs.currentPid pcbSlots⟩, others⟩ := by
  simp only [step, Option.bind_some, ExecuteCall.advance, if_pos hmagic, Option.map_some]

/-- The search for a free block. -/
theorem advances_search {buf : Nat → UInt8} {parent q : Pid} {rest : List Pid} {s : Executions}
    (hfind : rest.find? (fun i => (k.procs.controlBlocks i).pid = -1) = some q)
    (h : Advances img ⟨k, some ⟨command, res, frame, .claiming buf parent q⟩, others⟩ s) :
    Advances img ⟨k, some ⟨command, res, frame, .searching buf parent rest⟩, others⟩ s := by
  induction rest with
  | nil => cases hfind
  | cons p rest ih =>
      by_cases hfree : (k.procs.controlBlocks p).pid = -1
      · rw [List.find?_cons_of_pos (by simpa using hfree)] at hfind
        obtain rfl := Option.some.inj hfind
        refine .head ?_ h
        simp only [step, Option.bind_some, ExecuteCall.advance, if_pos hfree, Option.map_some]
      · rw [List.find?_cons_of_neg (by simpa using hfree)] at hfind
        refine .head ?_ (ih hfind)
        simp only [step, Option.bind_some, ExecuteCall.advance, if_neg hfree, Option.map_some]

/-- From the search on, a call that is not interrupted does what `executeSpawn` does. -/
theorem advances_spawn {buf : Nat → UInt8} (h : executeSpawn frame k command buf = some k') :
    Advances img
      ⟨k, some ⟨command, res, frame, .searching buf k.procs.currentPid pcbSlots⟩, others⟩
      ⟨k', none, others⟩ := by
  simp only [executeSpawn, createNewPcb] at h
  cases hfree : freePid k with
  | none =>
      rw [hfree] at h
      cases h
  | some q =>
      rw [hfree] at h
      obtain rfl := Option.some.inj h
      refine advances_search hfree ?_
      exact .head rfl (.head rfl (.head rfl (.head rfl (.refl _))))

/-- A call of `execute` that is not interrupted starts the process that `execute` starts. -/
theorem advances_of_started {s : Executions} {caller : Pid} {entry : Word}
    (hcurrent : s.current = none)
    (h : Ece391Os.execute img res frame (s.kernel.enter caller) (some command) =
      .started entry k') :
    Advances img (s.call caller (some command) res frame) { s with kernel := k' } := by
  obtain ⟨k, current, others⟩ := s
  subst hcurrent
  obtain ⟨buf, k₂, hload, hspawn, -⟩ := executeSpawn_of_started h
  simp only [executeLoad] at hload
  split at hload
  · cases hload
  next hnum =>
    split at hload
    · cases hload
    next hlen =>
      split at hload
      · cases hload
      next hopen =>
        split at hload
        · cases hload
        · cases hload
        next v hread =>
          split at hload
          next hmagic =>
            obtain ⟨rfl, rfl⟩ := LoadResult.loaded.inj hload
            simp only [call, if_neg hnum, if_neg hlen]
            exact .head (step_opening hopen) (.head (step_reading hread)
              (.head (step_closing hmagic) (advances_spawn hspawn)))
          · cases hload

end Uninterrupted

/-! ## The clock after an executable -/

/-- A call of `execute` for a shell that is not interrupted, up to the start of process `q`. -/
def shellStart (caller q : Pid) : List ExecutionEvent :=
  .execute caller (some shellName) emptyResidue ⟨0x7F7F00, 0x7EE200⟩ ::
    List.replicate (q.val + 7) .advance

/-- Process `caller` executes `rtc` after a program. An Alt-Fn key takes the processor from it
behind `rtc_open` and starts process `q`; then the call goes on. -/
def clockStart (caller q : Pid) (n : Nat) : List ExecutionEvent :=
  [.execute caller (some rtcName) staleResidue ⟨0x7F7F00, 0x7EE200⟩, .advance, .interrupt] ++
    shellStart sentinelProcess q ++ .resume 0 caller :: List.replicate n .advance

/-- With free blocks for both. -/
theorem slotsRight_clockStart :
    AllSteps (step shellImage) (fun _ _ s' => SlotsRight s') (boot 0x7FFFC0)
      (shellStart sentinelProcess 1 ++ clockStart 1 2 9) :=
  slotsRight_of_run shellImage 0x7FFFC0 (shellStart sentinelProcess 1 ++ clockStart 1 2 9)
    (by decide)

/-- Five shells, each executed by the one before it. -/
def fiveShells : List ExecutionEvent :=
  shellStart sentinelProcess 1 ++ shellStart 1 2 ++ shellStart 2 3 ++ shellStart 3 4 ++
    shellStart 4 5

/-- The fifth has passed the test of the counter when the key starts the sixth process: its search
fails. -/
theorem not_slotsRight_clockStart :
    (∃ s, runFrom (step shellImage) (boot 0x7FFFC0) (fiveShells ++ clockStart 5 6 9) = some s ∧
        (∀ p, p ≠ sentinelProcess → s.kernel.Live p) ∧ ∃ c ∈ s.current, c.point = .failed) ∧
      ¬ AllSteps (step shellImage) (fun _ _ s' => SlotsRight s') (boot 0x7FFFC0)
        (fiveShells ++ clockStart 5 6 9) := by
  have hfinal : (runFrom (step shellImage) (boot 0x7FFFC0) (fiveShells ++ clockStart 5 6 9)).map
      (fun s => (decide (∀ p, p ≠ sentinelProcess → s.kernel.Live p),
        s.current.map fun c => c.point.hasFailed)) = some (true, some true) := by decide +kernel
  obtain ⟨s, hrun, hs⟩ := Option.map_eq_some_iff.mp hfinal
  obtain ⟨hlive, hcurrent⟩ := Prod.mk.inj hs
  obtain ⟨c, hc, hfailed⟩ := Option.map_eq_some_iff.mp hcurrent
  have hpoint : c.point = .failed := by
    cases hpoint : c.point with
    | failed => rfl
    | _ =>
        rw [hpoint] at hfailed
        cases hfailed
  refine ⟨⟨s, hrun, of_decide_eq_true hlive, c, hc, hpoint⟩, fun hall => ?_⟩
  have hright : SlotsRight s := invariant_of_allSteps (I := SlotsRight) (fun _ _ _ _ _ h => h)
    (slotsRight_of_agree (slotsAgree_boot 0x7FFFC0)) hall hrun
  have hmem : c ∈ s.calls := List.mem_append_left _ (Option.mem_toList.mpr hc)
  exact hright.finds c hmem hpoint

end Executions

end Ece391Os
