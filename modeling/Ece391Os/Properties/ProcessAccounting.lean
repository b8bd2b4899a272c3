import Mathlib.Data.Fintype.Basic
import Mathlib.Data.Fintype.Card
import Ece391Os.Model.ProcessCalls
import Ece391Os.Properties.CallFrames
import Ece391Os.Properties.Executables

/-!
# Process accounting

`num_active_processes`, which `execute` compares with `MAX_PROCESSES`, and the control blocks,
which `create_new_pcb` searches, are written by separate functions. While they agree, the counter is
the number of live processes, and a call of `execute` that is not interrupted finds a block.
-/

set_option autoImplicit false

namespace Ece391Os

open EventRun

/-! ## The counter and the control blocks -/

/-- The `pid` fields and the counter. -/
def Kernel.slots (k : Kernel) : (Pid → Int) × Int :=
  (fun p => (k.procs.controlBlocks p).pid, k.procs.numActiveProcesses)

/-- The live processes among `1` to `6`. -/
def liveSlots (pids : Pid → Int) : Finset Pid :=
  Finset.univ.filter fun p => p ≠ sentinelProcess ∧ pids p ≠ -1

/-- Each block is free or holds its own number, and the counter is the number of live
processes. -/
structure Accounted (k : Kernel) : Prop where
  slots : ∀ p, p ≠ sentinelProcess → k.slots.1 p = -1 ∨ k.slots.1 p = p.val
  count : k.slots.2 = (liveSlots k.slots.1).card

/-- What `execute` relies on: its test of the counter fails exactly if all six control blocks are
taken, it then returns `-1`, and otherwise `create_new_pcb` finds a free block. -/
structure SlotsServe (img : FsImage) (k : Kernel) : Prop where
  guard : k.procs.numActiveProcesses ≥ maxProcesses ↔ ∀ p, p ≠ sentinelProcess → k.Live p
  refuses : (∀ p, p ≠ sentinelProcess → k.Live p) → ∀ res frame caller command,
    execute img res frame (k.enter caller) command = .returned (-1) (k.enter caller)
  allocates : ∀ res frame caller command buf k₁,
    executeLoad img res frame (k.enter caller) command = .loaded buf k₁ →
      ∃ q k₂, createNewPcb k₁ k₁.procs.currentPid = some (q, k₂) ∧ q ≠ sentinelProcess ∧
        (k₁.procs.controlBlocks q).pid = -1 ∧ (k₂.procs.controlBlocks q).pid = q.val

section Slots

variable {img : FsImage} {res : Residue} {frame : ExecuteFrame} {k k' : Kernel}

theorem slots_setPcb_same {p : Pid} {b : Pcb} (hpid : b.pid = (k.procs.controlBlocks p).pid) :
    (k.setPcb p b).slots = k.slots := by
  refine Prod.ext (funext fun q => ?_) ?_
  · rcases eq_or_ne q p with rfl | hne
    · simp [Kernel.slots, Kernel.setPcb, hpid]
    · simp [Kernel.slots, Kernel.setPcb, Function.update_of_ne hne]
  · rfl

/-- No `open`, `read` or `close` touches the counter or a `pid` field. -/
theorem callFrame_slots : CallFrame Kernel.slots where
  fds := fun _ _ _ => slots_setPcb_same rfl
  interrupts := fun _ _ => rfl
  rtc := fun _ _ => rfl
  output := fun _ _ _ => rfl
  reader := fun _ _ _ => rfl

theorem slots_clearArgs (k : Kernel) : (clearArgs k).slots = k.slots := slots_setPcb_same rfl

/-- `create_new_pcb` takes the block that it has found. -/
theorem slots_createNewPcb {parent q : Pid} (h : createNewPcb k parent = some (q, k')) :
    freePid k = some q ∧
      k'.slots = (Function.update k.slots.1 q q.val, k.slots.2 + 1) := by
  simp only [createNewPcb] at h
  split at h
  · cases h
  next p hp =>
    obtain ⟨rfl, rfl⟩ := Prod.mk.inj (Option.some.inj h)
    refine ⟨hp, ?_⟩
    rw [slots_clearArgs]
    refine Prod.ext (funext fun q => ?_) ?_
    · rcases eq_or_ne q p with rfl | hne
      · simp [Kernel.slots, Kernel.setActive, claimPcb, Kernel.setPcb]
      · simp [Kernel.slots, Kernel.setActive, claimPcb, Kernel.setPcb, Function.update_of_ne hne]
    · rfl

/-- The second part of `execute` takes one block. -/
theorem slots_executeSpawn {command : CString} {buf : Nat → UInt8}
    (h : executeSpawn frame k command buf = some k') :
    ∃ q, freePid k = some q ∧
      k'.slots = (Function.update k.slots.1 q q.val, k.slots.2 + 1) := by
  obtain ⟨q, hs⟩ := spawns_of_executeSpawn h
  exact ⟨q, hs.free, Prod.ext (hs.field Pcb.pid fun _ _ => rfl) hs.count⟩

theorem slots_getargs (k : Kernel) (buf : Option Word) (nbytes : Int) :
    (getargs k buf nbytes).kernel.slots = k.slots := by
  rcases getargs_kernel k buf nbytes with hk | hk
  · rw [hk]
    rfl
  · rw [hk, slots_clearArgs]
    rfl

/-- `halt` frees the block of the current process. -/
theorem slots_halt (k : Kernel) : (halted (halt k)).slots =
    (Function.update k.slots.1 k.procs.currentPid (-1), k.slots.2 - 1) := by
  refine Prod.ext (funext fun q => ?_) ?_
  · rcases eq_or_ne q k.procs.currentPid with rfl | hne
    · simp [Kernel.slots, halted, halt, deschedule, destroyPcb, Kernel.setPcb, Kernel.runAs]
    · simp [Kernel.slots, halted, halt, deschedule, destroyPcb, Kernel.setPcb, Kernel.runAs,
        Function.update_of_ne hne]
  · rfl

/-- The block that `create_new_pcb` finds is free, and not that of the sentinel. -/
theorem free_of_freePid {q : Pid} (h : freePid k = some q) :
    q ≠ sentinelProcess ∧ k.slots.1 q = -1 := by
  have hfree := List.find?_some h
  have hmem := List.mem_of_find?_eq_some h
  constructor
  · rintro rfl
    exact absurd hmem (by decide)
  · exact of_decide_eq_true hfree

/-- The search finds a block if one is free. -/
theorem freePid_of_free {p : Pid} (hp : p ≠ sentinelProcess) (hfree : k.slots.1 p = -1) :
    ∃ q, freePid k = some q := by
  have hmem : ∀ p, p ≠ sentinelProcess → p ∈ pcbSlots := by decide
  have hsome : (freePid k).isSome :=
    List.find?_isSome.mpr ⟨p, hmem p hp, decide_eq_true hfree⟩
  exact Option.isSome_iff_exists.mp hsome

end Slots

/-! ## What keeps the agreement -/

section Agreement

variable {img : FsImage} {k k' : Kernel}

theorem mem_liveSlots {pids : Pid → Int} {p : Pid} :
    p ∈ liveSlots pids ↔ p ≠ sentinelProcess ∧ pids p ≠ -1 := by
  simp [liveSlots]

/-- Taking a free block. -/
theorem liveSlots_insert {pids : Pid → Int} {q : Pid} (hq : q ≠ sentinelProcess)
    {v : Int} (hv : v ≠ -1) :
    liveSlots (Function.update pids q v) = insert q (liveSlots pids) := by
  ext p
  rw [Finset.mem_insert, mem_liveSlots, mem_liveSlots]
  rcases eq_or_ne p q with rfl | hne
  · simp [hq, hv]
  · simp [hne]

/-- Freeing a block. -/
theorem liveSlots_erase (pids : Pid → Int) (q : Pid) :
    liveSlots (Function.update pids q (-1)) = (liveSlots pids).erase q := by
  ext p
  rw [Finset.mem_erase, mem_liveSlots, mem_liveSlots]
  rcases eq_or_ne p q with rfl | hne
  · simp
  · simp [hne]

theorem Accounted.of_slots (h : Accounted k) (hslots : k'.slots = k.slots) : Accounted k' where
  slots := hslots ▸ h.slots
  count := hslots ▸ h.count

/-- A new process. -/
theorem Accounted.spawn (h : Accounted k) {q : Pid} (hfree : freePid k = some q)
    (hslots : k'.slots = (Function.update k.slots.1 q q.val, k.slots.2 + 1)) : Accounted k' := by
  obtain ⟨hq, hpid⟩ := free_of_freePid hfree
  constructor
  · intro p hp
    rw [hslots]
    rcases eq_or_ne p q with rfl | hne
    · exact Or.inr (Function.update_self _ _ _)
    · simp only [Function.update_of_ne hne]
      exact h.slots p hp
  · have hnew : q ∉ liveSlots k.slots.1 := fun hmem => (mem_liveSlots.mp hmem).2 hpid
    have hval : ((q.val : Nat) : Int) ≠ -1 := by omega
    rw [hslots]
    simp only [liveSlots_insert hq hval, Finset.card_insert_of_notMem hnew, h.count]
    push_cast
    rfl

/-- The end of a live process. -/
theorem Accounted.halt (h : Accounted k) {q : Pid} (hq : q ≠ sentinelProcess)
    (hlive : k.slots.1 q ≠ -1)
    (hslots : k'.slots = (Function.update k.slots.1 q (-1), k.slots.2 - 1)) : Accounted k' := by
  constructor
  · intro p hp
    rw [hslots]
    rcases eq_or_ne p q with rfl | hne
    · exact Or.inl (Function.update_self _ _ _)
    · simp only [Function.update_of_ne hne]
      exact h.slots p hp
  · have hmem : q ∈ liveSlots k.slots.1 := mem_liveSlots.mpr ⟨hq, hlive⟩
    have hcard := Finset.card_erase_add_one hmem
    rw [hslots]
    simp only [liveSlots_erase, h.count]
    omega

/-- The kernel before the first program. -/
theorem accounted_boot (espBoot : Word) : Accounted (bootKernel espBoot) where
  slots := by
    intro p hp
    left
    simp [Kernel.slots, bootKernel, initialPcb, hp]
  count := by
    have hnone : liveSlots (bootKernel espBoot).slots.1 = ∅ := by
      ext p
      simp [mem_liveSlots, Kernel.slots, bootKernel, initialPcb]
    rw [hnone]
    rfl

/-- The counter is at its limit exactly if all blocks are taken. -/
theorem Accounted.guard_iff (h : Accounted k) :
    k.procs.numActiveProcesses ≥ maxProcesses ↔ ∀ p, p ≠ sentinelProcess → k.Live p := by
  have hcount : k.procs.numActiveProcesses = (liveSlots k.slots.1).card := h.count
  have hsix : (Finset.univ.erase sentinelProcess).card = 6 := by decide
  have hsub : liveSlots k.slots.1 ⊆ Finset.univ.erase sentinelProcess := by
    intro p hp
    exact Finset.mem_erase.mpr ⟨(mem_liveSlots.mp hp).1, Finset.mem_univ p⟩
  rw [hcount, maxProcesses]
  constructor
  · intro hfull p hp
    have heq := Finset.eq_of_subset_of_card_le hsub (by omega)
    have hmem : p ∈ liveSlots k.slots.1 := by
      rw [heq]
      exact Finset.mem_erase.mpr ⟨hp, Finset.mem_univ p⟩
    exact (mem_liveSlots.mp hmem).2
  · intro hall
    have hsup : Finset.univ.erase sentinelProcess ⊆ liveSlots k.slots.1 := by
      intro p hp
      have hne := (Finset.mem_erase.mp hp).1
      exact mem_liveSlots.mpr ⟨hne, hall p hne⟩
    have hle := Finset.card_le_card hsup
    omega

/-- The counter lies between `0` and `6`. -/
theorem Accounted.bounds (h : Accounted k) :
    0 ≤ k.procs.numActiveProcesses ∧ k.procs.numActiveProcesses ≤ maxProcesses := by
  have hcount : k.procs.numActiveProcesses = (liveSlots k.slots.1).card := h.count
  have hsix : (Finset.univ.erase sentinelProcess).card = 6 := by decide
  have hsub : liveSlots k.slots.1 ⊆ Finset.univ.erase sentinelProcess := by
    intro p hp
    exact Finset.mem_erase.mpr ⟨(mem_liveSlots.mp hp).1, Finset.mem_univ p⟩
  have hle := Finset.card_le_card hsub
  rw [hcount, maxProcesses]
  omega

/-- A program that has passed the test of the counter. -/
theorem numActive_of_loaded {res : Residue} {frame : ExecuteFrame} {command : Option CString}
    {buf : Nat → UInt8} (h : executeLoad img res frame k command = .loaded buf k') :
    k.procs.numActiveProcesses < maxProcesses := by
  cases effect_of_executeLoad h with
  | loaded hnum => exact hnum

/-- What `execute` relies on holds in every accounted state. -/
theorem Accounted.slotsServe (h : Accounted k) : SlotsServe img k where
  guard := h.guard_iff
  refuses := by
    intro hall res frame caller command
    have hfull : (k.enter caller).procs.numActiveProcesses ≥ maxProcesses := h.guard_iff.mpr hall
    cases command with
    | none => rfl
    | some cmd => simp only [execute, executeLoad, if_pos hfull]
  allocates := by
    intro res frame caller command buf k₁ hload
    have hnum : k.procs.numActiveProcesses < maxProcesses :=
      numActive_of_loaded (k := k.enter caller) hload
    have hsame : k₁.slots = (k.enter caller).slots := callFrame_slots.executeLoad.2 buf hload
    change k₁.slots = k.slots at hsame
    -- some block is free, since the counter is not at its limit
    have hroom : ∃ p, p ≠ sentinelProcess ∧ k₁.slots.1 p = -1 := by
      by_contra hnone
      simp only [not_exists, not_and, hsame] at hnone
      exact absurd (h.guard_iff.mpr hnone) (not_le.mpr hnum)
    obtain ⟨p, hp, hfree⟩ := hroom
    obtain ⟨q, hq⟩ := freePid_of_free hp hfree
    obtain ⟨hne, hpid⟩ := free_of_freePid hq
    have hcreate : ∃ k₂, createNewPcb k₁ k₁.procs.currentPid = some (q, k₂) := by
      simp only [createNewPcb, hq]
      exact ⟨_, rfl⟩
    obtain ⟨k₂, hk₂⟩ := hcreate
    refine ⟨q, k₂, hk₂, hne, hpid, ?_⟩
    have hslots := (slots_createNewPcb hk₂).2
    have hpids := congrFun (congrArg Prod.fst hslots) q
    exact hpids.trans (Function.update_self _ _ _)

end Agreement

end Ece391Os
