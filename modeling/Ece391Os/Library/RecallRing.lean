import Mathlib.Data.List.GetD
import Mathlib.Tactic.Cases

/-!
# A ring of recalled lines

A ring of `size` slots for the lines that have been submitted. The slot for the next line also
takes the line in progress while an older one is shown, so the ring recalls the last `size - 1`
lines. Depth `0` is the line in progress, depth `d + 1` the line submitted `d` lines before the
last one.
-/

set_option autoImplicit false

namespace RecallRing

variable {α : Type*}

/-! ## Depth -/

/-- A move through the submitted lines. -/
inductive Move where
  | older
  | newer
  deriving DecidableEq, Repr

/-- The depth after a move, with the deepest depth `bound`. -/
def Move.depth (bound d : Nat) : Move → Nat
  | .older => min (d + 1) bound
  | .newer => d - 1

/-- The depth after some moves from depth `d`. -/
def depthAfter (bound : Nat) : Nat → List Move → Nat
  | d, [] => d
  | d, m :: moves => depthAfter bound (m.depth bound d) moves

/-- The line at a depth: `recent` are the submitted lines, the last one first. -/
def lineAt (recent : List α) (draft : α) : Nat → α
  | 0 => draft
  | d + 1 => recent.getD d draft

theorem Move.depth_le {bound d : Nat} (hd : d ≤ bound) (m : Move) : m.depth bound d ≤ bound := by
  cases m with
  | older => exact Nat.min_le_right _ _
  | newer => exact Nat.le_trans (Nat.sub_le _ _) hd

/-- From depth `0` only a move to an older line leaves it, and only if there is one. -/
theorem Move.depth_zero {bound : Nat} {m : Move} (hm : bound = 0 ∨ m = .newer) :
    m.depth bound 0 = 0 := by
  cases m with
  | older =>
      rcases hm with rfl | hm
      · rfl
      · cases hm
  | newer => rfl

/-! ## Slots -/

/-- The slot, after `n` lines, of the line at depth `d`. -/
def slot (size n d : Nat) : Int := ((n : Int) - d) % size

section Slots

variable {size n d : Nat}

theorem slot_fits (hsize : 0 < size) : 0 ≤ slot size n d ∧ slot size n d < size :=
  ⟨Int.emod_nonneg _ (by omega), Int.emod_lt_of_pos _ (by omega)⟩

/-- One line more, one step deeper: the same slot. -/
theorem slot_succ_succ : slot size (n + 1) (d + 1) = slot size n d := by
  have hsame : ((n + 1 : Nat) : Int) - (d + 1 : Nat) = n - d := by omega
  rw [slot, hsame, slot]

/-- The slot in front of a slot in the ring is one step deeper. -/
theorem slot_older (hsize : 0 < size) :
    (if slot size n d - 1 < 0 then (size : Int) - 1 else slot size n d - 1) =
      slot size n (d + 1) := by
  obtain ⟨hlow, hhigh⟩ := slot_fits (n := n) (d := d) hsize
  have hdeeper : slot size n (d + 1) = (slot size n d - 1) % size := by
    rw [slot, slot, Int.emod_sub_emod]
    congr 1
    omega
  rw [hdeeper]
  split
  next hwrap =>
    have hzero : slot size n d - 1 = -1 := by omega
    rw [hzero, ← Int.add_emod_right, Int.emod_eq_of_lt (by omega) (by omega)]
    omega
  next hstay => rw [Int.emod_eq_of_lt (by omega) (by omega)]

/-- The slot behind a slot in the ring is one step less deep. -/
theorem slot_newer : (slot size n (d + 1) + 1) % size = slot size n d := by
  rw [slot, slot, Int.emod_add_emod]
  congr 1
  omega

/-- Depths below the size of the ring have slots of their own. -/
theorem slot_injective {d' : Nat} (hd : d < size) (hd' : d' < size)
    (hslot : slot size n d = slot size n d') : d = d' := by
  have hdvd : (size : Int) ∣ (n - d) - (n - d') :=
    Int.dvd_of_emod_eq_zero (Int.emod_eq_emod_iff_emod_sub_eq_zero.mp hslot)
  have hzero : ((n : Int) - d) - (n - d') = 0 := by
    apply Int.eq_zero_of_dvd_of_natAbs_lt_natAbs hdvd
    omega
  omega

/-- As long as the ring is not full, slot `0` is that of the oldest line. -/
theorem slot_eq_zero_iff (hn : n < size) (hd : d ≤ n) : slot size n d = 0 ↔ d = n := by
  have hslot : slot size n d = n - d := Int.emod_eq_of_lt (by omega) (by omega)
  rw [hslot]
  omega

end Slots

/-! ## What the ring keeps -/

/-- The ring keeps the last `size - 1` lines. -/
def Keeps (size : Nat) (ring : Int → α) (recent : List α) : Prop :=
  ∀ d (hd : d < recent.length), d + 1 < size → ring (slot size recent.length (d + 1)) = recent[d]

namespace Keeps

variable {size : Nat} {ring ring' : Int → α} {recent : List α}

/-- Without lines there is nothing to keep. -/
theorem nil : Keeps size ring [] := fun _ hd => absurd hd (Nat.not_lt_zero _)

/-- The line at a depth within reach. -/
theorem lineAt_eq (h : Keeps size ring recent) {d : Nat}
    (hreach : d + 1 ≤ min recent.length (size - 1)) (draft : α) :
    ring (slot size recent.length (d + 1)) = lineAt recent draft (d + 1) := by
  have hd : d < recent.length := by omega
  rw [h d hd (by omega), lineAt, List.getD_eq_getElem _ _ hd]

/-- The slot of the line in progress can be overwritten. -/
theorem of_eq_off (h : Keeps size ring recent)
    (hring' : ∀ j, j ≠ slot size recent.length 0 → ring' j = ring j) : Keeps size ring' recent := by
  intro d hd hsize
  rw [hring', h d hd hsize]
  intro hslot
  have hzero := slot_injective hsize (by omega) hslot
  omega

/-- A line that is put in the slot of the line in progress is submitted when the next slot takes
its place. -/
theorem submit (h : Keeps size ring recent) {line : α}
    (hline : ring' (slot size recent.length 0) = line)
    (hring' : ∀ j, j ≠ slot size recent.length 0 → ring' j = ring j) :
    Keeps size ring' (line :: recent) := by
  have hkept := h.of_eq_off hring'
  intro d hd hsize
  rw [List.length_cons, slot_succ_succ]
  cases d with
  | zero => exact hline
  | succ d => exact hkept d (Nat.lt_of_succ_lt_succ hd) (by omega)

end Keeps

end RecallRing
