import Mathlib.Algebra.BigOperators.Group.List.Basic
import Mathlib.Data.BitVec
import Mathlib.Logic.Function.Basic
import Mathlib.Tactic.Abel

/-!
# Copies in a memory with cyclic addresses

A memory of cells over `w`-bit addresses, where the address behind the last one is the first one.
A copy in blocks reads a block whole before it writes it and goes upwards. `copyBlocks_eq_copy_iff`
says when that is a copy of the whole range at once, whatever the memory holds: the two addresses
agree, or the distance from the source up to the destination is at least the length, or there is
one block only. A copy downwards is one upwards in the mirrored memory.
-/

set_option autoImplicit false

namespace CyclicMemory

variable {w : Nat} {V : Type*}

/-- The memory with `f 0, …, f (n - 1)` in the cells from address `a` on. -/
def fill (m : BitVec w → V) (a : BitVec w) (f : Nat → V) (n : Nat) : BitVec w → V :=
  fun x => if (x - a).toNat < n then f (x - a).toNat else m x

/-- The cells from `src` on, all read first, are written to the cells from `dst` on. -/
def copy (m : BitVec w → V) (dst src : BitVec w) (n : Nat) : BitVec w → V :=
  fill m dst (fun i => m (src + BitVec.ofNat w i)) n

/-- Copies of blocks of the given lengths, upwards. -/
def copyBlocks : List Nat → (BitVec w → V) → BitVec w → BitVec w → BitVec w → V
  | [], m, _, _ => m
  | b :: bs, m, dst, src =>
      copyBlocks bs (copy m dst src b) (dst + BitVec.ofNat w b) (src + BitVec.ofNat w b)

section Fill

variable {m : BitVec w → V} {a x : BitVec w} {f g : Nat → V} {n k l : Nat}

/-- The address at distance `i`. -/
theorem toNat_add_ofNat_sub (a : BitVec w) {i : Nat} (hi : i < 2 ^ w) :
    (a + BitVec.ofNat w i - a).toNat = i := by
  rw [BitVec.add_comm, BitVec.add_sub_cancel, BitVec.toNat_ofNat, Nat.mod_eq_of_lt hi]

theorem add_ofNat_toNat_sub (a x : BitVec w) : a + BitVec.ofNat w (x - a).toNat = x := by
  rw [BitVec.ofNat_toNat, BitVec.setWidth_eq, BitVec.add_comm, BitVec.sub_add_cancel]

theorem fill_zero (m : BitVec w → V) (a : BitVec w) (f : Nat → V) : fill m a f 0 = m := by
  funext x
  exact if_neg (Nat.not_lt_zero _)

theorem fill_add_ofNat {i : Nat} (hi : i < 2 ^ w) :
    fill m a f n (a + BitVec.ofNat w i) = if i < n then f i else m (a + BitVec.ofNat w i) := by
  rw [fill, toNat_add_ofNat_sub a hi]

theorem fill_congr (h : ∀ i, i < n → f i = g i) : fill m a f n = fill m a g n := by
  funext x
  rw [fill, fill]
  split
  next hlt => exact h _ hlt
  next => rfl

theorem fill_one (m : BitVec w → V) (a : BitVec w) (f : Nat → V) :
    fill m a f 1 = Function.update m a (f 0) := by
  funext x
  rw [fill]
  rcases eq_or_ne x a with rfl | hne
  · rw [Function.update_self, BitVec.sub_self, BitVec.toNat_zero, if_pos Nat.one_pos]
  · rw [Function.update_of_ne hne, if_neg]
    intro hlt
    have hzero : x - a = 0#w := BitVec.eq_of_toNat_eq (by rw [BitVec.toNat_zero]; omega)
    exact hne (by rw [← BitVec.sub_add_cancel x a, hzero, BitVec.zero_add])

/-- The distance of an address behind the first `k` cells. -/
theorem toNat_sub_add (hk : k < 2 ^ w) :
    (x - (a + BitVec.ofNat w k)).toNat = if (x - a).toNat < k then (x - a).toNat + 2 ^ w - k
      else (x - a).toNat - k := by
  have hsub : x - (a + BitVec.ofNat w k) = x - a - BitVec.ofNat w k := sub_add_eq_sub_sub x a _
  have hx := (x - a).isLt
  rw [hsub, BitVec.toNat_sub, BitVec.toNat_ofNat, Nat.mod_eq_of_lt hk]
  split
  next hlt => exact (Nat.mod_eq_of_lt (by omega)).trans (by omega)
  next hge =>
    have hwrap : 2 ^ w - k + (x - a).toNat = (x - a).toNat - k + 2 ^ w := by omega
    rw [hwrap, Nat.add_mod_right]
    exact Nat.mod_eq_of_lt (by omega)

/-- A range that is filled in two parts. -/
theorem fill_add (h : k + l ≤ 2 ^ w) :
    fill (fill m a f k) (a + BitVec.ofNat w k) (fun i => f (k + i)) l = fill m a f (k + l) := by
  rcases Nat.eq_zero_or_pos l with rfl | hl
  · rw [fill_zero]
    rfl
  · funext x
    have hx := (x - a).isLt
    simp only [fill, toNat_sub_add (by omega : k < 2 ^ w)]
    by_cases hk : (x - a).toNat < k
    · rw [if_pos hk, if_neg (by omega), if_pos hk, if_pos (by omega)]
    · rw [if_neg hk]
      by_cases hkl : (x - a).toNat < k + l
      · rw [if_pos (by omega), if_pos hkl, Nat.add_sub_cancel' (by omega)]
      · rw [if_neg (by omega), if_neg hk, if_neg hkl]

end Fill

section Copy

variable {m : BitVec w → V} {dst src x : BitVec w} {n k l : Nat}

theorem copy_zero (m : BitVec w → V) (dst src : BitVec w) : copy m dst src 0 = m :=
  fill_zero m dst _

theorem ofNat_add_ofNat (a : BitVec w) (i j : Nat) :
    a + BitVec.ofNat w i + BitVec.ofNat w j = a + BitVec.ofNat w (i + j) := by
  rw [BitVec.add_assoc, BitVec.ofNat_add]

/-- The source at distance `d` below the destination: cell `i + d` of it is cell `i` of the
destination. -/
theorem src_add_distance (dst src : BitVec w) (i : Nat) :
    src + BitVec.ofNat w ((dst - src).toNat + i) = dst + BitVec.ofNat w i := by
  rw [← ofNat_add_ofNat, add_ofNat_toNat_sub]

/-- What a copy of the first `k` cells has left of a later cell of the source. -/
theorem copy_src (hdist : dst = src ∨ k + l ≤ (dst - src).toNat) (hk : k + l ≤ 2 ^ w) {i : Nat}
    (hi : i < l) : copy m dst src k (src + BitVec.ofNat w (k + i)) =
      m (src + BitVec.ofNat w (k + i)) := by
  rw [copy, fill, if_neg]
  rcases hdist with rfl | hdist
  · rw [toNat_add_ofNat_sub _ (by omega)]
    omega
  · -- the cell lies below the destination
    have hlt := (dst - src).isLt
    have hsub : src + BitVec.ofNat w (k + i) - dst = BitVec.ofNat w (k + i) - (dst - src) := by
      abel
    rw [hsub, BitVec.toNat_sub, BitVec.toNat_ofNat, Nat.mod_eq_of_lt (by omega : k + i < 2 ^ w),
      Nat.mod_eq_of_lt (by omega)]
    omega

/-- A copy that goes on. -/
theorem copy_add (hdist : dst = src ∨ k + l ≤ (dst - src).toNat) (hk : k + l ≤ 2 ^ w) :
    copy (copy m dst src k) (dst + BitVec.ofNat w k) (src + BitVec.ofNat w k) l =
      copy m dst src (k + l) := by
  have hcells : copy (copy m dst src k) (dst + BitVec.ofNat w k) (src + BitVec.ofNat w k) l =
      fill (copy m dst src k) (dst + BitVec.ofNat w k)
        (fun i => m (src + BitVec.ofNat w (k + i))) l := by
    apply fill_congr
    intro i hi
    rw [ofNat_add_ofNat, copy_src hdist hk hi]
  rw [hcells]
  exact fill_add hk

theorem copyBlocks_append (bs cs : List Nat) (m : BitVec w → V) (dst src : BitVec w) :
    copyBlocks (bs ++ cs) m dst src = copyBlocks cs (copyBlocks bs m dst src)
      (dst + BitVec.ofNat w bs.sum) (src + BitVec.ofNat w bs.sum) := by
  induction bs generalizing m dst src with
  | nil => simp only [List.nil_append, List.sum_nil, copyBlocks, BitVec.add_zero]
  | cons b bs ih => rw [List.cons_append, copyBlocks, copyBlocks, ih, List.sum_cons,
      ofNat_add_ofNat, ofNat_add_ofNat]

/-- Blocks behind an exact copy of the first `k` cells. -/
theorem copyBlocks_copy {bs : List Nat} (hdist : dst = src ∨ k + bs.sum ≤ (dst - src).toNat)
    (hk : k + bs.sum ≤ 2 ^ w) :
    copyBlocks bs (copy m dst src k) (dst + BitVec.ofNat w k) (src + BitVec.ofNat w k) =
      copy m dst src (k + bs.sum) := by
  induction bs generalizing k with
  | nil => rfl
  | cons b bs ih =>
      rw [List.sum_cons] at hdist hk ⊢
      rw [copyBlocks, copy_add (hdist.imp_right (by omega)) (by omega), ofNat_add_ofNat,
        ofNat_add_ofNat, ih (hdist.imp_right (by omega)) (by omega), Nat.add_assoc]

/-- Without an overlap that the copy runs into, blocks do what one copy does. -/
theorem copyBlocks_eq_copy {bs : List Nat} (hdist : dst = src ∨ bs.sum ≤ (dst - src).toNat)
    (hn : bs.sum ≤ 2 ^ w) : copyBlocks bs m dst src = copy m dst src bs.sum := by
  have hrun : copyBlocks bs (copy m dst src 0) (dst + BitVec.ofNat w 0) (src + BitVec.ofNat w 0) =
      copy m dst src (0 + bs.sum) := copyBlocks_copy (hdist.imp_right (by omega)) (by omega)
  rwa [copy_zero, Nat.zero_add, BitVec.add_zero, BitVec.add_zero] at hrun

/-- Cells outside of the blocks are not written. -/
theorem copyBlocks_outside {bs : List Nat} (hx : bs.sum ≤ (x - dst).toNat) :
    copyBlocks bs m dst src x = m x := by
  have hlt := (x - dst).isLt
  induction bs generalizing m dst src with
  | nil => rfl
  | cons b bs ih =>
      rw [List.sum_cons] at hx
      have hb : copy m dst src b x = m x := if_neg (by omega)
      have hrest := toNat_sub_add (a := dst) (x := x) (by omega : b < 2 ^ w)
      rw [if_neg (by omega)] at hrest
      rw [copyBlocks, ih (by omega) (BitVec.isLt _), hb]

end Copy

/-! ## Overlaps -/

section Overlap

variable {dst src : BitVec w} {bs : List Nat} {d : Nat}

/-- The block in which a copy first reads what it has written. -/
theorem exists_block {xs rest : List Nat} (hpos : 0 < xs.sum) (hxs : xs.length = 1 ∨ xs.sum ≤ d)
    (hrest : rest ≠ []) (hd : d < xs.sum + rest.sum) :
    ∃ xs' b ys, xs ++ rest = xs' ++ b :: ys ∧ 0 < xs'.sum ∧ (xs'.length = 1 ∨ xs'.sum ≤ d) ∧
      d < xs'.sum + b := by
  induction rest generalizing xs with
  | nil => exact absurd rfl hrest
  | cons b ys ih =>
      by_cases hb : d < xs.sum + b
      · exact ⟨xs, b, ys, rfl, hpos, hxs, hb⟩
      · have hsum : (xs ++ [b]).sum = xs.sum + b := by
          rw [List.sum_append, List.sum_singleton]
        rw [List.sum_cons] at hd
        have hys : ys ≠ [] := by
          rintro rfl
          rw [List.sum_nil] at hd
          omega
        obtain ⟨xs', b', ys', heq, hrest'⟩ := ih (by omega : 0 < (xs ++ [b]).sum)
          (Or.inr (by omega)) hys (by omega)
        exact ⟨xs', b', ys', by rw [← heq, List.append_assoc]; rfl, hrest'⟩

theorem copyBlocks_singleton (m : BitVec w → V) (dst src : BitVec w) (b : Nat) :
    copyBlocks [b] m dst src = copy m dst src [b].sum := by
  rw [List.sum_singleton]
  rfl

/-- Behind an exact copy of `s` cells, the next block takes up cell `p` of the source from the
destination, where it is cell `p - d`. -/
theorem copyBlocks_overlap {m : BitVec w → V} {ys : List Nat} {s b p : Nat}
    (hsp : s ≤ p) (hpb : p < s + b) (hd : (dst - src).toNat ≤ p) (hps : p - (dst - src).toNat < s)
    (hn : s + (b + ys.sum) ≤ 2 ^ w) :
    copyBlocks (b :: ys) (copy m dst src s) (dst + BitVec.ofNat w s) (src + BitVec.ofNat w s)
      (dst + BitVec.ofNat w p) = m (src + BitVec.ofNat w (p - (dst - src).toNat)) := by
  have houtside : ys.sum ≤
      (dst + BitVec.ofNat w p - (dst + BitVec.ofNat w s + BitVec.ofNat w b)).toNat := by
    rcases Nat.eq_zero_or_pos ys.sum with hzero | hys
    · omega
    · rw [ofNat_add_ofNat, toNat_sub_add (by omega), toNat_add_ofNat_sub _ (by omega),
        if_pos (by omega)]
      omega
  have hp : p = s + (p - s) := by omega
  rw [copyBlocks, copyBlocks_outside houtside, copy]
  nth_rewrite 1 [hp]
  rw [← ofNat_add_ofNat, fill_add_ofNat (by omega), if_pos (by omega), ofNat_add_ofNat, ← hp]
  have hread := src_add_distance dst src (p - (dst - src).toNat)
  rw [Nat.add_sub_cancel' hd] at hread
  rw [hread, copy, fill_add_ofNat (by omega), if_pos hps]

/-- Copies in blocks are copies of the whole range, whatever the memory holds, exactly if the range
has no overlap that they run into or there is one block only. -/
theorem copyBlocks_eq_copy_iff (V : Type*) [Nontrivial V] (dst src : BitVec w)
    (hpos : ∀ b ∈ bs, 0 < b) (hn : bs.sum ≤ 2 ^ w) :
    (∀ m : BitVec w → V, copyBlocks bs m dst src = copy m dst src bs.sum) ↔
      dst = src ∨ bs.sum ≤ (dst - src).toNat ∨ bs.length ≤ 1 := by
  constructor
  · intro hall
    by_contra hnot
    simp only [not_or, not_le] at hnot
    obtain ⟨hne, hd, hlen⟩ := hnot
    have hdist : 0 < (dst - src).toNat := by
      refine Nat.pos_of_ne_zero fun hzero => hne ?_
      rw [← add_ofNat_toNat_sub src dst, hzero, BitVec.add_zero]
    obtain ⟨xs, b, ys, rfl, hxs, hexact, hb⟩ : ∃ xs b ys, bs = xs ++ b :: ys ∧ 0 < xs.sum ∧
        (xs.length = 1 ∨ xs.sum ≤ (dst - src).toNat) ∧ (dst - src).toNat < xs.sum + b := by
      cases bs with
      | nil => exact absurd hlen (by decide)
      | cons b rest =>
          have hrest : rest ≠ [] := by
            rintro rfl
            exact absurd hlen (lt_irrefl 1)
          have hb : 0 < [b].sum := by
            rw [List.sum_singleton]
            exact hpos b List.mem_cons_self
          refine exists_block hb (Or.inl rfl) hrest ?_
          rw [List.sum_singleton]
          rwa [List.sum_cons] at hd
    have hbpos : 0 < b := hpos b (List.mem_append_right _ List.mem_cons_self)
    rw [List.sum_append, List.sum_cons] at hn
    have hprefix : ∀ m : BitVec w → V, copyBlocks xs m dst src = copy m dst src xs.sum := by
      intro m
      rcases hexact with hone | hle
      · obtain ⟨b', rfl⟩ := List.length_eq_one_iff.mp hone
        exact copyBlocks_singleton m dst src b'
      · exact copyBlocks_eq_copy (Or.inr hle) (by omega)
    -- the cell that is taken up from the destination holds another value than the one it replaces
    obtain ⟨p, hsp, hpb, hdp, hps⟩ : ∃ p, xs.sum ≤ p ∧ p < xs.sum + b ∧ (dst - src).toNat ≤ p ∧
        p - (dst - src).toNat < xs.sum := by
      rcases le_total (dst - src).toNat xs.sum with hle | hle
      · exact ⟨xs.sum, le_rfl, by omega, hle, by omega⟩
      · exact ⟨(dst - src).toNat, hle, hb, le_rfl, by omega⟩
    have hcell : ∀ m : BitVec w → V,
        m (src + BitVec.ofNat w (p - (dst - src).toNat)) = m (src + BitVec.ofNat w p) := by
      intro m
      have hcell := congrFun (hall m) (dst + BitVec.ofNat w p)
      rwa [copyBlocks_append, hprefix, copyBlocks_overlap hsp hpb hdp hps hn, copy,
        fill_add_ofNat (by omega), List.sum_append, List.sum_cons, if_pos (by omega)] at hcell
    obtain ⟨y, z, hyz⟩ := exists_pair_ne V
    have hvalue := hcell fun x => if x = src + BitVec.ofNat w p then y else z
    simp only [if_true] at hvalue
    rw [if_neg] at hvalue
    · exact hyz hvalue.symm
    · intro heq
      have hsub := congrArg (fun x => (x - src).toNat) heq
      simp only [toNat_add_ofNat_sub src (by omega : p < 2 ^ w),
        toNat_add_ofNat_sub src (by omega : p - (dst - src).toNat < 2 ^ w)] at hsub
      omega
  · rintro (heq | hle | hlen) m
    · exact copyBlocks_eq_copy (Or.inl heq) hn
    · exact copyBlocks_eq_copy (Or.inr hle) hn
    · cases bs with
      | nil => exact (copy_zero m dst src).symm
      | cons b rest =>
          obtain rfl : rest = [] := List.length_eq_zero_iff.mp (by
            rw [List.length_cons] at hlen
            omega)
          exact copyBlocks_singleton m dst src b

/-- The case of a copy cell by cell. -/
theorem copyCells_eq_copy_iff (V : Type*) [Nontrivial V] (dst src : BitVec w) {n : Nat}
    (hn : n ≤ 2 ^ w) : (∀ m : BitVec w → V, copyBlocks (List.replicate n 1) m dst src =
      copy m dst src n) ↔ dst = src ∨ n ≤ (dst - src).toNat ∨ n ≤ 1 := by
  have hsum : (List.replicate n 1).sum = n := by
    rw [List.sum_replicate_nat, Nat.mul_one]
  have hpos : ∀ b ∈ List.replicate n 1, 0 < b := by
    intro b hb
    rw [List.eq_of_mem_replicate hb]
    exact Nat.one_pos
  have hiff := copyBlocks_eq_copy_iff V dst src hpos (by rw [hsum]; exact hn)
  rwa [hsum, List.length_replicate] at hiff

end Overlap

/-! ## Downwards -/

/-- A copy of `n` cells one by one, downwards from the last ones. -/
def copyDown : Nat → (BitVec w → V) → BitVec w → BitVec w → BitVec w → V
  | 0, m, _, _ => m
  | n + 1, m, dst, src => copyDown n (Function.update m dst (m src)) (dst - 1) (src - 1)

/-- The memory with its addresses reversed. -/
def mirror (m : BitVec w → V) : BitVec w → V := fun x => m (-x)

section Down

variable {m : BitVec w → V} {dst src : BitVec w} {n : Nat}

theorem mirror_mirror (m : BitVec w → V) : mirror (mirror m) = m := by
  funext x
  rw [mirror, mirror, neg_neg]

theorem mirror_inj {m m' : BitVec w → V} : mirror m = mirror m' ↔ m = m' := by
  constructor
  · intro h
    rw [← mirror_mirror m, h, mirror_mirror]
  · exact congrArg mirror

theorem mirror_update (m : BitVec w → V) (a : BitVec w) (v : V) :
    mirror (Function.update m a v) = Function.update (mirror m) (-a) v := by
  funext x
  rw [mirror]
  rcases eq_or_ne x (-a) with rfl | hne
  · rw [neg_neg, Function.update_self, Function.update_self]
  · rw [Function.update_of_ne hne, Function.update_of_ne]
    · rfl
    · exact fun h => hne (by rw [← h, neg_neg])

/-- In the mirrored memory the copy goes upwards. -/
theorem mirror_copyDown (n : Nat) (m : BitVec w → V) (dst src : BitVec w) :
    mirror (copyDown n m dst src) = copyBlocks (List.replicate n 1) (mirror m) (-dst) (-src) := by
  induction n generalizing m dst src with
  | zero => rfl
  | succ n ih =>
      have hcell : copy (mirror m) (-dst) (-src) 1 = mirror (Function.update m dst (m src)) := by
        rw [copy, fill_one, mirror_update, BitVec.add_zero, mirror, neg_neg]
      have hone : BitVec.ofNat w 1 = 1 := rfl
      have hnext : ∀ a : BitVec w, -a + BitVec.ofNat w 1 = -(a - 1) := fun a => by
        rw [hone, neg_sub, sub_eq_neg_add]
      rw [copyDown, ih, List.replicate_succ, copyBlocks, hcell, hnext, hnext]

/-- Distances from the two ends of a range. -/
theorem toNat_of_add {u v : BitVec w} (hn : n ≤ 2 ^ w) (h : u + v + 1 = BitVec.ofNat w n) :
    u.toNat < n ↔ v.toNat < n := by
  have hu := u.isLt
  have hv := v.isLt
  have hmod : (u.toNat + v.toNat + 1) % 2 ^ w = n % 2 ^ w := by
    have hnat := congrArg BitVec.toNat h
    have hone : (1 : BitVec w) = BitVec.ofNat w 1 := rfl
    rw [hone, BitVec.toNat_add, BitVec.toNat_add, BitVec.toNat_ofNat, BitVec.toNat_ofNat,
      ← Nat.add_mod] at hnat
    exact hnat
  have hcases : u.toNat + v.toNat + 1 = n ∨ u.toNat + v.toNat + 1 = n + 2 ^ w := by
    rcases Nat.lt_or_ge (u.toNat + v.toNat + 1) (2 ^ w) with hlt | hge
    · rw [Nat.mod_eq_of_lt hlt] at hmod
      rcases Nat.lt_or_eq_of_le hn with hn | hn
      · exact Or.inl (by rwa [Nat.mod_eq_of_lt hn] at hmod)
      · rw [hn, Nat.mod_self] at hmod
        omega
    · rw [Nat.mod_eq_sub_mod hge, Nat.mod_eq_of_lt (by omega)] at hmod
      rcases Nat.lt_or_eq_of_le hn with hn | hn
      · rw [Nat.mod_eq_of_lt hn] at hmod
        exact Or.inr (by omega)
      · rw [hn, Nat.mod_self] at hmod
        exact Or.inl (by omega)
  constructor
  · intro hlt
    omega
  · intro hlt
    omega

/-- A copy of a range, from the addresses of its last cells. -/
theorem mirror_copy (hn : n ≤ 2 ^ w) :
    mirror (copy m (dst + 1 - BitVec.ofNat w n) (src + 1 - BitVec.ofNat w n) n) =
      copy (mirror m) (-dst) (-src) n := by
  funext x
  have hsum : -x - (dst + 1 - BitVec.ofNat w n) + (x - -dst) + 1 = BitVec.ofNat w n := by
    abel
  have hiff := toNat_of_add hn hsum
  simp only [mirror, copy, fill]
  refine if_ctx_congr hiff (fun hlt => congrArg m ?_) fun _ => rfl
  -- the two ends agree about the cell of the source
  have hcell : src + 1 - BitVec.ofNat w n + (-x - (dst + 1 - BitVec.ofNat w n)) =
      -(-src + (x - -dst)) := by
    abel
  rw [BitVec.ofNat_toNat, BitVec.setWidth_eq, BitVec.ofNat_toNat, BitVec.setWidth_eq]
  exact hcell

/-- A copy downwards is a copy of the whole range, whatever the memory holds, exactly if the
distance from the destination up to the source is at least the length. -/
theorem copyDown_eq_copy_iff (V : Type*) [Nontrivial V] (dst src : BitVec w) (hn : n ≤ 2 ^ w) :
    (∀ m : BitVec w → V, copyDown n m dst src =
      copy m (dst + 1 - BitVec.ofNat w n) (src + 1 - BitVec.ofNat w n) n) ↔
      dst = src ∨ n ≤ (src - dst).toNat ∨ n ≤ 1 := by
  have hiff := copyCells_eq_copy_iff V (-dst) (-src) hn
  rw [neg_inj, neg_sub_neg] at hiff
  rw [← hiff]
  constructor
  · intro h m
    rw [← mirror_mirror m, ← mirror_copyDown, ← mirror_copy hn, h]
  · intro h m
    rw [← mirror_inj, mirror_copyDown, mirror_copy hn]
    exact h (mirror m)

end Down

end CyclicMemory
