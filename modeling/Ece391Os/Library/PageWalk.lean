import Mathlib.Data.Nat.Bitwise

/-!
# The two-level page walk

Translation of 32-bit addresses with a page directory and page tables of 1024 entries each, where an
entry of the directory can also be a page of 4 MB. The supervisor is not subject to write
protection. An entry is a page frame and twelve flags; `walk_large` and `walk_small` say what the
walk finds behind it.
-/

set_option autoImplicit false

namespace PageWalk

/-- The sizes of a page and of a large page. -/
def pageBytes : Nat := 2 ^ 12
def largeBytes : Nat := 2 ^ 22

theorem pageBytes_pos : 0 < pageBytes := Nat.two_pow_pos 12

theorem largeBytes_pos : 0 < largeBytes := Nat.two_pow_pos 22

/-- An access by user code or by the supervisor, to load or to store. -/
structure Access where
  user : Bool
  store : Bool

/-- The flags of an entry. -/
def present (e : BitVec 32) : Bool := e.getLsbD 0
def writable (e : BitVec 32) : Bool := e.getLsbD 1
def userPage (e : BitVec 32) : Bool := e.getLsbD 2
def large (e : BitVec 32) : Bool := e.getLsbD 7

/-- The entry permits the access. -/
def allows (a : Access) (e : BitVec 32) : Bool :=
  present e && (!a.user || userPage e && (!a.store || writable e))

/-- The walk: `directory` is the page directory, and `tableAt f` the page table in frame `f`. -/
def walk (directory : Nat → BitVec 32) (tableAt : Nat → Option (Nat → BitVec 32)) (a : Access)
    (v : BitVec 32) : Option Nat :=
  let e := directory (v.toNat / largeBytes)
  if allows a e then
    if large e then some (e.toNat / largeBytes * largeBytes + v.toNat % largeBytes)
    else
      (tableAt (e.toNat / pageBytes)).bind fun table =>
        let e := table (v.toNat / pageBytes % 1024)
        if allows a e then some (e.toNat / pageBytes * pageBytes + v.toNat % pageBytes) else none
  else none

/-- The entry for a page frame with the given flags. -/
def entry (frame flags : Nat) : BitVec 32 := BitVec.ofNat 32 (frame * pageBytes + flags)

section Entries

variable {frame flags : Nat}

theorem toNat_entry (hframe : frame < 2 ^ 20) (hflags : flags < pageBytes) :
    (entry frame flags).toNat = frame * pageBytes + flags := by
  have hsize : pageBytes = 4096 := rfl
  rw [hsize] at hflags
  rw [entry, BitVec.toNat_ofNat, hsize]
  exact Nat.mod_eq_of_lt (by omega)

/-- The frame of an entry. -/
theorem entry_frame (hframe : frame < 2 ^ 20) (hflags : flags < pageBytes) :
    (entry frame flags).toNat / pageBytes = frame := by
  rw [toNat_entry hframe hflags, Nat.add_comm, Nat.add_mul_div_right _ _ pageBytes_pos,
    Nat.div_eq_of_lt hflags, Nat.zero_add]

/-- The large page of an entry. -/
theorem entry_large {n : Nat} (hn : 1024 * n < 2 ^ 20) (hflags : flags < pageBytes) :
    (entry (1024 * n) flags).toNat / largeBytes = n := by
  have hsize : 1024 * pageBytes = largeBytes := by decide
  have hlt : flags < largeBytes := hflags.trans (by decide)
  rw [toNat_entry hn hflags, Nat.mul_comm 1024 n, Nat.mul_assoc, hsize, Nat.add_comm,
    Nat.add_mul_div_right _ _ largeBytes_pos, Nat.div_eq_of_lt hlt, Nat.zero_add]

/-- The flags of an entry. -/
theorem entry_flag (hframe : frame < 2 ^ 20) (hflags : flags < pageBytes) {i : Nat} (hi : i < 12) :
    (entry frame flags).getLsbD i = flags.testBit i := by
  have hbit : (2 ^ 12 * frame + flags).testBit i = flags.testBit i := by
    rw [Nat.testBit_two_pow_mul_add frame hflags, if_pos hi]
  rw [BitVec.getLsbD, toNat_entry hframe hflags, Nat.mul_comm]
  exact hbit

/-- Whether an entry permits an access is a matter of its flags. -/
theorem allows_entry (hframe : frame < 2 ^ 20) (hflags : flags < pageBytes) (a : Access) :
    allows a (entry frame flags) = (flags.testBit 0 &&
      (!a.user || flags.testBit 2 && (!a.store || flags.testBit 1))) := by
  rw [allows, present, userPage, writable, entry_flag hframe hflags (by decide),
    entry_flag hframe hflags (by decide), entry_flag hframe hflags (by decide)]

/-- The entry of a frame, put together with `or`. -/
theorem ofNat_or_eq_entry (hflags : flags < pageBytes) :
    BitVec.ofNat 32 (frame * pageBytes) ||| BitVec.ofNat 32 flags = entry frame flags := by
  have hor : frame * pageBytes ||| flags = frame * pageBytes + flags := by
    rw [Nat.mul_comm]
    exact (Nat.two_pow_add_eq_or_of_lt hflags frame).symm
  rw [← BitVec.ofNat_or, hor]
  rfl

end Entries

section Walk

variable {directory : Nat → BitVec 32} {tableAt : Nat → Option (Nat → BitVec 32)} {a : Access}
  {v : BitVec 32}

/-- An entry that forbids the access. -/
theorem walk_refused (h : allows a (directory (v.toNat / largeBytes)) = false) :
    walk directory tableAt a v = none := by
  simp only [walk, h, Bool.false_eq_true, if_false]

/-- A large page. -/
theorem walk_large {e : BitVec 32} (hdir : directory (v.toNat / largeBytes) = e)
    (hallows : allows a e = true) (hlarge : large e = true) :
    walk directory tableAt a v =
      some (e.toNat / largeBytes * largeBytes + v.toNat % largeBytes) := by
  simp only [walk, hdir, hallows, hlarge, if_true]

/-- A page of a page table. -/
theorem walk_small {e : BitVec 32} {table : Nat → BitVec 32}
    (hdir : directory (v.toNat / largeBytes) = e) (hallows : allows a e = true)
    (hlarge : large e = false) (htable : tableAt (e.toNat / pageBytes) = some table) :
    walk directory tableAt a v =
      if allows a (table (v.toNat / pageBytes % 1024)) then
        some ((table (v.toNat / pageBytes % 1024)).toNat / pageBytes * pageBytes +
          v.toNat % pageBytes)
      else none := by
  simp only [walk, hdir, hallows, hlarge, htable, if_true, Bool.false_eq_true, if_false,
    Option.bind_some]

end Walk

end PageWalk
