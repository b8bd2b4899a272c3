import Ece391Os.Model.State

/-!
# Blinking characters

The list of blinking characters of `fish`: the operations of `blink.S` on it, and `mp1_malloc` and
`mp1_free` of `fish.c`, which hand out the nodes of `blink_array`. A pointer to a node is its index
in the array. The loops follow the pointers as they are, so each has a bound for its iterations, and
one that comes to the bound has no result; so has an access through the null pointer.
-/

set_option autoImplicit false

namespace Ece391Os

/-! ## The structure -/

/-- An index into `blink_array`, which has `80*25` elements. -/
abbrev BlinkNode := Fin 2000

/-- The fields of `struct mp1_blink_struct` in front of the pointer. -/
structure BlinkEntry where
  location : BitVec 16
  onChar : UInt8
  offChar : UInt8
  onLength : BitVec 16
  offLength : BitVec 16
  countdown : BitVec 16
  status : BitVec 16
  deriving DecidableEq

/-- `struct mp1_blink_struct`. -/
structure BlinkStruct extends BlinkEntry where
  next : Option BlinkNode

/-- `blink_array`, `mp1_list_head`, and the text memory by offset from `vmem_base_addr`. -/
structure Blink where
  array : BlinkNode → BlinkStruct
  listHead : Option BlinkNode
  vmem : Nat → UInt8

/-- A structure that `ece391_memset` has cleared. -/
def clearedBlink : BlinkStruct := ⟨⟨0, 0, 0, 0, 0, 0, 0⟩, none⟩

/-- The structure that `main` adds behind the two frames. -/
def mainBlink : BlinkStruct := ⟨⟨6 * 80 + 60, 73, 77, 7, 6, 0, 0⟩, none⟩

/-- The commands of `mp1_ioctl` with their arguments: the structure that `RTC_ADD` points to, the
location that `RTC_FIND` points to, and the two arguments that are numbers; and a call of
`mp1_rtc_tasklet`. -/
inductive BlinkCall where
  | add (arg : BlinkStruct)
  | remove (arg : Word)
  | find (location : BitVec 16)
  | sync (arg : Word)
  | tasklet

/-- The value in `eax`, and the structure that `RTC_FIND` copies out. -/
structure BlinkResult where
  eax : Int
  copied : Option BlinkStruct

namespace Blink

/-- The state behind `ece391_memset(blink_array, ..)`. -/
def cleared (vmem : Nat → UInt8) : Blink := ⟨fun _ => clearedBlink, none, vmem⟩

/-- A store to the fields of a node. -/
def setNode (s : Blink) (i : BlinkNode) (b : BlinkStruct) : Blink :=
  { s with array := Function.update s.array i b }

/-- `mp1_poke`. -/
def poke (s : Blink) (cl : UInt8) (eax : Nat) : Blink :=
  { s with vmem := Function.update s.vmem eax cl }

/-- `mp1_malloc`: the first node whose location is zero. -/
def malloc (s : Blink) : Option BlinkNode :=
  (List.finRange 2000).find? fun i => (s.array i).location = 0

/-- `mp1_free`. -/
def free (s : Blink) (i : BlinkNode) : Blink := s.setNode i clearedBlink

/-! ## The tasklet -/

/-- The body of `tasklet_loop`. -/
def taskletNode (s : Blink) (i : BlinkNode) : Blink :=
  let b := s.array i
  let b := { b with countdown := b.countdown - 1 }
  if 0 < b.countdown.toInt then s.setNode i b
  else if b.status &&& 1 ≠ 0 then
    (s.setNode i { b with countdown := b.offLength, status := b.status ^^^ 1 }).poke b.offChar
      (2 * b.location.toNat)
  else
    (s.setNode i { b with countdown := b.onLength, status := b.status ^^^ 1 }).poke b.onChar
      (2 * b.location.toNat)

/-- `tasklet_loop`. -/
def taskletLoop : Nat → Blink → Option BlinkNode → Option Blink
  | 0, _, _ => none
  | _ + 1, s, none => some s
  | fuel + 1, s, some i =>
      let s := s.taskletNode i
      taskletLoop fuel s (s.array i).next

/-- `mp1_rtc_tasklet`. -/
def tasklet (fuel : Nat) (s : Blink) : Option Blink := taskletLoop fuel s s.listHead

/-! ## The commands -/

/-- `mp1_find_helper`. -/
def findHelper (s : Blink) (location : BitVec 16) : Nat → Option BlinkNode →
    Option (Option BlinkNode)
  | 0, _ => none
  | _ + 1, none => some none
  | fuel + 1, some i =>
      if (s.array i).location = location then some (some i)
      else findHelper s location fuel (s.array i).next

/-- `mp1_ioctl_add`. The pointer in the argument is copied and then overwritten. -/
def add (s : Blink) (arg : BlinkStruct) : Blink × Int :=
  if arg.location.toNat ≥ 80 * 25 then (s, -1)
  else
    let temp := { arg with status := 1, countdown := arg.onLength }
    match s.malloc with
    | none => (s, -1)
    | some i =>
        let s := s.setNode i temp
        let s := s.setNode i { s.array i with next := s.listHead }
        let s := { s with listHead := some i }
        (s.poke (s.array i).onChar (2 * (s.array i).location.toNat), 0)

/-- The pointer at `mp1_list_head`, or in the field `NEXT` of a node. -/
def pointerAt (s : Blink) : Option BlinkNode → Option BlinkNode
  | none => s.listHead
  | some j => (s.array j).next

/-- A store to it. -/
def setPointer (s : Blink) (p : Option BlinkNode) : Option BlinkNode → Blink
  | none => { s with listHead := p }
  | some j => s.setNode j { s.array j with next := p }

/-- `remove_find_prev`: the place of the pointer to a node. -/
def findPrev (s : Blink) (i : BlinkNode) : Nat → Option BlinkNode → Option (Option BlinkNode)
  | 0, _ => none
  | fuel + 1, place =>
      if s.pointerAt place = some i then some place
      else
        match s.pointerAt place with
        | none => none
        | some j => findPrev s i fuel (some j)

/-- `mp1_ioctl_remove`. Only the low half of the argument is compared. -/
def remove (fuel : Nat) (s : Blink) (arg : Word) : Option (Blink × Int) := do
  match ← s.findHelper (arg.setWidth 16) fuel s.listHead with
  | none => some (s, -1)
  | some i =>
      let place ← s.findPrev i fuel none
      let s := s.setPointer (s.array i).next place
      some (s.free i, 0)

/-- `mp1_ioctl_find`. -/
def find (fuel : Nat) (s : Blink) (location : BitVec 16) : Option BlinkResult := do
  match ← s.findHelper location fuel s.listHead with
  | none => some ⟨-1, none⟩
  | some i => some ⟨0, some (s.array i)⟩

/-- The fields that `sync_copy_loop` copies. -/
def syncFields (a b : BlinkStruct) : BlinkStruct :=
  { b with
    onLength := a.onLength
    offLength := a.offLength
    countdown := a.countdown
    status := a.status }

/-- The character that `mp1_ioctl_sync` displays. `cmovl` moves if the sign of `testb` is set, for
a byte of which all bits but the lowest are cleared. -/
def syncChar (b : BlinkStruct) : UInt8 :=
  let test := b.status.setWidth 8 &&& 1#8
  if test.msb then b.onChar else b.offChar

/-- `mp1_ioctl_sync`. -/
def sync (fuel : Nat) (s : Blink) (arg : Word) : Option (Blink × Int) := do
  match ← s.findHelper ((arg >>> 16).setWidth 16) fuel s.listHead with
  | none => some (s, -1)
  | some i =>
      match ← s.findHelper ((arg &&& 0xFFFF).setWidth 16) fuel s.listHead with
      | none => some (s, -1)
      | some j =>
          let s := s.setNode j (syncFields (s.array i) (s.array j))
          some (s.poke (syncChar (s.array j)) (2 * (s.array j).location.toNat), 0)

/-- A call. The tasklet returns nothing. -/
def call (fuel : Nat) (s : Blink) : BlinkCall → Option (Blink × BlinkResult)
  | .add arg =>
      let (s, eax) := s.add arg
      some (s, ⟨eax, none⟩)
  | .remove arg => do
      let (s, eax) ← s.remove fuel arg
      some (s, ⟨eax, none⟩)
  | .find location => do
      let r ← s.find fuel location
      some (s, r)
  | .sync arg => do
      let (s, eax) ← s.sync fuel arg
      some (s, ⟨eax, none⟩)
  | .tasklet => do
      let s ← s.tasklet fuel
      some (s, ⟨0, none⟩)

/-- Calls one after the other. -/
def run (fuel : Nat) : Blink → List BlinkCall → Option (Blink × List BlinkResult)
  | s, [] => some (s, [])
  | s, c :: cs => do
      let (s, r) ← s.call fuel c
      let (s, rs) ← run fuel s cs
      some (s, r :: rs)

end Blink

end Ece391Os
