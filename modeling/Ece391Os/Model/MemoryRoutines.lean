import Ece391Os.Library.CyclicMemory
import Ece391Os.Model.Paging

/-!
# Memory routines

`memset`, `memcpy` and `memmove` of `lib.c`, and the copies of pages that `terminal_switch` makes
with them. The loops run on the registers that they use. A counter only goes down to zero, so it is
a `Nat`; an address is a register, and the address behind the last one is zero.
-/

set_option autoImplicit false

namespace Ece391Os

open CyclicMemory

/-- The flat memory. -/
abbrev Memory := Word → UInt8

/-! ## Single accesses -/

/-- Byte `i` of a word. -/
def byteOf (v : Word) (i : Nat) : UInt8 := ⟨v.extractLsb' (8 * i) 8⟩

/-- A load of four bytes. -/
def loadl (m : Memory) (a : Word) : Word :=
  (m (a + 3)).toBitVec ++ (m (a + 2)).toBitVec ++ (m (a + 1)).toBitVec ++ (m a).toBitVec

/-- A store of the low `k` bytes of a word. -/
def store (k : Nat) (m : Memory) (a v : Word) : Memory := fill m a (byteOf v) k

/-! ## Filling -/

/-- `rep stosb`, `stosw` or `stosl`, by the width `k`. -/
def repStos (k : Nat) (eax : Word) : Nat → Memory → Word → Memory × Word
  | 0, m, edi => (m, edi)
  | ecx + 1, m, edi => repStos k eax ecx (store k m edi eax) (edi + BitVec.ofNat 32 k)

/-- `.memset_bottom`. -/
def memsetBottom (eax : Word) : Nat → Memory → Word → Memory
  | 0, m, _ => m
  | edx + 1, m, edi => memsetBottom eax edx (store 1 m edi eax) (edi + 1)

/-- `.memset_aligned`. -/
def memsetAligned (eax : Word) (ecx : Nat) (m : Memory) (edi : Word) : Memory :=
  let (m, edi) := repStos 4 eax (ecx / 4) m edi
  memsetBottom eax (ecx % 4) m edi

/-- `.memset_top`. -/
def memsetTop (eax : Word) : Nat → Memory → Word → Memory
  | 0, m, _ => m
  | ecx + 1, m, edi =>
      if edi &&& 3 = 0 then memsetAligned eax (ecx + 1) m edi
      else memsetTop eax ecx (store 1 m edi eax) (edi + 1)

/-- `memset`. -/
def memset (m : Memory) (s c n : Word) : Memory :=
  let c := c &&& 0xFF
  memsetTop (c <<< 24 ||| c <<< 16 ||| c <<< 8 ||| c) n.toNat m s

/-! ## Copying -/

/-- Memory, and the addresses that a copy goes through. -/
structure CopyState where
  memory : Memory
  esi : Word
  edi : Word

/-- A byte by way of `al`. -/
def movByte (r : CopyState) : CopyState :=
  ⟨store 1 r.memory r.edi ((r.memory r.esi).toBitVec.setWidth 32), r.esi + 1, r.edi + 1⟩

/-- `rep movsl`. -/
def repMovsl : Nat → CopyState → CopyState
  | 0, r => r
  | ecx + 1, r =>
      repMovsl ecx ⟨store 4 r.memory r.edi (loadl r.memory r.esi), r.esi + 4, r.edi + 4⟩

/-- `.memcpy_bottom`. -/
def memcpyBottom : Nat → CopyState → CopyState
  | 0, r => r
  | edx + 1, r => memcpyBottom edx (movByte r)

/-- `.memcpy_aligned`. -/
def memcpyAligned (ecx : Nat) (r : CopyState) : CopyState :=
  memcpyBottom (ecx % 4) (repMovsl (ecx / 4) r)

/-- `.memcpy_top`. -/
def memcpyTop : Nat → CopyState → CopyState
  | 0, r => r
  | ecx + 1, r =>
      if r.edi &&& 3 = 0 then memcpyAligned (ecx + 1) r else memcpyTop ecx (movByte r)

/-- `memcpy`. -/
def memcpy (m : Memory) (dest src n : Word) : Memory := (memcpyTop n.toNat ⟨m, src, dest⟩).memory

/-- `rep movsb` with the direction flag. -/
def repMovsb (down : Bool) : Nat → CopyState → CopyState
  | 0, r => r
  | ecx + 1, r =>
      let m := Function.update r.memory r.edi (r.memory r.esi)
      if down = true then repMovsb down ecx ⟨m, r.esi - 1, r.edi - 1⟩
      else repMovsb down ecx ⟨m, r.esi + 1, r.edi + 1⟩

/-- `memmove`, with the direction flag that it leaves. -/
def memmove (m : Memory) (dest src n : Word) : Memory × Bool :=
  if dest.toNat ≤ src.toNat then ((repMovsb false n.toNat ⟨m, src, dest⟩).memory, false)
  else ((repMovsb true n.toNat ⟨m, src + n - 1, dest + n - 1⟩).memory, true)

/-! ## The pages of the terminals -/

/-- `VIDEO`, and `VIDEO_1 + (0x1000 * t)` for the page of a terminal. -/
def frameAddr : FrameRef → Word
  | .screen => videoAddr
  | .backing t => video1Addr + 0x1000 * BitVec.ofNat 32 t.val

/-- The two copies of `terminal_switch`. -/
def copyPages (m : Memory) (previous next : Terminal) : Memory :=
  let m := memcpy m (frameAddr (.backing previous)) (frameAddr .screen) 0x1000
  memcpy m (frameAddr .screen) (frameAddr (.backing next)) 0x1000

end Ece391Os
