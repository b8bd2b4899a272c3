import Ece391Os.Library.Interaction
import Ece391Os.Model.NumberFormat
import Ece391Os.Model.SystemCall

/-!
# The library of the user programs

`ece391support.c` and the wrappers of `ece391syscall.S`, which the programs in `syscalls/` are
linked with. A program is an interaction: it computes on its arrays and makes system calls. An
access outside an array has no meaning, so a program that is shown to end also stays inside its
arrays. `answer` serves the calls with the handlers of the kernel; what other processes and
interrupts do between two calls is part of the `Environment`.
-/

set_option autoImplicit false

namespace Ece391Os

open Interaction

/-! ## Calls -/

/-- A system call of a user program. The buffer of a `read` or a `getargs` is filled from the
stores of the `Reply`. -/
inductive UserCall where
  | execute (command : CString)
  | read (fd : Int) (nbytes : Int)
  | write (fd : Int) (buf : Nat → UInt8) (nbytes : Int)
  | open (filename : CString)
  | close (fd : Int)
  | getargs (nbytes : Int)

/-- What a call comes back with: the value in EAX, and the stores into the buffer of the caller. -/
structure Reply where
  value : Int
  stores : Stores

/-- A computation of a user program. -/
abbrev User := Program UserCall Reply

/-! ## Arrays -/

/-- An array of `uint8_t`: its size and what stands in it. -/
structure Buffer where
  size : Nat
  bytes : Nat → UInt8

namespace Buffer

/-- The array from index `i` on, which is what a pointer to that element reaches. -/
def tail (b : Buffer) (i : Nat) : Buffer := ⟨b.size - i, fun j => b.bytes (i + j)⟩

/-- `b[i]`. -/
def load (b : Buffer) (i : Int) : Option UInt8 :=
  if 0 ≤ i ∧ i < b.size then some (b.bytes i.toNat) else none

/-- `b[i] = c`. -/
def store (b : Buffer) (i : Int) (c : UInt8) : Option Buffer :=
  if 0 ≤ i ∧ i < b.size then some { b with bytes := Function.update b.bytes i.toNat c } else none

/-- The array after a call has filled it from index `i` on. -/
def receive (b : Buffer) (i : Nat) (stores : Stores) : Option Buffer :=
  if stores.all fun s => decide (i + s.1 < b.size) then
    some { b with bytes := applyStores b.bytes (stores.map fun s => (i + s.1, s.2)) }
  else none

end Buffer

theorem Buffer.load_of_lt {b : Buffer} {i : Nat} (hi : i < b.size) :
    b.load i = some (b.bytes i) :=
  if_pos ⟨by omega, by omega⟩

theorem Buffer.store_of_lt {b : Buffer} {i : Nat} (hi : i < b.size) (c : UInt8) :
    b.store i c = some { b with bytes := Function.update b.bytes i c } :=
  if_pos ⟨by omega, by omega⟩

/-- The bytes of a string in the source. -/
def bytesOf (s : String) : List UInt8 := s.toList.map fun c => UInt8.ofNat c.toNat

/-- A string literal. -/
def literal (s : String) : Buffer := ⟨(bytesOf s).length + 1, fun i => (bytesOf s).getD i 0⟩

/-! ## `ece391support.c` -/

/-- `ece391_strlen`. -/
def ece391Strlen (s : Buffer) : Option Nat := strlenFrom s.bytes s.size 0

/-- The string that a call finds in an array. -/
def Buffer.string (s : Buffer) : Option CString :=
  (ece391Strlen s).map fun len => (List.range len).map s.bytes

/-- The loop of `ece391_strcpy` inside one array, with the two pointers as indices. -/
def strcpyLoop : Nat → Nat → Nat → Buffer → Option Buffer
  | 0, _, _, _ => none
  | fuel + 1, dst, src, b => do
      let c ← b.load src
      let b ← b.store dst c
      if c ≠ 0 then strcpyLoop fuel (dst + 1) (src + 1) b else some b

/-- `ece391_strcpy`. -/
def ece391Strcpy (b : Buffer) (dst src : Nat) : Option Buffer := strcpyLoop b.size dst src b

/-- The loop of `ece391_strcmp` from index `i` on. -/
def strcmpLoop (s1 s2 : Buffer) : Nat → Nat → Option Int
  | 0, _ => none
  | fuel + 1, i => do
      let c1 ← s1.load i
      let c2 ← s2.load i
      if c1 = c2 then
        if c1 = 0 then some 0 else strcmpLoop s1 s2 fuel (i + 1)
      else some ((c1.toNat : Int) - (c2.toNat : Int))

/-- `ece391_strcmp`. -/
def ece391Strcmp (s1 s2 : Buffer) : Option Int := strcmpLoop s1 s2 s1.size 0

/-- The loop of `ece391_strncmp` from index `i` on, with `n` bytes left, at least one. -/
def strncmpLoop (s1 s2 : Buffer) : Nat → Nat → Option Int
  | 0, _ => some 0
  | n + 1, i => do
      let c1 ← s1.load i
      let c2 ← s2.load i
      if c1 = c2 then
        if c1 = 0 then some 0 else strncmpLoop s1 s2 n (i + 1)
      else some ((c1.toNat : Int) - (c2.toNat : Int))

/-- `ece391_strncmp`. -/
def ece391Strncmp (s1 s2 : Buffer) (n : Nat) : Option Int := strncmpLoop s1 s2 n 0

/-- `ece391_itoa`, which repeats `itoa` of the kernel on an array of at least `itoaSize` bytes. -/
def ece391Itoa (value : Word) (buf : Buffer) (radix : Word) : Option Buffer :=
  if itoaSize ≤ buf.size then
    (itoa value buf.bytes radix).map fun bytes => { buf with bytes := bytes }
  else none

/-- `ece391_fdputs`. -/
def ece391Fdputs (fd : Int) (s : Buffer) : User Unit := do
  let len ← Program.require (ece391Strlen s)
  let _ ← Program.perform (.write fd s.bytes len)
  pure ()

/-! ## The system calls -/

/-- `ece391_read` into an array from index `i` on. -/
def ece391Read (fd : Int) (buf : Buffer) (i : Nat) (nbytes : Int) : User (Int × Buffer) := do
  let r ← Program.perform (.read fd nbytes)
  let buf ← Program.require (buf.receive i r.stores)
  pure (r.value, buf)

/-- `ece391_write` from the beginning of an array. -/
def ece391Write (fd : Int) (buf : Buffer) (nbytes : Int) : User Int := do
  if nbytes ≤ buf.size then
    let r ← Program.perform (.write fd buf.bytes nbytes)
    pure r.value
  else .stuck

/-- `ece391_open`. -/
def ece391Open (filename : Buffer) : User Int := do
  let name ← Program.require filename.string
  let r ← Program.perform (.open name)
  pure r.value

/-- `ece391_close`. -/
def ece391Close (fd : Int) : User Int := do
  let r ← Program.perform (.close fd)
  pure r.value

/-- `ece391_getargs`. -/
def ece391Getargs (buf : Buffer) (nbytes : Int) : User (Int × Buffer) := do
  let r ← Program.perform (.getargs nbytes)
  let buf ← Program.require (buf.receive 0 r.stores)
  pure (r.value, buf)

/-- `ece391_execute`. -/
def ece391Execute (command : Buffer) : User Int := do
  let command ← Program.require command.string
  let r ← Program.perform (.execute command)
  pure r.value

/-! ## The kernel behind the calls -/

/-- What surrounds a process: the register in which `halt` has its status, what its `n`-th call
finds on the kernel stack, the address of its buffers, the frame of its calls of `execute`, what
happens between its `n`-th call and the one before, what comes of the program that its `n`-th call
starts, and the row of `read_buffer` that its `n`-th read of the console wakes up with. -/
structure Environment where
  statusReg : ByteRegister
  res : Nat → Residue
  address : Word
  frame : ExecuteFrame
  between : Nat → Kernel → Kernel
  child : Nat → Kernel → Option (Int × Kernel)
  typed : Nat → Row

/-- A process among the others: the kernel, the numbers of its calls and of its reads, the bytes
that it has handed to the console, and the commands that it has executed. -/
structure UserProcess where
  kernel : Kernel
  calls : Nat
  reads : Nat
  written : List UInt8
  executed : List CString

/-- The bytes of a `write` that go to the console. -/
def consoleBytes (k : Kernel) (fd : Int) (buf : Nat → UInt8) (nbytes : Int) : List UInt8 :=
  if h : 0 ≤ fd ∧ fd < 8 then
    if k.driver ⟨fd.toNat, toNat_lt_eight h⟩ = some .stdout then (List.range nbytes.toNat).map buf
    else []
  else []

/-- The process after a call that has come back. -/
def UserProcess.after (s : UserProcess) (k : Kernel) : UserProcess :=
  { s with kernel := k, calls := s.calls + 1 }

/-- A call of the process, from its `INT` to its return. There is no answer if the call does not
return. -/
def answer (img : FsImage) (env : Environment) (s : UserProcess) (c : UserCall) :
    Option (Reply × UserProcess) :=
  let k := env.between s.calls s.kernel
  let res := { env.res s.calls with line := env.typed s.reads }
  match c with
  | .execute command =>
      let s := { s with executed := s.executed ++ [command] }
      match execute img res env.frame k.cli (some command) with
      | .returned v k => some (⟨v, []⟩, s.after k)
      | .stuck => none
      | .started _ k => (env.child s.calls k).map fun (v, k) => (⟨v, []⟩, s.after k)
  | .read fd nbytes =>
      let r := sysRead img res k fd (some env.address) nbytes
      r.value?.map fun (v, k) => (⟨v, r.stores⟩, { s.after k with reads := s.reads + 1 })
  | .write fd buf nbytes =>
      (sysWrite res k fd (some buf) nbytes).value?.map fun (v, k') =>
        (⟨v, []⟩, { s.after k' with written := s.written ++ consoleBytes k fd buf nbytes })
  | .open filename =>
      let r := sysOpen img res k (some filename)
      some (⟨r.1, []⟩, s.after r.2)
  | .close fd =>
      let r := sysClose k fd
      some (⟨r.1, []⟩, s.after r.2)
  | .getargs nbytes =>
      let r := getargs k (some env.address) nbytes
      r.value?.map fun (v, k) => (⟨v, r.stores⟩, s.after k)

end Ece391Os
