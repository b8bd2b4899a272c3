import Ece391Os.Model.UserLibrary

/-!
# The user programs

`main` of `ece391cat.c`, `ece391ls.c`, `ece391grep.c`, `ece391shell.c` and `ece391counter.c`. A
`while` loop takes a bound on its rounds as an argument. The local arrays hold at first what the
stack held.
-/

set_option autoImplicit false

namespace Ece391Os

open Interaction Program

/-- `BUFSIZE` and `SBUFSIZE`. -/
def bufsize : Nat := 1024
def sbufsize : Nat := 33

/-- A count that a program goes on with: no driver returns a negative one other than `-1`. -/
def countOf (cnt : Int) : Option Nat := if 0 ≤ cnt then some cnt.toNat else none

/-! ## `cat` -/

/-- A round of the loop of `cat`. -/
def catRound (fd : Int) (buf : Buffer) : User (Buffer ⊕ Int) := do
  let (cnt, buf) ← ece391Read fd buf 0 bufsize
  if cnt = 0 then pure (.inr 0)
  else if cnt = -1 then
    ece391Fdputs 1 (literal "file read failed\n")
    pure (.inr 3)
  else
    let r ← ece391Write 1 buf cnt
    if r = -1 then pure (.inr 3) else pure (.inl buf)

/-- `main` of `ece391cat.c`. -/
def cat (rounds : Nat) (stack : Nat → UInt8) : User Int := do
  let (r, buf) ← ece391Getargs ⟨bufsize, stack⟩ bufsize
  if r ≠ 0 then
    ece391Fdputs 1 (literal "could not read arguments\n")
    pure 3
  else
    let fd ← ece391Open buf
    if fd = -1 then
      ece391Fdputs 1 (literal "file not found\n")
      pure 2
    else loop (catRound fd) rounds buf

/-! ## `ls` -/

/-- A round of the loop of `ls`. -/
def lsRound (fd : Int) (buf : Buffer) : User (Buffer ⊕ Int) := do
  let (cnt, buf) ← ece391Read fd buf 0 (sbufsize - 1)
  if cnt = 0 then pure (.inr 0)
  else if cnt = -1 then
    ece391Fdputs 1 (literal "directory entry read failed\n")
    pure (.inr 3)
  else
    let buf ← require (buf.store cnt 10)
    let r ← ece391Write 1 buf (cnt + 1)
    if r = -1 then pure (.inr 3) else pure (.inl buf)

/-- `main` of `ece391ls.c`. -/
def ls (rounds : Nat) (stack : Nat → UInt8) : User Int := do
  let fd ← ece391Open (literal ".")
  if fd = -1 then
    ece391Fdputs 1 (literal "directory open failed\n")
    pure 2
  else loop (lsRound fd) rounds ⟨sbufsize, stack⟩

/-! ## `grep` -/

/-- The `while` loop that looks for the end of a line, at index `line_end` and with `rem` bytes left
before `last`. -/
def findLineEnd (data : Buffer) : Nat → Nat → Option Nat
  | 0, lineEnd => some lineEnd
  | rem + 1, lineEnd => do
      let c ← data.load lineEnd
      if c ≠ 10 then findLineEnd data rem (lineEnd + 1) else some lineEnd

/-- The `for` loop that searches a line for the string `s`, at index `check` and with `rem` bytes
left before the end of the line. -/
def searchLine (s : Buffer) (sLen : Nat) (data : Buffer) : Nat → Nat → Option Bool
  | 0, _ => some false
  | rem + 1, check => do
      let c0 ← s.load 0
      let c ← data.load check
      if c0 = c then
        let r ← ece391Strncmp (data.tail check) s sLen
        if r = 0 then some true else searchLine s sLen data rem (check + 1)
      else searchLine s sLen data rem (check + 1)

/-- What `do_one_file` prints for a line with a match. -/
def printMatch (fname line : Buffer) : User Unit := do
  ece391Fdputs 1 fname
  ece391Fdputs 1 (literal ":")
  ece391Fdputs 1 line
  ece391Fdputs 1 (literal "\n")

/-- A round of the inner loop of `do_one_file`, at `line_start`. It ends with the new `last`. -/
def lineRound (s : Buffer) (sLen : Nat) (fname : Buffer) (cnt last : Nat) :
    Nat × Buffer → User ((Nat × Buffer) ⊕ (Nat × Buffer))
  | (lineStart, data) => do
      let lineEnd ← require (findLineEnd data (last - lineStart) lineStart)
      let c ← require (data.load lineEnd)
      if c ≠ 10 ∧ 0 ≠ cnt ∧ lineStart ≠ 0 then
        -- the rest of the data begins a line: it goes to the beginning of the array
        let data ← require (data.store lineEnd 0)
        let data ← require (ece391Strcpy data 0 lineStart)
        pure (.inr (last - lineStart, data))
      else
        let data ← require (data.store lineEnd 0)
        let found ← require (searchLine s sLen data (lineEnd - lineStart) lineStart)
        if found then printMatch fname (data.tail lineStart)
        if lineEnd + 1 ≥ last then pure (.inr (0, data)) else pure (.inl (lineEnd + 1, data))

/-- A round of the outer loop of `do_one_file`. -/
def fileRound (s : Buffer) (sLen : Nat) (fname : Buffer) (fd : Int) :
    Nat × Buffer → User ((Nat × Buffer) ⊕ Int)
  | (last, data) => do
      let (cnt, data) ← ece391Read fd data last (bufsize - last : Nat)
      if cnt = -1 then
        ece391Fdputs 1 (literal "file read failed\n")
        pure (.inr (-1))
      else
        let cnt ← require (countOf cnt)
        -- every round but the last one passes over a byte
        let (last, data) ← loop (lineRound s sLen fname cnt (last + cnt)) (last + cnt + 1) (0, data)
        if cnt = 0 then pure (.inr 0) else pure (.inl (last, data))

/-- `do_one_file`. -/
def doOneFile (rounds : Nat) (stack : Nat → UInt8) (s fname : Buffer) : User Int := do
  let sLen ← require (ece391Strlen s)
  let fd ← ece391Open fname
  if fd = -1 then
    ece391Fdputs 1 (literal "file open failed\n")
    pure (-1)
  else
    let r ← loop (fileRound s sLen fname fd) rounds (0, ⟨bufsize + 1, stack⟩)
    if r = -1 then pure (-1)
    else
      let r ← ece391Close fd
      if r = -1 then
        ece391Fdputs 1 (literal "file close failed\n")
        pure (-1)
      else pure 0

/-- A round of the loop of `grep`. The `n`-th call of `do_one_file` finds `stack (n + 2)` in its
array. -/
def grepRound (rounds : Nat) (stack : Nat → Nat → UInt8) (search : Buffer) (fd : Int) :
    Nat × Buffer → User ((Nat × Buffer) ⊕ Int)
  | (n, buf) => do
      let (cnt, buf) ← ece391Read fd buf 0 (sbufsize - 1)
      if cnt = 0 then pure (.inr 0)
      else if cnt = -1 then
        ece391Fdputs 1 (literal "directory entry read failed\n")
        pure (.inr 3)
      else
        let c ← require (buf.load 0)
        if 46 = c then pure (.inl (n, buf))
        else
          let buf ← require (buf.store cnt 0)
          let r ← doOneFile rounds (stack (n + 2)) search buf
          if r ≠ 0 then pure (.inr 3) else pure (.inl (n + 1, buf))

/-- `main` of `ece391grep.c`. -/
def grep (rounds : Nat) (stack : Nat → Nat → UInt8) : User Int := do
  let (r, search) ← ece391Getargs ⟨bufsize, stack 0⟩ bufsize
  if r ≠ 0 then
    ece391Fdputs 1 (literal "could not read argument\n")
    pure 3
  else
    let fd ← ece391Open (literal ".")
    if fd = -1 then
      ece391Fdputs 1 (literal "directory open failed\n")
      pure 2
    else loop (grepRound rounds stack search fd) rounds (0, ⟨sbufsize, stack 1⟩)

/-! ## The shell -/

/-- The message for the value that a command comes back with. -/
def shellMessage (rval : Int) : User Unit :=
  if rval = -1 then ece391Fdputs 1 (literal "no such command\n")
  else if rval = 256 then ece391Fdputs 1 (literal "program terminated by exception\n")
  else if rval ≠ 0 then ece391Fdputs 1 (literal "program terminated abnormally\n")
  else pure ()

/-- A round of the loop of the shell. -/
def shellRound (buf : Buffer) : User (Buffer ⊕ Int) := do
  ece391Fdputs 1 (literal "391OS> ")
  let (cnt, buf) ← ece391Read 0 buf 0 (bufsize - 1)
  if cnt = -1 then
    ece391Fdputs 1 (literal "read from keyboard failed\n")
    pure (.inr 3)
  else
    let cnt ← if cnt > 0 then do
        let c ← require (buf.load (cnt - 1))
        pure (if c = 10 then cnt - 1 else cnt)
      else pure cnt
    let buf ← require (buf.store cnt 0)
    let r ← require (ece391Strcmp buf (literal "exit"))
    if r = 0 then pure (.inr 0)
    else
      let c ← require (buf.load 0)
      if c = 0 then pure (.inl buf)
      else
        let rval ← ece391Execute buf
        shellMessage rval
        pure (.inl buf)

/-- `main` of `ece391shell.c`. -/
def shell (rounds : Nat) (stack : Nat → UInt8) : User Int := do
  ece391Fdputs 1 (literal "Starting 391 Shell\n")
  loop shellRound rounds ⟨bufsize, stack⟩

/-! ## `counter` -/

/-- The `for` loop of `counter`, at `i` and with `rem` numbers left. -/
def countLoop : Nat → Nat → Buffer → User Int
  | 0, _, _ => pure 0
  | rem + 1, i, buf => do
      let buf ← require (ece391Itoa (BitVec.ofNat 32 (i + 1)) buf 10)
      ece391Fdputs 1 buf
      ece391Fdputs 1 (literal "\n")
      countLoop rem (i + 1) buf

/-- `main` of `ece391counter.c`. -/
def counter (stack : Nat → UInt8) : User Int := do
  ece391Fdputs 1 (literal "Enter the Test Number: (0): 100, (1): 10000, (2): 100000\n")
  let (cnt, buf) ← ece391Read 0 ⟨bufsize, stack⟩ 0 (bufsize - 1)
  if cnt = -1 then
    ece391Fdputs 1 (literal "Can't read the number from keyboard.\n")
    pure 3
  else
    let buf ← require (buf.store cnt 0)
    let len ← require (ece391Strlen buf)
    let c ← require (buf.load 0)
    if len > 2 ∨ (len = 2 ∧ (c < 48 ∨ c > 50)) then
      ece391Fdputs 1 (literal "Wrong Choice!\n")
      pure 0
    else
      let max := if c = 48 then 100 else if c = 49 then 10000 else if c = 50 then 100000 else 0
      countLoop max 0 buf

end Ece391Os
