import Ece391Os.Model.State
import Ece391Os.Model.CString

/-!
# The read-only file system of `filesystem_driver.c`

The image is a boot block with 63 directory entries, a list of index nodes and a
list of data blocks. `readData` is the loop of `read_data` with its four exits;
`directoryRead` is the loop of `directory_read`. Both return, besides the value and
the descriptor they leave, the list of stores into the caller's buffer in the order
in which they are made, and `readData` also the bytes of data blocks it fetches.
-/

set_option autoImplicit false

namespace Ece391Os

/-! ## The image -/

/-- `dir_entry_t`: a name field of 32 bytes, the type, the index node and 24 reserved
bytes. -/
structure DirEntry where
  filename : Nat → UInt8
  fileType : Word
  inodeNum : Word
  reserved : Nat → UInt8

/-- Byte `i` of a word in memory. -/
def byteOfWord (w : Word) (i : Nat) : UInt8 := UInt8.ofNat (w.toNat / 256 ^ i)

/-- The bytes of an entry in memory, from the first byte of its name on. Past the 64
bytes of the entry stands `behind`. -/
def DirEntry.byteAt (d : DirEntry) (behind : Nat → UInt8) (i : Nat) : UInt8 :=
  if i < 32 then d.filename i
  else if i < 36 then byteOfWord d.fileType (i - 32)
  else if i < 40 then byteOfWord d.inodeNum (i - 36)
  else if i < 64 then d.reserved (i - 40)
  else behind (i - 64)

/-- `node_block_t`. Entries from index 1023 on are the words behind the node. -/
structure NodeBlock where
  bLength : Word
  dataBlocks : Nat → Word

/-- The file system in memory. `dataList b j` is byte `j` of data block `b`, or `none`
when no page is mapped there; the blocks of the image itself are mapped. -/
structure FsImage where
  numDirEntries : Word
  inodes : Word
  dataBlocks : Word
  dirEntries : Nat → DirEntry
  nodeList : Word → NodeBlock
  dataList : Word → Nat → Option UInt8
  dataList_isSome : ∀ b, b < dataBlocks → ∀ j, j < fileSize → (dataList b j).isSome

/-- What earlier calls left on the kernel stack in locals that the code reads before
it writes them: `ret` of `open`, the file position of `fblock` in `rtc_open`,
`passed_rate` of `rtc_write`, `buf` of `execute`, `dentry` of `directory_read` and the
bytes behind it. `line` is the row of `read_buffer` that a console read finds when it
wakes up, and `beyond` how far behind the end of `read_buffer` the next newline in memory
stands. -/
structure Residue where
  ret : Word
  filePosition : Word
  passedRate : Word
  buf : Nat → UInt8
  dentry : DirEntry
  behind : Nat → UInt8
  line : Row
  beyond : Nat

/-! ## Lookup -/

/-- The test of one directory entry in `read_dentry_by_name`. -/
def DirEntry.matches (d : DirEntry) (fname : CString) : Bool :=
  d.filename 0 ≠ 0 && strncmp d.filename fname.charAt filenameSize = 0

/-- `read_dentry_by_name`; `none` is `FAILURE`. -/
def readDentryByName (img : FsImage) (fname : CString) : Option DirEntry :=
  if fname.strlen = 0 then none
  else if fname.strlen > 32 then none
  else ((List.range maxDirEntries).find? fun i => (img.dirEntries i).matches fname).map
    img.dirEntries

/-- The loop over the slots in `read_dentry_by_name` from slot `i` on, with `rem` slots left. -/
def dentryLoop (img : FsImage) (fname : CString) (dentry : DirEntry) :
    Nat → Nat → Int × DirEntry
  | 0, _ => (-1, dentry)
  | rem + 1, i =>
      -- an empty slot is passed over before the names are compared
      if (img.dirEntries i).filename 0 = 0 then dentryLoop img fname dentry rem (i + 1)
      else if strncmp (img.dirEntries i).filename fname.charAt filenameSize = 0 then
        (0, img.dirEntries i)
      else dentryLoop img fname dentry rem (i + 1)

/-- `read_dentry_by_name` with its two results: the value, and the entry left in `dentry`. -/
def readDentryByNameInto (img : FsImage) (fname : CString) (dentry : DirEntry) :
    Int × DirEntry :=
  if fname.strlen = 0 then (-1, dentry)
  else if fname.strlen > 32 then (-1, dentry)
  else dentryLoop img fname dentry maxDirEntries 0

/-- `read_dentry_by_index`: the entry left in `dentry`, which the call does not touch
when it refuses the index. -/
def readDentryByIndex (img : FsImage) (index : Word) (dentry : DirEntry) : DirEntry :=
  if index > img.inodes - 1 then dentry else img.dirEntries index.toNat

/-! ## Results of a call -/

/-- How a call ends: with a value, with a page fault inside the kernel, or not at
all. -/
inductive Exit where
  | returned (value : Int)
  | pageFault
  | endless
  deriving DecidableEq, Repr

/-- Stores into the caller's buffer, in order: index and byte. -/
abbrev Stores := List (Nat × UInt8)

/-- The buffer after a list of stores. -/
def applyStores (buf : Nat → UInt8) (stores : Stores) : Nat → UInt8 :=
  stores.foldl (fun b s => Function.update b s.1 s.2) buf

/-- A read on one descriptor: its exit, the descriptor afterwards, the stores into the
caller's buffer and the data bytes fetched (block and offset). -/
structure ReadResult where
  exit : Exit
  block : FdBlock
  stores : Stores
  fetches : List (Word × Nat)

/-! ## `read_data` -/

/-- `file_position += i` on a descriptor. -/
def FdBlock.advance (b : FdBlock) (i : Nat) : FdBlock :=
  { b with filePosition := b.filePosition + BitVec.ofNat 32 i }

/-- One stored byte in front of the rest of a read. -/
def ReadResult.afterByte (r : ReadResult) (i : Nat) (b : UInt8) (fetch : Word × Nat) :
    ReadResult :=
  { r with stores := (i, b) :: r.stores, fetches := fetch :: r.fetches }

/-- The `while (length != i)` loop of `read_data`, with `rem = length - i` iterations
left at most. `j` is the offset in block `curr`, which is entry `loop` of the node;
`num` is the length of the file. -/
def readLoop (img : FsImage) (node : NodeBlock) (block : FdBlock) :
    Nat → Nat → Nat → Nat → Word → ReadResult
  | 0, i, _, _, _ => ⟨.returned i, block.advance i, [], []⟩
  | rem + 1, i, j, loop, curr =>
      if i = node.bLength.toNat then
        -- the whole length has been copied: one byte more is stored, which is not counted
        match img.dataList curr j with
        | none => ⟨.pageFault, block, [], [(curr, j)]⟩
        | some b => ⟨.returned i, block.advance i, [(i, b)], [(curr, j)]⟩
      -- the end of the file is met before the length: the bytes stored so far are not counted
      else if (block.advance i).filePosition.toNat ≥ node.bLength.toNat then
        ⟨.returned 0, block, [], []⟩
      else
        match img.dataList curr j with
        | none => ⟨.pageFault, block, [], [(curr, j)]⟩
        | some b =>
            -- the block pointer is reloaded when the offset reaches the end of a block
            if (j + 1) % fileSize = 0 then
              (readLoop img node block rem (i + 1) 0 (loop + 1)
                (node.dataBlocks (loop + 1))).afterByte i b (curr, j)
            else
              (readLoop img node block rem (i + 1) (j + 1) loop curr).afterByte i b (curr, j)

/-- `read_data` on a descriptor, from `offset`. -/
def readData (img : FsImage) (block : FdBlock) (offset : Word) (length : Nat) : ReadResult :=
  let node := img.nodeList block.inode
  if block.inode > img.inodes then ⟨.returned (-1), block, [], []⟩
  else if node.bLength = 0 then ⟨.returned 0, block, [], []⟩
  else if block.filePosition > node.bLength then ⟨.returned 0, block, [], []⟩
  else
    readLoop img node block length 0 (offset.toNat % fileSize) (offset.toNat / fileSize)
      (node.dataBlocks (offset.toNat / fileSize))

/-- `file_read`. -/
def fileRead (img : FsImage) (block : FdBlock) (nbytes : Int) : ReadResult :=
  readData img block block.filePosition (BitVec.ofInt 32 nbytes).toNat

/-! ## `directory_read` -/

/-- The `for` loop of `directory_read`: copies the name from index `i`, with `rem`
bytes of `nbytes` left. `some n` is a `NUL` met at index `n`, which is stored as
well; `none` is the end of the loop. -/
def copyName (name : Nat → UInt8) : Nat → Nat → Option Nat × Stores
  | 0, _ => (none, [])
  | rem + 1, i =>
      if name i = 0 then (some i, [(i, 0)])
      else
        let r := copyName name rem (i + 1)
        (r.1, (i, name i) :: r.2)

/-- `file_position++` and `flags--` of a directory descriptor. -/
def FdBlock.nextEntry (b : FdBlock) : FdBlock :=
  { b with filePosition := b.filePosition + 1, flags := b.flags - 1 }

/-- The `while (1)` loop of `directory_read`. Running out of `fuel` is an endless
loop: an iteration that does not return moves to the next of 63 slots or changes
nothing. -/
def directoryLoop (img : FsImage) (behind : Nat → UInt8) (nbytes : Int) :
    Nat → DirEntry → FdBlock → ReadResult
  | 0, _, block => ⟨.endless, block, [], []⟩
  | fuel + 1, dentry, block =>
      if block.flags = 0 ∨ block.filePosition.toNat = maxDirEntries then
        ⟨.returned 0, block, [], []⟩
      else
        let dentry := readDentryByIndex img block.filePosition dentry
        if dentry.filename 0 = 0 then
          directoryLoop img behind nbytes fuel dentry
            { block with filePosition := block.filePosition + 1 }
        else
          match copyName (dentry.byteAt behind) nbytes.toNat 0 with
          | (some n, stores) => ⟨.returned n, block.nextEntry, stores, []⟩
          | (none, stores) =>
              -- a negative length copies nothing and returns nothing: the next round is the same
              if nbytes.toNat = nbytes then ⟨.returned nbytes, block.nextEntry, stores, []⟩
              else directoryLoop img behind nbytes fuel dentry block

/-- `directory_read`. -/
def directoryRead (img : FsImage) (res : Residue) (block : FdBlock) (nbytes : Int) :
    ReadResult :=
  directoryLoop img res.behind nbytes (maxDirEntries + 1) res.dentry block

end Ece391Os
