import Ece391Os.Library.PageWalk
import Ece391Os.Model.Console

/-!
# The page tables

`process_pages` and `process_tables`, and the words that `paging_init`, `execute`, `halt` and
`timer_handler` write into them. Both arrays are aligned to a page; `frame` is the page frame in
which the linker has put `process_tables`. A console with its page tables takes the steps of the
console, and each step writes what its handler writes. The handlers flush the TLB behind their
writes, so the tables are what the processor translates with.
-/

set_option autoImplicit false

namespace Ece391Os

open PageWalk

/-! ## Constants -/

/-- `PAGE_SIZE`: the number of entries. -/
def pageSize : Nat := 1024

/-- `PRESENT_MASK`, `READWRITE_MASK` and `USER_MASK`. -/
def presentMask : Word := 1
def readwriteMask : Word := 2
def userMask : Word := 4

/-- `KERNEL` and `KERNEL_USER`: the entries of the kernel page. -/
def kernelEntry : Word := 0x00400083
def kernelUserEntry : Word := 0x00400087

/-- `VIDEO`, `VIDEO_1` and the index `VIDEOMEM` of the page at `VIDEO`. -/
def videoAddr : Word := 0xB8000
def video1Addr : Word := 0xB9000
def videomem : Nat := 184

/-- `VIRTUAL_PROGRAM` and `VID_IDX`. -/
def virtualProgram : Nat := 32
def vidIdx : Nat := 33

/-! ## The arrays -/

/-- `process_pages` and `process_tables`. -/
structure PageTables where
  pages : Nat → Word
  tables : Nat → Word

/-- A loop that fills the first `n` entries. -/
def fillLoop (a : Nat → Word) (c : Word) : Nat → Nat → Word
  | 0 => a
  | n + 1 => Function.update (fillLoop a c n) n c

/-- The address of `process_tables`. -/
def tablesAddr (frame : Nat) : Word := BitVec.ofNat 32 (frame * pageBytes)

/-- `((addr >> 12) << 12) | 0x7` for the address of entry `VID_IDX` of `process_tables`. -/
def vidDirectoryEntry (frame : Nat) : Word :=
  ((tablesAddr frame + BitVec.ofNat 32 (4 * vidIdx)) >>> 12 <<< 12) ||| 0x7

/-- `(M_4 * (pid + 1)) | PAGE_ARGS`. -/
def programEntry (pid : Pid) : Word := BitVec.ofNat 32 (programPageOf pid)

/-- `paging_init`. The second loop clears the page directory again instead of the page table. -/
def pagingInit (frame : Nat) (pt : PageTables) : PageTables :=
  let pages := fillLoop pt.pages readwriteMask pageSize
  let pages := fillLoop pages readwriteMask pageSize
  let pages := Function.update pages 1 kernelEntry
  let tables := Function.update pt.tables videomem (videoAddr ||| presentMask)
  ⟨Function.update pages 0 (tablesAddr frame ||| presentMask ||| readwriteMask), tables⟩

/-- The page tables that `execute` makes for a new process. -/
def executePages (frame : Nat) (pid : Pid) (pt : PageTables) : PageTables :=
  let pages := fillLoop pt.pages readwriteMask pageSize
  let tables := fillLoop pt.tables readwriteMask pageSize
  let pages := Function.update pages 1 kernelUserEntry
  let tables := Function.update tables videomem (videoAddr ||| readwriteMask ||| presentMask)
  let tables := Function.update tables 0xB9
    (video1Addr ||| userMask ||| readwriteMask ||| presentMask)
  let tables := Function.update tables 0xBA
    (video1Addr + 0x1000 ||| userMask ||| readwriteMask ||| presentMask)
  let tables := Function.update tables 0xBB
    (video1Addr + 0x1000 * 2 ||| userMask ||| readwriteMask ||| presentMask)
  let pages := Function.update pages 0
    (tablesAddr frame ||| userMask ||| readwriteMask ||| presentMask)
  let pages := Function.update pages virtualProgram (programEntry pid)
  let tables := Function.update tables vidIdx
    (videoAddr ||| userMask ||| readwriteMask ||| presentMask)
  ⟨Function.update pages vidIdx (vidDirectoryEntry frame), tables⟩

/-- What `halt` writes: the program page of the parent. -/
def haltPages (parent : Pid) (pt : PageTables) : PageTables :=
  { pt with pages := Function.update pt.pages virtualProgram (programEntry parent) }

/-- What `timer_handler` writes when it restores process `pid` of terminal `t`. -/
def timerPages (frame : Nat) (pid : Pid) (t currentTerminal : Terminal) (pt : PageTables) :
    PageTables :=
  let pages := Function.update pt.pages virtualProgram (programEntry pid)
  let tables :=
    if t ≠ currentTerminal then
      Function.update pt.tables vidIdx
        (video1Addr + 0x1000 * BitVec.ofNat 32 t.val ||| userMask ||| readwriteMask ||| presentMask)
    else
      Function.update pt.tables vidIdx (videoAddr ||| userMask ||| readwriteMask ||| presentMask)
  ⟨Function.update pages vidIdx (vidDirectoryEntry frame), tables⟩

/-! ## The console with its page tables -/

/-- What a call of `execute` writes: only one that starts a program comes to the page tables. -/
def startedPages (frame : Nat) (r : ExecuteResult) (pt : PageTables) : PageTables :=
  match r with
  | .started _ k => executePages frame k.procs.currentPid pt
  | .returned _ _ => pt
  | .stuck => pt

/-- What a timer interrupt writes. -/
def tickPages (frame : Nat) (saved : Kernel) (pt : PageTables) : PageTables :=
  match nextProcess saved with
  | none => pt
  | some t =>
      if restores saved t then
        timerPages frame (saved.sched.scheduleStack t (saved.sched.topIdx t)) t
          saved.terms.currentTerminal pt
      else pt

/-- What a keyboard interrupt writes: only a key that starts a shell does. -/
def keyPages (frame : Nat) (img : FsImage) (k : Kernel) (code : UInt8) (res : Residue)
    (fr : ExecuteFrame) (pt : PageTables) : PageTables :=
  match startKey (Machine.keyboardKernel k) code.toNat with
  | some (.switch num k) =>
      match terminalSwitch img res fr k num with
      | .executed r => startedPages frame r pt
      | _ => pt
  | _ => pt

/-- What an event writes. -/
def pagesAfter (frame : Nat) (img : FsImage) (c : Console) (pt : PageTables) :
    ConsoleEvent → PageTables
  | .tick esp ebp => tickPages frame (Machine.savedKernel c.kernel esp ebp) pt
  | .key code res fr => keyPages frame img c.kernel code res fr pt
  | .execute command res fr =>
      startedPages frame (execute img res fr c.kernel.cli command) pt
  | .halt => haltPages (c.kernel.parent c.kernel.procs.currentPid) pt
  | .respawn res fr =>
      startedPages frame (execute img res fr c.kernel.cli (some shellName)) pt
  | _ => pt

/-- A console and its page tables. -/
structure PagedConsole where
  console : Console
  tables : PageTables

namespace PagedConsole

/-- One step. -/
def step (frame : Nat) (img : FsImage) (s : PagedConsole) (e : ConsoleEvent) :
    Option PagedConsole :=
  (s.console.step img e).map fun c => ⟨c, pagesAfter frame img s.console s.tables e⟩

/-- The translation of an address. The only page table is `process_tables`. -/
def translate (frame : Nat) (s : PagedConsole) (a : Access) (v : Word) : Option Nat :=
  walk s.tables.pages (fun f => if f = frame then some s.tables.tables else none) a v

end PagedConsole

/-- Before the first program is executed. The arrays are zero at first. -/
def bootPaged (frame : Nat) (espBoot : Word) : PagedConsole :=
  ⟨bootConsole espBoot, pagingInit frame ⟨fun _ => 0, fun _ => 0⟩⟩

end Ece391Os
