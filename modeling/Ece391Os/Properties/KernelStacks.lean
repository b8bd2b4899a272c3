import Ece391Os.Model.TerminalSwitch
import Ece391Os.Properties.Executables
import Ece391Os.Properties.ReadBounds

/-!
# Where `execute` writes on the kernel stacks

The kernel stacks lie below each other, one slot of `2 * K_4` bytes for each process, the
slots of larger process numbers at smaller addresses. The local array `buf` of `execute` is
longer than a slot. `noCollision_iff` says for which processes the bytes of a program stay
out of the slots of the others, wherever the compiler puts the array below the top of the
stack.
-/

set_option autoImplicit false

namespace Ece391Os

/-! ## Slots -/

/-- `sizeof(buf)` in `execute`. -/
def bufBytes : Nat := 4 * executeLength.toNat

/-- The address lies in the kernel stack slot of `pid`: the `2 * K_4` bytes that end at its
`esp0`. -/
def InStackSlot (pid : Pid) (addr : Nat) : Prop :=
  kernelStackTop pid - 2 * k4 ≤ addr ∧ addr < kernelStackTop pid

instance (pid : Pid) (addr : Nat) : Decidable (InStackSlot pid addr) :=
  inferInstanceAs (Decidable (_ ∧ _))

/-- `buf` lies wholly below the top of the kernel stack of `pid`. -/
def BelowStackTop (pid : Pid) (frame : ExecuteFrame) : Prop :=
  frame.buf.toNat + bufBytes ≤ kernelStackTop pid

theorem kernelStackTop_add (pid : Pid) : kernelStackTop pid + 0x8000 * pid.val = 0x7FFFF1 := by
  have hlt := pid.isLt
  simp only [kernelStackTop, kernelAddr, m4, k4]
  omega

/-- The slot of a smaller process number lies above the top of the stack. -/
theorem InStackSlot.le_of_lt {p q : Pid} {addr : Nat} (hq : q < p) (h : InStackSlot q addr) :
    kernelStackTop p ≤ addr := by
  have hp := kernelStackTop_add p
  have hqt := kernelStackTop_add q
  have hval := Fin.lt_def.mp hq
  have hlow := h.1
  simp only [k4] at hlow
  omega

/-- The array can lie so that a given one of its first bytes falls into the slot of a larger
process number. -/
theorem exists_frame_inStackSlot {p q : Pid} (hq : p < q) {i : Nat} (hi : i < executeLength.toNat) :
    ∃ frame : ExecuteFrame, BelowStackTop p frame ∧ InStackSlot q (frame.buf.toNat + i) := by
  have hp := kernelStackTop_add p
  have hqt := kernelStackTop_add q
  have hval := Fin.lt_def.mp hq
  have hlt := q.isLt
  have hlen : executeLength.toNat = 10000 := rfl
  refine ⟨⟨0, BitVec.ofNat 32 (kernelStackTop q - 10000)⟩, ?_, ?_⟩
  · simp only [BelowStackTop, bufBytes, BitVec.toNat_ofNat, hlen]
    omega
  · simp only [InStackSlot, BitVec.toNat_ofNat, k4]
    omega

/-! ## The stores through `buf` -/

/-- The stores that `execute` makes through `buf`: those of `read`, if it comes to that. -/
def loadStores (img : FsImage) (res : Residue) (frame : ExecuteFrame) (k : Kernel)
    (command : Option CString) : Stores :=
  match command with
  | none => []
  | some command =>
      if k.procs.numActiveProcesses ≥ maxProcesses then []
      else if command.strlen ≥ execBufferSize then []
      else
        let opened := sysOpen img res k (some (commandWord command))
        if opened.1 = -1 then []
        else (sysRead img res opened.2 opened.1 (some frame.buf) executeLength).stores

section LoadStores

variable {img : FsImage} {res : Residue} {frame : ExecuteFrame} {k : Kernel}
  {command : Option CString}

/-- The address of the array does not matter to what is stored in it. -/
theorem loadStores_frame (frame frame' : ExecuteFrame) :
    loadStores img res frame k command = loadStores img res frame' k command := by
  cases command with
  | none => rfl
  | some cmd => simp [loadStores, sysRead]

theorem index_lt_of_mem_loadStores {s : Nat × UInt8}
    (h : s ∈ loadStores img res frame k command) : s.1 < executeLength.toNat := by
  cases command with
  | none => simp [loadStores] at h
  | some cmd =>
      simp only [loadStores] at h
      split at h
      · simp at h
      · split at h
        · simp at h
        · split at h
          · simp at h
          · exact index_lt_of_mem_sysRead (by decide : 10000 < 2 ^ 31) h

end LoadStores

/-! ## Collisions -/

/-- Wherever the array lies below the top of the stack of the calling process, the bytes that
`execute` stores in it stay out of the stack slots of the other live processes. -/
def NoCollision (img : FsImage) (res : Residue) (k : Kernel) (command : Option CString) : Prop :=
  ∀ frame, BelowStackTop k.procs.currentPid frame →
    ∀ q, k.Live q → q ≠ k.procs.currentPid →
      ∀ s ∈ loadStores img res frame k command, ¬ InStackSlot q (frame.buf.toNat + s.1)

/-- Loading a program cannot reach the stack of another process exactly if nothing is stored or
every other live process has a smaller number. -/
theorem noCollision_iff (img : FsImage) (res : Residue) (k : Kernel) (command : Option CString) :
    NoCollision img res k command ↔
      (∀ frame, loadStores img res frame k command = []) ∨
        ∀ q, k.Live q → q ≠ k.procs.currentPid → q < k.procs.currentPid := by
  constructor
  · intro h
    by_contra hnot
    obtain ⟨hstores, hlive⟩ := not_or.mp hnot
    simp only [not_forall] at hstores hlive
    obtain ⟨frame₀, hne⟩ := hstores
    obtain ⟨q, hq, hqne, hle⟩ := hlive
    obtain ⟨s, hs⟩ := List.exists_mem_of_ne_nil _ hne
    have hlt : k.procs.currentPid < q := lt_of_le_of_ne (not_lt.mp hle) hqne.symm
    obtain ⟨frame, hbelow, hslot⟩ :=
      exists_frame_inStackSlot hlt (index_lt_of_mem_loadStores hs)
    rw [loadStores_frame frame₀ frame] at hs
    exact h frame hbelow q hq hqne s hs hslot
  · rintro (hstores | hlive) frame hbelow q hq hqne s hs hslot
    · rw [hstores frame] at hs
      cases hs
    · have habove := hslot.le_of_lt (hlive q hq hqne)
      have hindex := index_lt_of_mem_loadStores hs
      simp only [BelowStackTop, bufBytes] at hbelow
      omega

/-- The first shell, with a second shell on another terminal. -/
def secondShell : Kernel :=
  (match terminalSwitch shellImage emptyResidue ⟨0x7F7F00, 0x7EE200⟩ firstShell 1 with
    | .executed r => r.kernelD firstShell
    | .unchanged | .waiting _ _ => firstShell).runAs 1

/-- The first shell executes `ls`: the program is stored in the stack slot of the second one. -/
theorem not_noCollision_ls :
    secondShell.Live 1 ∧ secondShell.Live 2 ∧
      ¬ NoCollision shellImage emptyResidue secondShell (some lsName) := by
  refine ⟨by decide, by decide, fun h => ?_⟩
  have hstore : ((0, 0x7f) : Nat × UInt8) ∈
      loadStores shellImage emptyResidue ⟨0x7F7FB1, 0x7EE351⟩ secondShell (some lsName) := by
    decide
  exact h ⟨0x7F7FB1, 0x7EE351⟩ (by unfold BelowStackTop; decide) 2 (by decide)
    (by decide) _ hstore (by decide)

end Ece391Os
