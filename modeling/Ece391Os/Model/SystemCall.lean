import Ece391Os.Library.EventRun
import Ece391Os.Model.Syscalls

/-!
# The system-call wrapper

The remaining handlers of `syscalls.c` (`write` with `rtc_write` of `rtc_driver.c`,
`getargs`, `vidmap`), and `system_call` of `syscalls_wrapper.S`, which parks the value of a
handler in the global word `return_val` while `popal` restores the registers. The wrapper
is a step relation: each process is at some instruction of it (`Phase`), a timer
interrupt can arrive wherever interrupts are enabled, and `delivered` records the values
with which calls come back.
-/

set_option autoImplicit false

namespace Ece391Os

/-! ## Write -/

/-- `file_write`, which `directory_write` and `keyboard_write` repeat. -/
def fileWrite (k : Kernel) : CallResult := ⟨.returned (-1), k, []⟩

/-- `directory_write`. -/
def directoryWrite (k : Kernel) : CallResult := fileWrite k

/-- `keyboard_write`. -/
def keyboardWrite (k : Kernel) : CallResult := fileWrite k

/-- `MAX_RTC_RATE`. -/
def maxRtcRate : Nat := 32768

/-- The `for` loop of `rtc_write`: `mask` doubles while `rate` counts down. -/
def rateSearch (passedRate : Word) : Nat → Nat → UInt8 → Option UInt8
  | 0, _, _ => none
  | fuel + 1, mask, rate =>
      if BitVec.ofNat 32 mask = passedRate then some rate
      else if mask = maxRtcRate then none
      else rateSearch passedRate fuel (mask * 2) (rate - 1)

/-- `rtc_write`. It copies `rate_size` bytes over the four of `passed_rate`; another size than
`0` to `4` overwrites the frame, and the call is then taken not to return. -/
def rtcWrite (res : Residue) (k : Kernel) (buf : Nat → UInt8) (rateSize : Int) : CallResult :=
  let k := k.cli
  if 0 ≤ rateSize ∧ rateSize ≤ 4 then
    -- the bytes that are not copied keep what the stack held
    let passedRate := wordAt (fun i =>
      if i < rateSize.toNat then buf i
      else UInt8.ofNat (res.passedRate >>> (8 * i)).toNat) 0
    match rateSearch passedRate 15 2 15 with
    | none => ⟨.returned (-1), k, []⟩
    | some rate =>
        let cip := k.sched.currentProcess
        ⟨.returned 0, { k with rtc := {
          register := (k.rtc.register &&& 0xF0) ||| rate
          rtcRunning := Function.update k.rtc.rtcRunning cip passedRate.toInt
          rtcVirtualInterupt := Function.update k.rtc.rtcVirtualInterupt cip 0 } }, []⟩
  else ⟨.endless, k, []⟩

/-- `write`. A `NULL` buffer is `none`. -/
def sysWrite (res : Residue) (k : Kernel) (fd : Int) (buf : Option (Nat → UInt8))
    (nbytes : Int) : CallResult :=
  let k := k.cli
  match buf with
  | none => ⟨.returned (-1), k, []⟩
  | some buf =>
      if h : 0 ≤ fd ∧ fd < 8 then
        let block := k.fdTable ⟨fd.toNat, toNat_lt_eight h⟩
        if block.flags = freeFlags then ⟨.returned (-1), k, []⟩
        else
          match block.fileOperationsPointer with
          | none => ⟨.returned (-1), k, []⟩
          | some .file => fileWrite k
          | some .dir => directoryWrite k
          | some .rtc => rtcWrite res k buf nbytes
          | some .stdin => keyboardWrite k
          | some .stdout =>
              let r := terminalWrite k ((List.range nbytes.toNat).map buf)
              ⟨.returned r.1, r.2, []⟩
      else ⟨.returned (-1), k, []⟩

/-- The entry `write` of an operation table. -/
def OpTable.write (res : Residue) (k : Kernel) (buf : Nat → UInt8) (nbytes : Int) :
    OpTable → CallResult
  | .file => fileWrite k
  | .dir => directoryWrite k
  | .rtc => rtcWrite res k buf nbytes
  | .stdin => keyboardWrite k
  | .stdout =>
      let r := terminalWrite k ((List.range nbytes.toNat).map buf)
      ⟨.returned r.1, r.2, []⟩

/-- `write` calls the driver of the descriptor, or returns `-1`. -/
theorem sysWrite_driver {res : Residue} {k : Kernel} {fd : Fin 8} (buf : Nat → UInt8)
    (nbytes : Int) :
    sysWrite res k fd.val (some buf) nbytes =
      (k.driver fd).elim ⟨.returned (-1), k.cli, []⟩ (OpTable.write res k.cli buf nbytes) := by
  have hfd : 0 ≤ (fd.val : Int) ∧ (fd.val : Int) < 8 := by omega
  have hcli : k.cli.fdTable fd = k.fdTable fd := rfl
  simp only [sysWrite, dif_pos hfd, Int.toNat_natCast, hcli, Kernel.driver]
  split
  · rfl
  · rcases (k.fdTable fd).fileOperationsPointer with _ | _ | _ | _ | _ | _ <;> rfl

/-- What `write` can do. -/
theorem sysWrite_dispatch (res : Residue) (k : Kernel) (n : Int) (buf : Option (Nat → UInt8))
    (nbytes : Int) :
    sysWrite res k n buf nbytes = ⟨.returned (-1), k.cli, []⟩ ∨
      ∃ (op : OpTable) (bytes : Nat → UInt8),
        sysWrite res k n buf nbytes = op.write res k.cli bytes nbytes := by
  cases buf with
  | none => exact Or.inl rfl
  | some bytes =>
      by_cases hn : 0 ≤ n ∧ n < 8
      · obtain ⟨i, rfl⟩ := exists_fd hn
        rw [sysWrite_driver]
        cases k.driver i with
        | none => exact Or.inl rfl
        | some op => exact Or.inr ⟨op, bytes, rfl⟩
      · left
        simp only [sysWrite, dif_neg hn]

/-! ## Arguments and video memory -/

/-- `getargs`. -/
def getargs (k : Kernel) (buf : Option Word) (nbytes : Int) : CallResult :=
  let k := k.cli
  if buf = none then ⟨.returned (-1), k, []⟩
  else if nbytes ≤ 0 then ⟨.returned (-1), k, []⟩
  else
    let args := (k.procs.controlBlocks k.procs.currentPid).args
    let argsSize := CString.strlen ((List.range argsBufferSize).map args)
    -- arguments of exactly `nbytes` bytes pass, and their `NUL` is stored behind the buffer
    if (argsSize : Int) > nbytes ∨ argsSize ≤ 0 then ⟨.returned (-1), k, []⟩
    else
      ⟨.returned 0, clearArgs k,
        ((List.range argsSize).map fun i => (i, args i)) ++ [(argsSize, 0)]⟩

/-- `PROGMEM_LOWER` and `PROGMEM_UPPER`. -/
def progmemLower : Word := 0x400000
def progmemUpper : Word := 0x800000

/-- The bytes of `VIDMAP` in memory. -/
def vidmapBytes : List UInt8 := [0x00, 0x10, 0x42, 0x08]

/-- `vidmap`. -/
def vidmap (k : Kernel) (screenStart : Word) : CallResult :=
  let k := k.cli
  if screenStart = 0 then ⟨.returned (-1), k, []⟩
  else if screenStart ≥ progmemLower ∧ screenStart ≤ progmemUpper then ⟨.returned (-1), k, []⟩
  else ⟨.returned 0, k, (List.range 4).map fun i => (i, vidmapBytes.getD i 0)⟩

/-- `set_handler`, which `sigreturn` repeats. -/
def setHandler (k : Kernel) : CallResult := ⟨.returned (-1), k.cli, []⟩

/-- `sigreturn`. -/
def sigreturn (k : Kernel) : CallResult := setHandler k

/-! ## The table of handlers -/

/-- A system call with its arguments, in the order of `syscalltable`. -/
inductive Call where
  | halt (status : UInt8)
  | execute (command : Option CString) (frame : ExecuteFrame)
  | read (fd : Int) (buf : Option Word) (nbytes : Int)
  | write (fd : Int) (buf : Option (Nat → UInt8)) (nbytes : Int)
  | open (filename : Option CString)
  | close (fd : Int)
  | getargs (buf : Option Word) (nbytes : Int)
  | vidmap (screenStart : Word)
  | setHandler
  | sigreturn

/-- The result of a call that ends by itself, if it does. -/
def CallResult.value? (r : CallResult) : Option (Int × Kernel) :=
  match r.exit with
  | .returned v => some (v, r.kernel)
  | .pageFault => none
  | .endless => none

/-- The page at 128 MB, where the running program has its memory. -/
def inProgramPage (address : Word) : Bool :=
  0x8000000 ≤ address.toNat && address.toNat < 0x8400000

/-- The result of a call that stores through the pointer `buf` of its caller into the program page.
No handler checks where the pointer leads; what a store elsewhere overwrites is not modelled, and
such a call has no result. -/
def CallResult.into (r : CallResult) (buf : Option Word) : Option (Int × Kernel) :=
  if buf.all fun a => r.stores.all fun s => inProgramPage (a + BitVec.ofNat 32 s.1) then r.value?
  else none

theorem CallResult.value?_of_into {r : CallResult} {buf : Option Word} {x : Int × Kernel}
    (h : r.into buf = some x) : r.value? = some x := by
  rw [CallResult.into] at h
  split at h
  · exact h
  · cases h

/-- The handler of a call, from its start to its return. `halt` does not return to its caller, and
`execute` only if it refuses the command. -/
def serve (img : FsImage) (res : Residue) (k : Kernel) : Call → Option (Int × Kernel)
  | .halt _ => none
  -- a started program runs first: its `halt` ends the call, as a step of the machine
  | .execute command frame =>
      match execute img res frame k command with
      | .returned v k => some (v, k)
      | .stuck => none
      | .started _ _ => none
  | .read fd buf nbytes => (sysRead img res k fd buf nbytes).into buf
  | .write fd buf nbytes => (sysWrite res k fd buf nbytes).value?
  | .open filename => some (sysOpen img res k filename)
  | .close fd => some (sysClose k fd)
  | .getargs buf nbytes => (getargs k buf nbytes).into buf
  | .vidmap screenStart => (vidmap k screenStart).into (some screenStart)
  | .setHandler => (setHandler k).value?
  | .sigreturn => (sigreturn k).value?

/-! ## The status of a program -/

/-- The byte registers that the operand of the `movb` in `halt` can be in: its constraint `"r"`
leaves the choice to the compiler. -/
inductive ByteRegister where
  | al
  | bl
  | cl
  | dl
  deriving DecidableEq, Repr

/-- The assembly of `halt`, with the status in the register `reg`: what AL holds behind
`xorl %eax, %eax` and `movb %0, %al`. The operand is in its register before the `xorl`. -/
def statusInAl (reg : ByteRegister) (status : UInt8) : UInt8 :=
  let loaded : ByteRegister → UInt8 := Function.update (fun _ => 0) reg status
  let cleared := Function.update loaded .al 0
  cleared reg

@[simp] theorem statusInAl_al (status : UInt8) : statusInAl .al status = 0 := rfl

theorem statusInAl_of_ne {reg : ByteRegister} (h : reg ≠ .al) (status : UInt8) :
    statusInAl reg status = status := by
  simp only [statusInAl, Function.update_of_ne h, Function.update_self]

/-! ## The wrapper -/

/-- Where a process is: in its user program, in a handler, in `execute` while its child runs, or
behind the `call` in `system_call`. `own` is the value that its handler returned, `enabled` whether
it returned with interrupts enabled, and `eax` the value it reloads. -/
inductive Phase where
  | user
  | handler (call : Call)
  | waiting
  | returned (own : Int) (enabled : Bool)
  | stored (own : Int) (enabled : Bool)
  | popped (own : Int) (enabled : Bool)
  | reloaded (own eax : Int) (enabled : Bool)

/-- A call that has come back to its user program. -/
structure Delivery where
  pid : Pid
  own : Int
  eax : Int
  enabled : Bool
  deriving DecidableEq, Repr

/-- The kernel, the register in which `halt` has its status, the word `return_val`, the instruction
each process is at, the interrupt flag of each user program, and the record of deliveries. -/
structure CallMachine where
  kernel : Kernel
  statusReg : ByteRegister
  returnVal : Int
  phase : Pid → Phase
  userFlag : Pid → Bool
  delivered : List Delivery

/-- What can happen next. All events but `tick` are steps of the process on the processor. -/
inductive CallEvent where
  | call (call : Call)
  | reject
  | window (enabled : Bool)
  | serve (res : Residue)
  | spawn (res : Residue)
  | halt
  | store
  | popal
  | reload
  | iret
  | tick (esp ebp : Word)

namespace CallMachine

/-- The process on the processor. -/
def running (m : CallMachine) : Pid := m.kernel.procs.currentPid

/-- The running process goes to another instruction. -/
def goto (m : CallMachine) (p : Phase) : CallMachine :=
  { m with phase := Function.update m.phase m.running p }

/-- One step. A call number outside `1` to `10` is rejected with `-1` in EAX. A handler may open and
close windows with interrupts enabled before it returns. `execute` starts a process in one step,
also where `close` of the real-time clock has left interrupts enabled. When a process halts, its
parent goes on in `execute`, which returns what AL holds; the sentinel is then about to call
`execute` again. -/
def step (img : FsImage) (m : CallMachine) : CallEvent → Option CallMachine
  | .call call =>
      match m.phase m.running with
      | .user => some { m.goto (.handler call) with kernel := m.kernel.cli }
      | _ => none
  | .reject =>
      match m.phase m.running with
      | .user => some { m.goto (.reloaded (-1) (-1) false) with kernel := m.kernel.cli }
      | _ => none
  | .window enabled =>
      match m.phase m.running with
      | .handler _ => some { m with kernel := { m.kernel with interrupts := enabled } }
      | _ => none
  | .serve res =>
      match m.phase m.running with
      | .handler call =>
          (Ece391Os.serve img res m.kernel.cli call).map fun r =>
            { m.goto (.returned r.1 r.2.interrupts) with kernel := r.2 }
      | _ => none
  | .spawn res =>
      match m.phase m.running with
      | .handler (.execute command frame) =>
          match execute img res frame m.kernel.cli command with
          | .started _ k =>
              some { m with
                kernel := k
                phase := Function.update (Function.update m.phase m.running .waiting)
                  k.procs.currentPid .user
                userFlag := Function.update m.userFlag k.procs.currentPid k.interrupts }
          | _ => none
      | _ => none
  | .halt =>
      match m.phase m.running with
      | .handler (.halt status) =>
          let k := halted (Ece391Os.halt m.kernel.cli)
          let parent := k.procs.currentPid
          let phase := Function.update m.phase m.running .user
          if parent = sentinelProcess then
            some { m with kernel := k, phase := Function.update phase parent .user }
          else
            match m.phase parent with
            | .waiting =>
                some { m with
                  kernel := k
                  phase := Function.update phase parent
                    (.returned (statusInAl m.statusReg status).toNat k.interrupts) }
            | _ => none
      | _ => none
  | .store =>
      match m.phase m.running with
      | .returned own enabled => some { m.goto (.stored own enabled) with returnVal := own }
      | _ => none
  | .popal =>
      match m.phase m.running with
      | .stored own enabled => some (m.goto (.popped own enabled))
      | _ => none
  | .reload =>
      match m.phase m.running with
      | .popped own enabled => some (m.goto (.reloaded own m.returnVal enabled))
      | _ => none
  | .iret =>
      match m.phase m.running with
      | .reloaded own eax enabled =>
          some { m.goto .user with
            kernel := { m.kernel with interrupts := m.userFlag m.running }
            delivered := m.delivered ++ [⟨m.running, own, eax, enabled⟩] }
      | _ => none
  | .tick esp ebp =>
      -- a tick changes no phase: it only puts another process on the processor
      if m.kernel.interrupts then
        (scheduleWrapper m.kernel esp ebp).map fun k => { m with kernel := k }
      else none

/-- What a step comes to, one case for each way in which it can go. -/
inductive Effect (img : FsImage) (m : CallMachine) : CallEvent → CallMachine → Prop
  | call {call : Call} (hphase : m.phase m.running = .user) :
      Effect img m (.call call) { m.goto (.handler call) with kernel := m.kernel.cli }
  | reject (hphase : m.phase m.running = .user) :
      Effect img m .reject { m.goto (.reloaded (-1) (-1) false) with kernel := m.kernel.cli }
  | window {enabled : Bool} {call : Call} (hphase : m.phase m.running = .handler call) :
      Effect img m (.window enabled) { m with kernel := { m.kernel with interrupts := enabled } }
  | serve {res : Residue} {call : Call} {v : Int} {k : Kernel}
      (hphase : m.phase m.running = .handler call)
      (hserve : Ece391Os.serve img res m.kernel.cli call = some (v, k)) :
      Effect img m (.serve res) { m.goto (.returned v k.interrupts) with kernel := k }
  | spawn {res : Residue} {command : Option CString} {frame : ExecuteFrame} {entry : Word}
      {k : Kernel} (hphase : m.phase m.running = .handler (.execute command frame))
      (hexec : execute img res frame m.kernel.cli command = .started entry k) :
      Effect img m (.spawn res) { m with
        kernel := k
        phase := Function.update (Function.update m.phase m.running .waiting)
          k.procs.currentPid .user
        userFlag := Function.update m.userFlag k.procs.currentPid k.interrupts }
  | haltFirst {status : UInt8} {k : Kernel}
      (hphase : m.phase m.running = .handler (.halt status))
      (hk : halted (Ece391Os.halt m.kernel.cli) = k)
      (hparent : k.procs.currentPid = sentinelProcess) :
      Effect img m .halt { m with
        kernel := k
        phase := Function.update (Function.update m.phase m.running .user)
          k.procs.currentPid .user }
  | haltChild {status : UInt8} {k : Kernel}
      (hphase : m.phase m.running = .handler (.halt status))
      (hk : halted (Ece391Os.halt m.kernel.cli) = k)
      (hparent : k.procs.currentPid ≠ sentinelProcess) :
      Effect img m .halt { m with
        kernel := k
        phase := Function.update (Function.update m.phase m.running .user)
          k.procs.currentPid (.returned (statusInAl m.statusReg status).toNat k.interrupts) }
  | store {own : Int} {enabled : Bool} (hphase : m.phase m.running = .returned own enabled) :
      Effect img m .store { m.goto (.stored own enabled) with returnVal := own }
  | popal {own : Int} {enabled : Bool} (hphase : m.phase m.running = .stored own enabled) :
      Effect img m .popal (m.goto (.popped own enabled))
  | reload {own : Int} {enabled : Bool} (hphase : m.phase m.running = .popped own enabled) :
      Effect img m .reload (m.goto (.reloaded own m.returnVal enabled))
  | iret {own eax : Int} {enabled : Bool}
      (hphase : m.phase m.running = .reloaded own eax enabled) :
      Effect img m .iret { m.goto .user with
        kernel := { m.kernel with interrupts := m.userFlag m.running }
        delivered := m.delivered ++ [⟨m.running, own, eax, enabled⟩] }
  | tick {esp ebp : Word} {k : Kernel} (henabled : m.kernel.interrupts = true)
      (hswitch : scheduleWrapper m.kernel esp ebp = some k) :
      Effect img m (.tick esp ebp) { m with kernel := k }

theorem effect_of_step {img : FsImage} {m m' : CallMachine} {e : CallEvent}
    (h : step img m e = some m') : Effect img m e m' := by
  cases e with
  | call call =>
      simp only [step] at h
      split at h
      next hphase =>
        cases h
        exact .call hphase
      next => cases h
  | reject =>
      simp only [step] at h
      split at h
      next hphase =>
        cases h
        exact .reject hphase
      next => cases h
  | window enabled =>
      simp only [step] at h
      split at h
      next hphase =>
        cases h
        exact .window hphase
      next => cases h
  | serve res =>
      simp only [step] at h
      split at h
      next hphase =>
        obtain ⟨⟨v, k⟩, hserve, rfl⟩ := Option.map_eq_some_iff.mp h
        exact .serve hphase hserve
      next => cases h
  | spawn res =>
      simp only [step] at h
      split at h
      next hphase =>
        split at h
        next hexec =>
          cases h
          exact .spawn hphase hexec
        next => cases h
      next => cases h
  | halt =>
      simp only [step] at h
      split at h
      next hphase =>
        split at h
        next hparent =>
          cases h
          exact .haltFirst hphase rfl hparent
        next hparent =>
          split at h
          · cases h
            exact .haltChild hphase rfl hparent
          · cases h
      next => cases h
  | store =>
      simp only [step] at h
      split at h
      next hphase =>
        cases h
        exact .store hphase
      next => cases h
  | popal =>
      simp only [step] at h
      split at h
      next hphase =>
        cases h
        exact .popal hphase
      next => cases h
  | reload =>
      simp only [step] at h
      split at h
      next hphase =>
        cases h
        exact .reload hphase
      next => cases h
  | iret =>
      simp only [step] at h
      split at h
      next hphase =>
        cases h
        exact .iret hphase
      next => cases h
  | tick esp ebp =>
      simp only [step] at h
      split at h
      next henabled =>
        obtain ⟨k, hswitch, rfl⟩ := Option.map_eq_some_iff.mp h
        exact .tick henabled hswitch
      next => cases h

/-- The code of `halt` does not change. -/
theorem statusReg_step {img : FsImage} {m m' : CallMachine} {e : CallEvent}
    (h : step img m e = some m') : m'.statusReg = m.statusReg := by
  cases effect_of_step h <;> rfl

end CallMachine

end Ece391Os
