import Ece391Os.Model.SystemCall

/-!
# The clock and its readers

`handle_RTC` of `interrupts.c` and the wait of `rtc_read` (`rtc_driver.c`), with the rate of the
periodic interrupt that the four low bits of register A select. A run is a sequence of calls of
the driver by processes of the three terminals and of clock interrupts; `requests` records
which rate was asked for in which terminal.
-/

set_option autoImplicit false

namespace Ece391Os

/-! ## The hardware -/

/-- The periodic interrupts of the clock for a second, by the rate bits of register A. From `3` on
each rate is half of the one before; `1` and `2` stand for those of `8` and `9`. -/
def periodicRate (register : UInt8) : Nat :=
  match (register &&& 0x0F).toNat with
  | 0 => 0
  | 1 => 256
  | 2 => 128
  | rate => 32768 >>> (rate - 1)

/-! ## The driver -/

/-- `handle_RTC`. -/
def handleRTC (k : Kernel) : Kernel :=
  { k with rtc := { k.rtc with
      rtcVirtualInterupt := fun t => k.rtc.rtcVirtualInterupt t + 1 } }

/-- `rtc_read` up to its wait loop. -/
def rtcReadStart (k : Kernel) : Kernel :=
  { k with
    rtc := { k.rtc with
      rtcVirtualInterupt := Function.update k.rtc.rtcVirtualInterupt k.sched.currentProcess 0 }
    interrupts := true }

/-- The condition of the wait loop, for a reader of terminal `cip`. -/
def rtcReadWaits (k : Kernel) (cip : Terminal) : Bool := k.rtc.rtcVirtualInterupt cip < 1

/-- The word that `rtc_write` compares with the powers of two. -/
def passedRate (res : Residue) (buf : Nat → UInt8) (rateSize : Int) : Word :=
  wordAt (fun i =>
    if i < rateSize.toNat then buf i
    else UInt8.ofNat (res.passedRate >>> (8 * i)).toNat) 0

/-! ## Runs -/

/-- A call of the driver by process `pid` of terminal `t`, or an interrupt of the clock. -/
inductive RtcEvent where
  | open (t : Terminal) (pid : Pid) (res : Residue)
  | write (t : Terminal) (pid : Pid) (res : Residue) (buf : Nat → UInt8) (rateSize : Int)
  | read (t : Terminal) (pid : Pid)
  | close (t : Terminal) (pid : Pid) (fd : Int)
  | interrupt

/-- The kernel when process `pid` of terminal `t` runs. -/
def Kernel.onTerminal (k : Kernel) (t : Terminal) (pid : Pid) : Kernel :=
  { k.runAs pid with sched := { k.sched with currentProcess := t } }

/-- The kernel, and the rates asked for so far. -/
structure RtcRun where
  kernel : Kernel
  requests : List (Terminal × Nat)

/-- Before the first call. -/
def bootRtc (espBoot : Word) : RtcRun := ⟨bootKernel espBoot, []⟩

/-- One event. A successful `rtc_open` asks for 2 Hz, a successful `rtc_write` for the rate that it
is given. -/
def rtcStep (s : RtcRun) : RtcEvent → Option RtcRun
  | .open t pid res =>
      let r := rtcOpen res (s.kernel.onTerminal t pid)
      some ⟨r.2, if r.1 = -1 then s.requests else s.requests ++ [(t, 2)]⟩
  | .write t pid res buf rateSize =>
      let r := rtcWrite res (s.kernel.onTerminal t pid) buf rateSize
      match r.exit with
      | .returned v =>
          some ⟨r.kernel, if v = -1 then s.requests
            else s.requests ++ [(t, (passedRate res buf rateSize).toNat)]⟩
      | .pageFault => none
      | .endless => none
  | .read t pid => some { s with kernel := (rtcRead (s.kernel.onTerminal t pid)).kernel }
  | .close t pid fd => some { s with kernel := (rtcClose (s.kernel.onTerminal t pid) fd).2 }
  | .interrupt => some { s with kernel := handleRTC s.kernel }

end Ece391Os
