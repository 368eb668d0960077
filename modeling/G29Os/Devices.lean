import Mathlib.Tactic.Common

/-! The interrupt controllers of `i8259.c` and the real-time clock of `rtc.c`. -/

namespace G29Os

structure Pic where
  masterMask : UInt8
  slaveMask : UInt8
  masterCommands : List UInt8
  slaveCommands : List UInt8

def eoi : UInt8 := 0x60

def keyboardIrq : Nat := 1

def irqBit (irqNum : Nat) : UInt8 := 1 <<< UInt8.ofNat irqNum

def enableIrq (irqNum : Nat) (pic : Pic) : Pic :=
  if irqNum < 8 then { pic with masterMask := pic.masterMask &&& ~~~irqBit irqNum }
  else { pic with slaveMask := pic.slaveMask &&& ~~~irqBit (irqNum - 8) }

def disableIrq (irqNum : Nat) (pic : Pic) : Pic :=
  if irqNum < 8 then { pic with masterMask := pic.masterMask ||| irqBit irqNum }
  else { pic with slaveMask := pic.slaveMask ||| irqBit (irqNum - 8) }

def sendEoi (irqNum : Nat) (pic : Pic) : Pic :=
  if irqNum ≥ 8 then
    { pic with
      slaveCommands := pic.slaveCommands ++ [eoi ||| UInt8.ofNat (irqNum - 8)]
      masterCommands := pic.masterCommands ++ [eoi ||| 2] }
  else { pic with masterCommands := pic.masterCommands ++ [eoi ||| UInt8.ofNat irqNum] }

structure Rtc where
  rtcFlag : Bool
  rtcOpenFlag : Bool
  registerA : UInt8

def rateMax : Nat := 15

def rtcHandler (rtc : Rtc) : Rtc := { rtc with rtcFlag := true }

def rtcOpen (rtc : Rtc) : Int := if rtc.rtcOpenFlag then -1 else 0

def halvings : Nat → Nat → UInt16 → Nat
  | 0, i, _ => i
  | fuel + 1, i, freq =>
      if freq / 2 = 1 ∨ freq / 2 = 0 then i else halvings fuel (i + 1) (freq / 2)

def rtcWrite (low high : UInt8) (rtc : Rtc) : Rtc :=
  let freq := low.toUInt16 + (high.toUInt16 <<< 8)
  let rate := rateMax - halvings rateMax 0 freq
  { rtc with registerA := (rtc.registerA &&& 0xF0) ||| UInt8.ofNat rate }

def rtcClose (rtc : Rtc) : Rtc := { rtc with rtcOpenFlag := false }

/-- `rtc_read` after its wait loop; before a tick it has no result. -/
def rtcRead (rtc : Rtc) : Option Rtc :=
  if rtc.rtcFlag then some { rtc with rtcFlag := false } else none

end G29Os
