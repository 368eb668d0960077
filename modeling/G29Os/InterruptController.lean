import Mathlib.Tactic.Common

/-!
A pair of 8259 interrupt controllers, the second behind a line of the first. Rotated priorities,
automatic ends of interrupts and the registers that a command selects for reading are left out.
-/

namespace InterruptController

inductive Stage
  | icw2 | icw3 | icw4 | ready
  deriving DecidableEq

structure Chip where
  stage : Stage
  single : Bool
  needsIcw4 : Bool
  base : UInt8
  cascade : UInt8
  mask : UInt8
  inService : UInt8
  deriving DecidableEq

def lineBit (line : Nat) : UInt8 := 1 <<< UInt8.ofNat line

namespace Chip

/-- Bit 4 starts the initialisation, with bit 3 the command is about reading, and the upper three
bits tell how an interrupt ends: the one of highest priority, or the one named. -/
def command (value : UInt8) (chip : Chip) : Chip :=
  if value &&& 0x10 ≠ 0 then
    { chip with
      stage := .icw2
      single := decide (value &&& 2 ≠ 0)
      needsIcw4 := decide (value &&& 1 ≠ 0)
      mask := 0
      inService := 0 }
  else if value &&& 8 ≠ 0 then chip
  else if value &&& 0xE0 = 0x20 then { chip with inService := chip.inService &&& (chip.inService - 1) }
  else if value &&& 0xE0 = 0x60 then { chip with inService := chip.inService &&& ~~~lineBit (value &&& 7).toNat }
  else chip

def data (value : UInt8) (chip : Chip) : Chip :=
  let last : Stage := if chip.needsIcw4 then .icw4 else .ready
  match chip.stage with
  | .icw2 => { chip with base := value &&& 0xF8, stage := if chip.single then last else .icw3 }
  | .icw3 => { chip with cascade := value, stage := last }
  | .icw4 => { chip with stage := .ready }
  | .ready => { chip with mask := value }

def masked (chip : Chip) (line : Nat) : Bool := decide (chip.mask &&& lineBit line ≠ 0)

def busy (chip : Chip) (line : Nat) : Bool :=
  (List.range (line + 1)).any fun above => decide (chip.inService &&& lineBit above ≠ 0)

def accepts (chip : Chip) (line : Nat) : Bool :=
  decide (chip.stage = .ready) && !chip.masked line && !chip.busy line

def next (asking : Nat → Bool) (chip : Chip) : Option Nat :=
  (List.range 8).find? fun line => asking line && chip.accepts line

def serve (line : Nat) (chip : Chip) : Chip := { chip with inService := chip.inService ||| lineBit line }

def vector (line : Nat) (chip : Chip) : UInt8 := chip.base + UInt8.ofNat line

def cascaded (chip : Chip) (line : Nat) : Bool := decide (chip.cascade &&& lineBit line ≠ 0)

end Chip

inductive Register
  | masterCommand | masterData | slaveCommand | slaveData
  deriving DecidableEq

structure Pair where
  master : Chip
  slave : Chip
  deriving DecidableEq

namespace Pair

def write (register : Register) (value : UInt8) (pair : Pair) : Pair :=
  match register with
  | .masterCommand => { pair with master := pair.master.command value }
  | .masterData => { pair with master := pair.master.data value }
  | .slaveCommand => { pair with slave := pair.slave.command value }
  | .slaveData => { pair with slave := pair.slave.data value }

def acknowledge (asking : Nat → Bool) (pair : Pair) : Option (UInt8 × Pair) :=
  let behind := pair.slave.next fun line => asking (line + 8)
  (pair.master.next fun line => if pair.master.cascaded line then behind.isSome else asking line).bind fun line =>
    if pair.master.cascaded line then
      behind.map fun inner => (pair.slave.vector inner, ⟨pair.master.serve line, pair.slave.serve inner⟩)
    else some (pair.master.vector line, { pair with master := pair.master.serve line })

end Pair

section Next

variable {chip : Chip} {asking : Nat → Bool} {line : Nat}

theorem next_eq_some (inside : line < 8) (asks : asking line = true) (accepted : chip.accepts line = true)
    (first : ∀ other < line, asking other = true → chip.accepts other = false) : chip.next asking = some line := by
  rw [Chip.next, List.find?_range_eq_some]
  refine ⟨by simp [asks, accepted], List.mem_range.mpr inside, fun other before => ?_⟩
  cases other_asks : asking other with
  | false => simp
  | true => simp [first other before other_asks]

theorem next_eq_none (refused : ∀ line < 8, asking line = true → chip.accepts line = false) : chip.next asking = none := by
  rw [Chip.next, List.find?_eq_none]
  intro line listed
  cases asks : asking line with
  | false => simp
  | true => simp [refused line (List.mem_range.mp listed) asks]

end Next

end InterruptController
