import G29Os.BitFields

/-!
The segment and interrupt tables of a 32-bit processor: which code an interrupt enters, and what
becomes of the faults on the way there. Task gates and gates to 16-bit code are left out.
-/

namespace InterruptTables

open BitFields

/-! ### Descriptors -/

def base (descriptor : Nat) : Nat :=
  extract 16 16 descriptor + 2 ^ 16 * extract 32 8 descriptor + 2 ^ 24 * extract 56 8 descriptor

def limit (descriptor : Nat) : Nat := extract 0 16 descriptor + 2 ^ 16 * extract 48 4 descriptor

def level (descriptor : Nat) : Nat := extract 45 2 descriptor

def present (descriptor : Nat) : Bool := bit 47 descriptor

def isCode (descriptor : Nat) : Bool := bit 44 descriptor && bit 43 descriptor

def isConforming (descriptor : Nat) : Bool := bit 42 descriptor

def isWritable (descriptor : Nat) : Bool := bit 44 descriptor && !bit 43 descriptor && bit 41 descriptor

def gateOffset (gate : Nat) : Nat := extract 0 16 gate + 2 ^ 16 * extract 48 16 gate

def gateSelector (gate : Nat) : Nat := extract 16 16 gate

def gateType (gate : Nat) : Nat := extract 40 5 gate

def interruptGate : Nat := 14

def trapGate : Nat := 15

/-- `stack` is the selector in the task state segment for the code of level 0. -/
structure Tables where
  segments : List Nat
  gates : List Nat
  stack : Nat

def segment (tables : Tables) (selector : Nat) : Option Nat :=
  if selector / 8 = 0 ∨ selector / 4 % 2 = 1 then none else tables.segments[selector / 8]?

/-! ### Delivery -/

inductive Fault
  | invalidStack | notPresent | protection
  deriving DecidableEq

def Fault.vector : Fault → Nat
  | .invalidStack => 10
  | .notPresent => 11
  | .protection => 13

structure Destination where
  offset : Nat
  selector : Nat
  level : Nat
  masked : Bool
  deriving DecidableEq

def stackAllowed (tables : Tables) : Bool :=
  match segment tables tables.stack with
  | none => false
  | some descriptor =>
      decide (tables.stack % 4 = 0 ∧ level descriptor = 0) && isWritable descriptor && present descriptor

def enterSegment (tables : Tables) (current gate : Nat) : Except Fault Destination :=
  match segment tables (gateSelector gate) with
  | none => .error .protection
  | some descriptor =>
      if !isCode descriptor || decide (current < level descriptor) then .error .protection
      else if !present descriptor then .error .notPresent
      else
        let inner := if isConforming descriptor then current else level descriptor
        if inner < current && !stackAllowed tables then .error .invalidStack
        else .ok ⟨gateOffset gate, gateSelector gate, inner, gateType gate = interruptGate⟩

/-- `current` is the level of the code that is interrupted. Only `int` looks at that of the gate. -/
def attempt (tables : Tables) (software : Bool) (current vector : Nat) : Except Fault Destination :=
  match tables.gates[vector]? with
  | none => .error .protection
  | some gate =>
      if gateType gate ≠ interruptGate ∧ gateType gate ≠ trapGate then .error .protection
      else if software && decide (level gate < current) then .error .protection
      else if !present gate then .error .notPresent
      else enterSegment tables current gate

inductive Outcome
  | entered (vector : Nat) (entry : Destination)
  | shutdown
  deriving DecidableEq

def doubleFault (tables : Tables) (current : Nat) : Outcome :=
  match attempt tables false current 8 with
  | .ok entry => .entered 8 entry
  | .error _ => .shutdown

def fault (tables : Tables) (current : Nat) (which : Fault) : Outcome :=
  match attempt tables false current which.vector with
  | .ok entry => .entered which.vector entry
  | .error _ => doubleFault tables current

def contributory (vector : Nat) : Bool := decide (vector = 0 ∨ 10 ≤ vector ∧ vector ≤ 14)

inductive Source
  | software | device | exception
  deriving DecidableEq

def deliver (tables : Tables) (source : Source) (current vector : Nat) : Outcome :=
  match attempt tables (decide (source = .software)) current vector with
  | .ok entry => .entered vector entry
  | .error which =>
      if source = .exception ∧ vector = 8 then .shutdown
      else if source = .exception ∧ contributory vector then doubleFault tables current
      else fault tables current which

def privileged (tables : Tables) (selector : Nat) : Bool :=
  match segment tables selector with
  | none => false
  | some descriptor => (!isCode descriptor || !isConforming descriptor) && decide (level descriptor < 3)

theorem getElem_assigned {α β : Type} {index : Nat} (word : β → α) (assignments : List (Nat × β)) {table : List α}
    (inside : index < table.length) :
    (assignments.foldl (fun table entry => table.set entry.1 (word entry.2)) table)[index]? =
      ((assignments.reverse.lookup index).map word).or table[index]? := by
  induction assignments generalizing table with
  | nil => simp
  | cons entry rest ih =>
      obtain ⟨place, value⟩ := entry
      rw [List.foldl_cons, ih (by rwa [List.length_set]), List.reverse_cons, List.lookup_append]
      rcases eq_or_ne index place with rfl | other
      · cases rest.reverse.lookup index with
        | none => simp [inside]
        | some later => simp
      · have unequal : (index == place) = false := beq_false_of_ne other
        cases rest.reverse.lookup index with
        | none => simp [List.lookup_cons, unequal, List.getElem?_set_ne other.symm]
        | some later => simp

section Delivery

variable {tables : Tables} {software : Bool} {current vector gate : Nat}

theorem attempt_gate (listed : tables.gates[vector]? = some gate) (kind : gateType gate = interruptGate)
    (allowed : software = false ∨ current ≤ level gate) (there : present gate = true) :
    attempt tables software current vector = enterSegment tables current gate := by
  have refused : (software && decide (level gate < current)) = false := by
    rcases allowed with device | high
    · simp [device]
    · simp [Nat.not_lt.mpr high]
  simp [attempt, listed, kind, refused, there]

theorem attempt_refused (listed : tables.gates[vector]? = some gate) (low : level gate < current) :
    attempt tables true current vector = .error .protection := by
  simp [attempt, listed, low]

theorem attempt_empty (listed : tables.gates[vector]? = some 0) : attempt tables software current vector = .error .protection := by
  have kind : gateType 0 = 0 := rfl
  simp [attempt, listed, kind, interruptGate, trapGate]

theorem attempt_absent (listed : tables.gates[vector]? = some gate) (kind : gateType gate = interruptGate)
    (allowed : software = false ∨ current ≤ level gate) (gone : present gate = false) :
    attempt tables software current vector = .error .notPresent := by
  have refused : (software && decide (level gate < current)) = false := by
    rcases allowed with device | high
    · simp [device]
    · simp [Nat.not_lt.mpr high]
  simp [attempt, listed, kind, refused, gone]

end Delivery

end InterruptTables
