import G29Os.BootTables
import G29Os.ConsoleText
import G29Os.DirectoryLookup
import G29Os.PrintFormat

/-!
The handlers of exceptions. Each prints what has happened and stays in a loop with interrupts off,
so that its message is the last that is seen on the screen.
-/

namespace G29Os

open BoundedLoop InterruptTables TextRows

structure Exception where
  clears : Bool
  message : List UInt8

namespace Exception

/-- No conversion in the format looks at what stands behind it on the stack. -/
def run (exception : Exception) (console : Console) : Console :=
  let console := if exception.clears then clear console else console
  let call : PrintCall :=
    { format := textOf exception.message, stack := fun _ => 0, strings := fun _ => [], convBuf := fun _ _ => 0 }
  puts (printf (exception.message.length + 1) call).printed console

def divideError : Exception := ⟨true, ascii "divide error exception\n".toList⟩

def reserved : Exception := ⟨true, ascii "reserved\n".toList⟩

def nmiInterrupt : Exception := ⟨true, ascii "NMI interrupt\n".toList⟩

def breakpoint : Exception := ⟨true, ascii "breakpoint\n".toList⟩

def overflow : Exception := ⟨true, ascii "overflow\n".toList⟩

def boundRangeExceeded : Exception := ⟨true, ascii "bound range exceeded\n".toList⟩

def invalidOpcode : Exception := ⟨true, ascii "invalid opcode\n".toList⟩

def deviceNotAvailable : Exception := ⟨true, ascii "device not available\n".toList⟩

def doubleFault : Exception := ⟨true, ascii "double fault\n".toList⟩

def coprocessorSegmentOverrun : Exception := ⟨true, ascii "coprocessor segment overrun\n".toList⟩

def invalidTss : Exception := ⟨true, ascii "invalid tss\n".toList⟩

def segmentNotPresent : Exception := ⟨true, ascii "segement not present\n".toList⟩

def stackSegmentFault : Exception := ⟨true, ascii "stack segment fault\n".toList⟩

/-- The call of `clear` is commented out. -/
def generalProtection : Exception := ⟨false, ascii "general protection\n".toList⟩

def pageFault : Exception := ⟨true, ascii "page fault\n".toList⟩

def mathFault : Exception := ⟨true, ascii "x87 FPU floating-point error (math fault)\n".toList⟩

def alignmentCheck : Exception := ⟨true, ascii "alignment check\n".toList⟩

def machineCheck : Exception := ⟨true, ascii "machine check\n".toList⟩

def simdFloatingException : Exception := ⟨true, ascii "SIMD floating-point exception\n".toList⟩

end Exception

def Handler.exception : Handler → Option Exception
  | .divideError => some .divideError
  | .reserved => some .reserved
  | .nmiInterrupt => some .nmiInterrupt
  | .breakpoint => some .breakpoint
  | .overflow => some .overflow
  | .boundRangeExceeded => some .boundRangeExceeded
  | .invalidOpcode => some .invalidOpcode
  | .deviceNotAvailable => some .deviceNotAvailable
  | .doubleFault => some .doubleFault
  | .coprocessorSegmentOverrun => some .coprocessorSegmentOverrun
  | .invalidTss => some .invalidTss
  | .segmentNotPresent => some .segmentNotPresent
  | .stackSegmentFault => some .stackSegmentFault
  | .generalProtection => some .generalProtection
  | .pageFault => some .pageFault
  | .mathFault => some .mathFault
  | .alignmentCheck => some .alignmentCheck
  | .machineCheck => some .machineCheck
  | .simdFloatingException => some .simdFloatingException
  | .keyboardWrapper => none
  | .rtcWrapper => none
  | .syscallWrapper => none

/-! ### Printing a message -/

variable {message : List UInt8} {console : Console} {exception : Exception}

theorem pieces_message (literal : ∀ c ∈ message, c ≠ 37) :
    ∃ pieces : List Piece, pieces.flatMap Piece.format = message ∧
      ∀ call esp out, Rendering call pieces esp out → out = message := by
  induction message with
  | nil =>
      refine ⟨[], rfl, fun call esp out rendering => ?_⟩
      cases rendering
      rfl
  | cons c message ih =>
      obtain ⟨pieces, format, renders⟩ := ih fun other listed => literal other (List.mem_cons_of_mem c listed)
      refine ⟨.plain c (literal c List.mem_cons_self) :: pieces, ?_, fun call esp out rendering => ?_⟩
      · rw [List.flatMap_cons, format]
        rfl
      · cases rendering with
        | cons first later =>
            cases first
            rw [renders call _ _ later]
            rfl

theorem printf_message {call : PrintCall} (literal : ∀ c ∈ message, c ≠ 37)
    (string : IsCString call.format message) {size : Nat} (fits : message.length < size) :
    (printf size call).printed = message := by
  obtain ⟨pieces, format, renders⟩ := pieces_message literal
  have origin : IsCString (fun k => call.format (0 + k)) (pieces.flatMap Piece.format) := by
    simp only [Nat.zero_add, format]
    exact string
  have enough : pieces.length ≤ size := by
    have most := length_pieces_le pieces
    rw [format] at most
    omega
  obtain ⟨out, rendering, printed⟩ := @printRounds_render call size
    { buf := 0, esp := 0, printed := [] } pieces origin (Nat.zero_lt_of_lt fits) size enough
  rw [printf, printed, renders call _ _ rendering]
  rfl

def blanks (x y : Nat) : Text UInt8 where
  above := List.replicate y []
  row := List.replicate x 32

theorem cell_blanks (x y row column : Nat) : (blanks x y).cell 32 row column = 32 := by
  have blank : ∀ cells ∈ (blanks x y).rows, ∀ c ∈ cells, c = 32 := by
    intro cells listed c member
    rcases List.mem_append.mp listed with above | last
    · rw [List.eq_of_mem_replicate above] at member
      cases member
    · rw [List.mem_singleton.mp last] at member
      exact List.eq_of_mem_replicate member
  rw [Text.cell]
  cases found : (blanks x y).rows[row]? with
  | none => rfl
  | some cells =>
      rw [Option.getD_some]
      cases here : cells[column]? with
      | none => rfl
      | some c => exact blank cells (List.mem_of_getElem? found) c (List.mem_of_getElem? here)

theorem shows_blanks {x y : Nat} (column : console.screenX = x) (row : console.screenY = y) :
    Console.Shows (blanks x y) (clear console) where
  column := column.trans (congrArg Nat.cast (List.length_replicate ..).symm)
  row := row.trans (congrArg Nat.cast (List.length_replicate ..).symm)
  chars y' x' low short := by rw [cell_blanks, Console.charAt_clear (by omega)]
  attributes _ inside := Console.attributeAt_clear inside

def messageRows (x y : Nat) (message : List UInt8) : Text UInt8 :=
  (message.foldl (fun text c => text.put Console.breaksRow 80 c) (blanks x y)).window 25

theorem Exception.run_eq (literal : ∀ c ∈ exception.message, c ≠ 0 ∧ c ≠ 37) :
    exception.run console =
      puts exception.message (if exception.clears then clear console else console) := by
  have string : IsCString (textOf exception.message) exception.message :=
    Image.isCString_textOf fun c listed => (literal c listed).1
  rw [run, printf_message (fun c listed => (literal c listed).2) string (Nat.lt_succ_self _)]

theorem Exception.run_cleared {x y : Nat} (literal : ∀ c ∈ exception.message, c ≠ 0 ∧ c ≠ 37)
    (clears : exception.clears = true) (column : console.screenX = x) (row : console.screenY = y)
    (left : x < 80) (top : y < 25) :
    Console.Shows (messageRows x y exception.message) (exception.run console) := by
  rw [run_eq literal, if_pos clears]
  have start : Console.Shows ((blanks x y).window 25) (clear console) := by
    have whole : (blanks x y).window 25 = blanks x y := by
      have none : (blanks x y).rows.length - 25 = 0 := by
        rw [Text.length_rows]
        simp only [blanks, List.length_replicate]
        omega
      rw [Text.window, none]
      rfl
    rw [whole]
    exact shows_blanks column row
  exact start.puts (by simpa [blanks] using left)

/-! ### Exceptions of programs -/

theorem literal_message {handler : Handler} (known : handler.exception = some exception) :
    ∀ c ∈ exception.message, c ≠ 0 ∧ c ≠ 37 := by
  cases handler <;> cases known <;> decide +kernel

/-- What stops a program that goes wrong: an exception, or `int` with any number but that of the
system calls. -/
def Faulting (source : Source) (vector : Nat) : Prop :=
  source = .exception ∧ vector < 32 ∨ source = .software ∧ vector ≠ syscallIdt

section Delivery

variable {address : Handler → UInt32} {ldt tss : UInt32} {source : Source} {vector : Nat} {handler : Handler}

theorem exception_reached (faulting : Faulting source vector)
    (ok : reached (decide (source = .software)) 3 vector = .ok handler) :
    ∃ exception, handler.exception = some exception := by
  obtain ⟨desc, listed, -⟩ := reached_listed ok
  rcases faulting with ⟨-, low⟩ | ⟨rfl, other⟩
  · have all : ∀ entry ∈ assignments, entry.1 < 32 → entry.2.2.exception.isSome := by decide +kernel
    exact Option.isSome_iff_exists.mp (all _ listed low)
  · -- the gates of the exceptions are for the kernel only
    rw [reached] at ok
    split at ok
    · cases ok
    · rename_i desc' handler' found
      have closed : ∀ entry ∈ assignments, entry.1 ≠ syscallIdt → entry.2.1.dpl < 3 := by decide
      rw [decide_eq_true (closed _ (mem_assigned found) other)] at ok
      cases ok

/-- A program that faults enters a handler in the kernel with interrupts off. Wherever the cursor was, its
message is then all that the screen shows, unless it is a general protection. -/
theorem exceptions_reported (inside : vector < 256) (faulting : Faulting source vector) :
    ∃ served handler exception,
      deliver (bootTables address ldt tss) source 3 vector = .entered served (kernelEntry address handler) ∧
        handler.exception = some exception ∧ ∀ console : Console, console.OnScreen →
          (exception = .generalProtection ∧ exception.run console = puts exception.message console) ∨
            Console.Shows (messageRows console.screenX.toNat console.screenY.toNat exception.message)
              (exception.run console) := by
  obtain ⟨served, handler, exception, entered, known⟩ : ∃ served handler exception,
      deliver (bootTables address ldt tss) source 3 vector = .entered served (kernelEntry address handler) ∧
        handler.exception = some exception := by
    cases outcome : reached (decide (source = .software)) 3 vector with
    | ok handler =>
        obtain ⟨exception, known⟩ := exception_reached faulting outcome
        exact ⟨vector, handler, exception, deliver_ok inside outcome, known⟩
    | error which =>
        rw [deliver_error inside outcome]
        split
        · exact ⟨13, .generalProtection, _, rfl, rfl⟩
        · exact ⟨8, .doubleFault, _, rfl, rfl⟩
  refine ⟨served, handler, exception, entered, known, fun console onScreen => ?_⟩
  have literal := literal_message known
  obtain ⟨left, right, top, bottom⟩ := onScreen
  cases clears : exception.clears with
  | true =>
      right
      exact exception.run_cleared literal clears (by omega) (by omega) (by omega) (by omega)
  | false =>
      left
      have only : ∀ handler : Handler, ∀ exception ∈ handler.exception, exception.clears = false →
          exception = .generalProtection := by
        intro handler exception known clears
        cases handler <;> cases known <;> first | rfl | cases clears
      exact ⟨only handler exception known clears, by rw [Exception.run_eq literal, clears]; rfl⟩

theorem exceptions_reported_page :
    ∃ served handler exception,
      deliver (bootTables (fun _ => 0x401000) 0x402000 0x403000) .exception 3 14 =
          .entered served (kernelEntry (fun _ => 0x401000) handler) ∧
        handler.exception = some exception ∧ ∀ console : Console, console.OnScreen →
          (exception = .generalProtection ∧ exception.run console = puts exception.message console) ∨
            Console.Shows (messageRows console.screenX.toNat console.screenY.toNat exception.message)
              (exception.run console) :=
  exceptions_reported (by decide) (Or.inl ⟨rfl, by decide⟩)

end Delivery

end G29Os
