import G29Os.Terminal

/-!
The keyboard side of the terminal driver without its screen: which line each terminal is
typing, which modifiers are down, and the `keyboard_read` flag. `afterKey` refines it.
-/

namespace G29Os

open BoundedLoop

structure Modifiers where
  shift : Bool
  ctrl : Bool
  alt : Bool
  caps : Bool
  deriving DecidableEq

/-- The buffers of one terminal: the line being typed and the last line entered. -/
structure LineState where
  position : Nat
  size : Nat
  line : Nat → UInt8
  readBuffer : Nat → UInt8

@[ext] structure Keyboard where
  current : TerminalId
  modifiers : Modifiers
  keyboardRead : Bool
  lines : TerminalId → LineState

namespace Modifiers

def press (code : UInt8) (modifiers : Modifiers) : Modifiers :=
  if code = rightShift ∨ code = leftShift then { modifiers with shift := true }
  else if code = G29Os.ctrl then { modifiers with ctrl := true }
  else if code = capsLock then { modifiers with caps := !modifiers.caps }
  else if code = G29Os.alt then { modifiers with alt := true }
  else modifiers

def release (code : UInt8) (modifiers : Modifiers) : Modifiers :=
  if code = code ||| keyReleasedMask then
    let key := code &&& ~~~keyReleasedMask
    if key = G29Os.ctrl ∧ modifiers.ctrl then { modifiers with ctrl := false }
    else if (key = rightShift ∨ key = leftShift) ∧ modifiers.shift then
      { modifiers with shift := false }
    else if key = G29Os.alt ∧ modifiers.alt then { modifiers with alt := false }
    else modifiers
  else modifiers

def key (code : UInt8) (modifiers : Modifiers) : Modifiers := release code (press code modifiers)

def table (modifiers : Modifiers) : List Char :=
  if !modifiers.shift && !modifiers.caps && !modifiers.ctrl then Tty.lowercaseChar
  else if modifiers.shift && modifiers.caps then Tty.capsShiftChar
  else if modifiers.caps then Tty.capsChar
  else Tty.uppercaseChar

end Modifiers

namespace LineState

def cleared (state : LineState) : LineState :=
  { state with
    position := 0
    size := 0
    line := fun index => if index < lineBuffer then 0 else state.line index }

def enter (state : LineState) : LineState :=
  { state.cleared with
    line := fun index => if index < lineBuffer then 0 else
      Function.update state.line state.size 10 index
    readBuffer := Tty.strncpy state.readBuffer (Function.update state.line state.size 10) lineBuffer }

def backspace (state : LineState) : LineState :=
  if state.position > 0 then
    { state with
      position := state.position - 1
      size := state.size - 1
      line := fun index =>
        if state.position - 1 ≤ index ∧ index ≤ state.size - 1 + 1 then state.line (index + 1)
        else state.line index }
  else state

def insert (c : UInt8) (state : LineState) : LineState :=
  { state with
    position := state.position + 1
    size := state.size + 1
    line := fun index =>
      if index = state.position then c
      else if state.position < index ∧ index ≤ state.size then state.line (index - 1)
      else state.line index }

def press (code : UInt8) (state : LineState) : LineState :=
  if code = G29Os.backspace then state.backspace
  else if code = G29Os.enter then state.enter
  else state

def type (modifiers : Modifiers) (code : UInt8) (state : LineState) : LineState :=
  if state.size ≥ lineBuffer - 2 then state
  else if code ≤ space then
    let c := UInt8.ofNat (modifiers.table.getD code.toNat Tty.nul).toNat
    if c ≠ 0 then state.insert c else state
  else state

/-- The effect of a key on the foreground line; `modifiers` are those after the key. -/
def key (modifiers : Modifiers) (code : UInt8) (state : LineState) : LineState :=
  if modifiers.alt then state.press code
  else if modifiers.ctrl ∧ code = keyL then state.press code
  else (state.press code).type modifiers code

def Types (modifiers : Modifiers) (code : UInt8) (state : LineState) : Prop :=
  modifiers.alt = false ∧ ¬(modifiers.ctrl = true ∧ code = keyL) ∧ state.size < lineBuffer - 2 ∧
    code ≤ space ∧ UInt8.ofNat (modifiers.table.getD code.toNat Tty.nul).toNat ≠ 0

/-- The stores of the key stay in the first 127 cells of the row, its reads in the row, and
`cur_buffer_size` does not go below zero. -/
structure KeyInRow (modifiers : Modifiers) (code : UInt8) (state : LineState) : Prop where
  backspace : code = G29Os.backspace → state.position = 0 ∨ 0 < state.size ∧ state.size < lineBuffer - 1
  enter : code = G29Os.enter → state.size < lineBuffer - 1
  letter : state.Types modifiers code → state.position < lineBuffer - 1

instance (modifiers : Modifiers) (code : UInt8) (state : LineState) :
    Decidable (state.Types modifiers code) :=
  inferInstanceAs (Decidable (_ ∧ _))

instance (modifiers : Modifiers) (code : UInt8) (state : LineState) :
    Decidable (state.KeyInRow modifiers code) :=
  decidable_of_iff ((code = G29Os.backspace → state.position = 0 ∨ 0 < state.size ∧ state.size < lineBuffer - 1) ∧
    (code = G29Os.enter → state.size < lineBuffer - 1) ∧
    (state.Types modifiers code → state.position < lineBuffer - 1))
    ⟨fun ⟨backspace, enter, letter⟩ => ⟨backspace, enter, letter⟩,
      fun inRow => ⟨inRow.backspace, inRow.enter, inRow.letter⟩⟩

end LineState

namespace Keyboard

def changeLine (terminal : TerminalId) (change : LineState → LineState) (keyboard : Keyboard) :
    Keyboard :=
  { keyboard with
    lines := Function.update keyboard.lines terminal (change (keyboard.lines terminal)) }

@[simp] theorem changeLine_changeLine (terminal : TerminalId) (first second : LineState → LineState)
    (keyboard : Keyboard) :
    (keyboard.changeLine terminal first).changeLine terminal second =
      keyboard.changeLine terminal (fun state => second (first state)) := by
  simp [changeLine]

theorem changeLine_self {terminal : TerminalId} {change : LineState → LineState}
    {keyboard : Keyboard} (unmoved : change (keyboard.lines terminal) = keyboard.lines terminal) :
    keyboard.changeLine terminal change = keyboard := by
  simp [changeLine, unmoved]

theorem changeLine_congr {terminal : TerminalId} {first second : LineState → LineState}
    {keyboard : Keyboard} (same : first (keyboard.lines terminal) = second (keyboard.lines terminal)) :
    keyboard.changeLine terminal first = keyboard.changeLine terminal second := by
  simp [changeLine, same]

/-- The whole of a key: line, modifiers, flag, and the terminal an Alt-Fn asks for. -/
def key (code : UInt8) (keyboard : Keyboard) : Keyboard :=
  let modifiers := keyboard.modifiers.key code
  { keyboard.changeLine keyboard.current (LineState.key modifiers code) with
    modifiers := modifiers
    keyboardRead := keyboard.keyboardRead || decide (code = enter)
    current := if modifiers.alt then (Tty.switchTarget code).getD keyboard.current
      else keyboard.current }

end Keyboard

namespace Tty

def modifiers (tty : Tty) : Modifiers where
  shift := tty.shiftPressed
  ctrl := tty.ctrlPressed
  alt := tty.altPressed
  caps := tty.capsActivated

def lineState (tty : Tty) (terminal : TerminalId) : LineState where
  position := tty.curBufferPosition terminal
  size := tty.curBufferSize terminal
  line := tty.keyLineBuffer terminal
  readBuffer := tty.keyReadBuffer terminal

def keyboard (tty : Tty) : Keyboard where
  current := tty.currTerminal
  modifiers := tty.modifiers
  keyboardRead := tty.keyboardRead
  lines := tty.lineState

def KeyInRow (code : UInt8) (tty : Tty) : Prop :=
  (tty.lineState tty.currTerminal).KeyInRow (tty.modifiers.key code) code

instance (code : UInt8) (tty : Tty) : Decidable (tty.KeyInRow code) :=
  inferInstanceAs (Decidable (LineState.KeyInRow ..))

theorem InRange.keyInRow {tty : Tty} {code : UInt8} (inRange : tty.InRange) : tty.KeyInRow code := by
  obtain ⟨position, size, typed⟩ := inRange
  have small : (tty.lineState tty.currTerminal).size < lineBuffer - 1 := Nat.lt_succ_of_le size
  refine ⟨fun _ => ?_, fun _ => small, fun _ => Nat.lt_succ_of_le position⟩
  rcases Nat.eq_zero_or_pos (tty.lineState tty.currTerminal).position with zero | some
  · exact Or.inl zero
  · exact Or.inr ⟨typed some, small⟩

def afterKey (code : UInt8) (tty : Tty) : Tty :=
  match keyboardHandler code tty with
  | .returned next => next
  | .switched target next => switchScreen target next

section LineLoops

variable {terminal : TerminalId} {tty : Tty}

def setLineBuffer (terminal : TerminalId) (line : Nat → UInt8) (tty : Tty) : Tty :=
  { tty with keyLineBuffer := Function.update tty.keyLineBuffer terminal line }

theorem setLine_eq (index : Nat) (c : UInt8) :
    setLine terminal index c tty =
      setLineBuffer terminal (Function.update (tty.keyLineBuffer terminal) index c) tty := rfl

@[simp] theorem setLineBuffer_line (line : Nat → UInt8) :
    (setLineBuffer terminal line tty).keyLineBuffer terminal = line := by
  simp [setLineBuffer]

@[simp] theorem setLineBuffer_setLineBuffer (first second : Nat → UInt8) :
    setLineBuffer terminal second (setLineBuffer terminal first tty) =
      setLineBuffer terminal second tty := by
  simp [setLineBuffer]

@[simp] theorem setLineBuffer_self :
    setLineBuffer terminal (tty.keyLineBuffer terminal) tty = tty := by
  simp [setLineBuffer]

theorem clearLine_eq (count : Nat) :
    clearLine terminal count tty =
      setLineBuffer terminal
        (fun index => if index < count then 0 else tty.keyLineBuffer terminal index) tty := by
  induction count with
  | zero => simp [clearLine]
  | succ count ih =>
      rw [clearLine, ih, setLine_eq, setLineBuffer_setLineBuffer, setLineBuffer_line]
      congr 1
      funext index
      rcases Nat.lt_trichotomy index count with below | same | above
      · simp [Function.update_of_ne (Nat.ne_of_lt below), below, Nat.lt_succ_of_lt below]
      · simp [same]
      · have other : index ≠ count := by omega
        have beyond : ¬index < count := by omega
        have beyond' : ¬index < count + 1 := by omega
        simp [Function.update_of_ne other, beyond, beyond']

theorem shiftLeft_eq (count index : Nat) :
    shiftLeft terminal count index tty =
      setLineBuffer terminal
        (fun at_ => if index ≤ at_ ∧ at_ < index + count then tty.keyLineBuffer terminal (at_ + 1)
          else tty.keyLineBuffer terminal at_) tty := by
  induction count generalizing index tty with
  | zero =>
      have empty (at_ : Nat) : ¬(index ≤ at_ ∧ at_ < index) := by omega
      simp [shiftLeft, empty]
  | succ count ih =>
      rw [shiftLeft, ih, setLine_eq, setLineBuffer_setLineBuffer, setLineBuffer_line]
      congr 1
      funext at_
      rcases Nat.lt_trichotomy at_ index with below | same | above
      · have early : ¬index + 1 ≤ at_ := by omega
        have early' : ¬index ≤ at_ := by omega
        simp [early, early', Function.update_of_ne (Nat.ne_of_lt below)]
      · simp [same]
      · have other : at_ ≠ index := by omega
        have next : at_ + 1 ≠ index := by omega
        simp only [Function.update_of_ne other, Function.update_of_ne next]
        congr 1
        simp only [eq_iff_iff]
        omega

theorem shiftRight_eq (position count : Nat) :
    shiftRight terminal position count tty =
      setLineBuffer terminal
        (fun at_ => if position < at_ ∧ at_ ≤ position + count then
          tty.keyLineBuffer terminal (at_ - 1) else tty.keyLineBuffer terminal at_) tty := by
  induction count generalizing tty with
  | zero =>
      have empty (at_ : Nat) : ¬(position < at_ ∧ at_ ≤ position) := by omega
      simp [shiftRight, empty]
  | succ count ih =>
      rw [shiftRight, ih, setLine_eq, setLineBuffer_setLineBuffer, setLineBuffer_line]
      congr 1
      funext at_
      rcases Nat.lt_trichotomy at_ (position + count + 1) with below | same | above
      · have other : at_ ≠ position + count + 1 := by omega
        have previous : at_ - 1 ≠ position + count + 1 := by omega
        simp only [Function.update_of_ne other, Function.update_of_ne previous]
        congr 1
        simp only [eq_iff_iff]
        omega
      · have past : ¬(position < at_ ∧ at_ ≤ position + count) := by omega
        have covered : position < at_ ∧ at_ ≤ position + (count + 1) := by omega
        rw [if_neg past, if_pos covered, same, Function.update_self, Nat.add_sub_cancel]
      · have other : at_ ≠ position + count + 1 := by omega
        have late : ¬at_ ≤ position + count := by omega
        have late' : ¬at_ ≤ position + (count + 1) := by omega
        simp [Function.update_of_ne other, late, late']

end LineLoops

end Tty

end G29Os
