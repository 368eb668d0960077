import G29Os.KeyboardRefinement
import G29Os.StepRun

/-!
The terminals as a machine: keyboard interrupts interleaved with the steps of the
`terminal_read` calls of the foreground programs. A key outside `KeyInRow`, which would
write outside its row or wrap its counter, has no successor.
-/

namespace G29Os

open StepRun

structure ReadReply where
  nbytes : Int
  bytes : List UInt8
  deriving DecidableEq

/-- `entered`, `returned` and `leftFlag` are history: the lines completed by ENTER, the reads
that came back, and `keyboard_read` when a terminal was last left. -/
structure InputState where
  tty : Tty
  readers : TerminalId → Option Tty.ReadCall
  entered : TerminalId → List (List UInt8)
  returned : TerminalId → List ReadReply
  leftFlag : TerminalId → Bool

def Tty.booted (console : Console) (vbuffer : TerminalId → Int → UInt8) (pic : Pic) : Tty where
  currTerminal := 0
  console := console
  vbuffer := vbuffer
  pic := pic
  shiftPressed := false
  ctrlPressed := false
  altPressed := false
  capsActivated := false
  keyboardRead := false
  bufOffset := 0
  startPosition _ := { xCoord := 0, yCoord := 0 }
  curBufferPosition _ := 0
  curBufferSize _ := 0
  keyLineBuffer _ _ := 0
  keyReadBuffer _ _ := 0

def InputState.booted (console : Console) (vbuffer : TerminalId → Int → UInt8) (pic : Pic) :
    InputState where
  tty := Tty.booted console vbuffer pic
  readers _ := none
  entered _ := []
  returned _ := []
  leftFlag _ := false

def blankInput : InputState :=
  InputState.booted { screenX := 0, screenY := 0, videoMem := fun _ => 0 } (fun _ _ => 0)
    { masterMask := 0, slaveMask := 0, masterCommands := [], slaveCommands := [] }

inductive InputEvent where
  | key (code : UInt8)
  | call (nbytes : Int)
  | step
  | write (bytes : List UInt8)
  | print (bytes : List UInt8)
  deriving DecidableEq

def LineState.typed (state : LineState) : List UInt8 := (List.range state.size).map state.line

namespace InputState

def current (state : InputState) : TerminalId := state.tty.currTerminal

def line (terminal : TerminalId) (state : InputState) : LineState := state.tty.lineState terminal

def typed (terminal : TerminalId) (state : InputState) : List UInt8 := (state.line terminal).typed

def pressed (code : UInt8) (state : InputState) : InputState :=
  let tty := state.tty.afterKey code
  let line := state.typed state.current ++ [10]
  { state with
    tty := tty
    entered := if code = enter then
        Function.update state.entered state.current (state.entered state.current ++ [line])
      else state.entered
    leftFlag := if tty.currTerminal = state.current then state.leftFlag
      else Function.update state.leftFlag state.current tty.keyboardRead }

def advanced (call : Tty.ReadCall) (state : InputState) : InputState :=
  match state.tty.readStep state.current call with
  | .running call tty =>
      { state with tty := tty, readers := Function.update state.readers state.current (some call) }
  | .finished bytes tty =>
      { state with
        tty := tty
        readers := Function.update state.readers state.current none
        returned := Function.update state.returned state.current
          (state.returned state.current ++ [{ nbytes := call.nbytes, bytes := bytes }]) }

section Effects

variable {terminal : TerminalId} {state : InputState}

theorem line_pressed {code : UInt8} (current : state.current = terminal) :
    (state.pressed code).line terminal =
      (state.line terminal).key (state.tty.modifiers.key code) code := by
  subst current
  exact (congrFun (Tty.lineState_afterKey code) state.current).trans (Function.update_self ..)

theorem line_pressed_other {code : UInt8} (other : state.current ≠ terminal) :
    (state.pressed code).line terminal = state.line terminal :=
  (congrFun (Tty.lineState_afterKey code) terminal).trans
    (Function.update_of_ne (Ne.symm other) ..)

theorem leftFlag_pressed {code : UInt8} :
    (state.pressed code).leftFlag =
      if (state.pressed code).current = state.current then state.leftFlag
      else Function.update state.leftFlag state.current (state.pressed code).tty.keyboardRead := rfl

theorem advanced_running {call call' : Tty.ReadCall} {tty' : Tty}
    (taken : state.tty.readStep state.current call = .running call' tty') :
    state.advanced call = { state with
      tty := tty'
      readers := Function.update state.readers state.current (some call') } := by
  simp only [advanced, taken]

theorem advanced_finished {call : Tty.ReadCall} {bytes : List UInt8} {tty' : Tty}
    (taken : state.tty.readStep state.current call = .finished bytes tty') :
    state.advanced call = { state with
      tty := tty'
      readers := Function.update state.readers state.current none
      returned := Function.update state.returned state.current
        (state.returned state.current ++ [{ nbytes := call.nbytes, bytes := bytes }]) } := by
  simp only [advanced, taken]

end Effects

end InputState

def inputStep (state : InputState) : InputEvent → Option InputState
  | .key code => if state.tty.KeyInRow code then some (state.pressed code) else none
  | .call nbytes =>
      match state.readers state.current with
      | some _ => none
      | none => some { state with
          readers := Function.update state.readers state.current (some (Tty.ReadCall.start nbytes)) }
  | .step => (state.readers state.current).map fun call => state.advanced call
  | .write bytes =>
      match state.readers state.current with
      | some _ => none
      | none => some { state with tty := state.tty.terminalWrite bytes }
  | .print bytes =>
      match state.readers state.current with
      | some _ => none
      | none => some { state with tty := state.tty.mapConsole (puts bytes) }

end G29Os
