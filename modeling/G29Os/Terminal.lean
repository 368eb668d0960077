import G29Os.Console
import G29Os.Devices
import Mathlib.Algebra.GroupWithZero.Nat

/-!
The keyboard handler and the terminal driver of `terminal.c`, with the screen side of
`switch_terminal`. The terminal number is a `uint8_t` that only ever holds 0, 1 or 2.
-/

namespace G29Os

open BoundedLoop

abbrev TerminalId := Fin 3

instance TerminalId.neZero : NeZero 3 := ⟨by decide⟩

def lineBuffer : Nat := 128

def capsLock : UInt8 := 0x3A

def ctrl : UInt8 := 0x1D

def leftShift : UInt8 := 0x2A

def rightShift : UInt8 := 0x36

def alt : UInt8 := 0x38

def backspace : UInt8 := 0x0E

def enter : UInt8 := 0x1C

def space : UInt8 := 0x39

def f1 : UInt8 := 0x3B

def f2 : UInt8 := 0x3C

def f3 : UInt8 := 0x3D

def keyL : UInt8 := 0x26

def keyReleasedMask : UInt8 := 0x80

/-- The statics of `terminal.c`, the screen, the back buffers `VBUFFER1` to `VBUFFER3`, the
interrupt controllers, and `curr_terminal`, which `terminal.c` reads through its getter. -/
structure Tty where
  currTerminal : TerminalId
  console : Console
  vbuffer : TerminalId → Int → UInt8
  pic : Pic
  shiftPressed : Bool
  ctrlPressed : Bool
  altPressed : Bool
  capsActivated : Bool
  keyboardRead : Bool
  bufOffset : UInt8
  startPosition : TerminalId → Position
  curBufferPosition : TerminalId → Nat
  curBufferSize : TerminalId → Nat
  keyLineBuffer : TerminalId → Nat → UInt8
  keyReadBuffer : TerminalId → Nat → UInt8

namespace Tty

def nul : Char := Char.ofNat 0

def lowercaseChar : List Char :=
  [nul, nul,
   '1', '2', '3', '4', '5', '6', '7', '8', '9', '0', '-', '=',
   nul, nul,
   'q', 'w', 'e', 'r', 't', 'y', 'u', 'i', 'o', 'p', '[', ']',
   nul, nul,
   'a', 's', 'd', 'f', 'g', 'h', 'j', 'k', 'l', ';', Char.ofNat 39, Char.ofNat 96,
   nul,
   Char.ofNat 92,
   'z', 'x', 'c', 'v', 'b', 'n', 'm', ',', '.', '/',
   nul, nul, nul,
   ' ',
   nul, nul, nul, nul, nul, nul]

def uppercaseChar : List Char :=
  [nul, nul,
   '!', '@', '#', '$', '%', '^', '&', '*', '(', ')', '_', '+',
   nul, nul,
   'Q', 'W', 'E', 'R', 'T', 'Y', 'U', 'I', 'O', 'P', Char.ofNat 123, Char.ofNat 125,
   nul, nul,
   'A', 'S', 'D', 'F', 'G', 'H', 'J', 'K', 'L', ':', Char.ofNat 34, '~',
   nul,
   '|',
   'Z', 'X', 'C', 'V', 'B', 'N', 'M', '<', '>', '?',
   nul, nul, nul,
   ' ',
   nul, nul, nul, nul, nul, nul]

def capsChar : List Char :=
  [nul, nul,
   '1', '2', '3', '4', '5', '6', '7', '8', '9', '0', '-', '=',
   nul, nul,
   'Q', 'W', 'E', 'R', 'T', 'Y', 'U', 'I', 'O', 'P', '[', ']',
   nul, nul,
   'A', 'S', 'D', 'F', 'G', 'H', 'J', 'K', 'L', ';', Char.ofNat 39, Char.ofNat 96,
   nul,
   Char.ofNat 92,
   'Z', 'X', 'C', 'V', 'B', 'N', 'M', ',', '.', '/',
   nul, nul, nul,
   ' ',
   nul, nul, nul, nul, nul, nul]

def capsShiftChar : List Char :=
  [nul, nul,
   '!', '@', '#', '$', '%', '^', '&', '*', '(', ')', '_', '+',
   nul, nul,
   'q', 'w', 'e', 'r', 't', 'y', 'u', 'i', 'o', 'p', Char.ofNat 123, Char.ofNat 125,
   nul, nul,
   'a', 's', 'd', 'f', 'g', 'h', 'j', 'k', 'l', ':', Char.ofNat 34, '~',
   nul,
   '|',
   'z', 'x', 'c', 'v', 'b', 'n', 'm', '<', '>', '?',
   nul, nul, nul,
   ' ',
   nul, nul, nul, nul, nul, nul]

def mapConsole (change : Console → Console) (tty : Tty) : Tty :=
  { tty with console := change tty.console }

def mapPic (change : Pic → Pic) (tty : Tty) : Tty := { tty with pic := change tty.pic }

def setLine (terminal : TerminalId) (index : Nat) (c : UInt8) (tty : Tty) : Tty :=
  { tty with
    keyLineBuffer := Function.update tty.keyLineBuffer terminal
      (Function.update (tty.keyLineBuffer terminal) index c) }

def setStart (terminal : TerminalId) (position : Position) (tty : Tty) : Tty :=
  { tty with startPosition := Function.update tty.startPosition terminal position }

def setPosition (terminal : TerminalId) (position : Nat) (tty : Tty) : Tty :=
  { tty with curBufferPosition := Function.update tty.curBufferPosition terminal position }

def setSize (terminal : TerminalId) (size : Nat) (tty : Tty) : Tty :=
  { tty with curBufferSize := Function.update tty.curBufferSize terminal size }

def setReadBuffer (terminal : TerminalId) (buffer : Nat → UInt8) (tty : Tty) : Tty :=
  { tty with keyReadBuffer := Function.update tty.keyReadBuffer terminal buffer }

def setBufOffset (offset : UInt8) (tty : Tty) : Tty := { tty with bufOffset := offset }

def setKeyboardRead (flag : Bool) (tty : Tty) : Tty := { tty with keyboardRead := flag }

def printLineBuffer (offset : UInt8) (terminal : TerminalId) (tty : Tty) : Tty :=
  let start := tty.startPosition tty.currTerminal
  let line := cString (lineBuffer - offset.toNat)
    (fun index => tty.keyLineBuffer terminal (offset.toNat + index))
  tty.mapConsole fun console =>
    puts line (setNewPosition start.xCoord.toNat start.yCoord.toNat console)

def clearLine (terminal : TerminalId) : Nat → Tty → Tty
  | 0, tty => tty
  | count + 1, tty => setLine terminal count 0 (clearLine terminal count tty)

def clearBuffer (tty : Tty) : Tty :=
  setSize tty.currTerminal 0 (setPosition tty.currTerminal 0
    (clearLine tty.currTerminal lineBuffer tty))

def strncpy (dest src : Nat → UInt8) (n : Nat) : Nat → UInt8 :=
  let length := (cString n src).length
  fun index => if index < length then src index else if index < n then 0 else dest index

def endLine (terminal : TerminalId) (tty : Tty) : Tty :=
  let tty := setLine terminal (tty.curBufferSize terminal) 10 tty
  let tty := printLineBuffer tty.bufOffset terminal tty
  setStart tty.currTerminal (getCurPosition tty.console) tty

def copyLine (terminal : TerminalId) (tty : Tty) : Tty :=
  setReadBuffer terminal
    (strncpy (tty.keyReadBuffer terminal) (tty.keyLineBuffer terminal) lineBuffer) tty

def doEnter (terminal : TerminalId) (tty : Tty) : Tty :=
  setBufOffset 0 (setKeyboardRead true (clearBuffer (copyLine terminal (endLine terminal tty))))

def shiftLeft (terminal : TerminalId) : Nat → Nat → Tty → Tty
  | 0, _, tty => tty
  | count + 1, index, tty =>
      shiftLeft terminal count (index + 1)
        (setLine terminal index (tty.keyLineBuffer terminal (index + 1)) tty)

def dropCounts (terminal : TerminalId) (tty : Tty) : Tty :=
  setSize terminal (tty.curBufferSize terminal - 1)
    (setPosition terminal (tty.curBufferPosition terminal - 1) tty)

def unwrapsRow (terminal : TerminalId) (tty : Tty) : Prop :=
  tty.curBufferPosition terminal = 79

instance (terminal : TerminalId) (tty : Tty) : Decidable (unwrapsRow terminal tty) :=
  inferInstanceAs (Decidable (_ = _))

def unwrapStart (terminal : TerminalId) (tty : Tty) : Tty :=
  let start := tty.startPosition tty.currTerminal
  if unwrapsRow terminal tty then
    setBufOffset 0 (setStart tty.currTerminal { start with yCoord := start.yCoord - 1 } tty)
  else tty

def closeGap (terminal : TerminalId) (tty : Tty) : Tty :=
  let position := tty.curBufferPosition terminal
  shiftLeft terminal (tty.curBufferSize terminal + 2 - position) position tty

def doBackspace (terminal : TerminalId) (tty : Tty) : Tty :=
  if tty.curBufferPosition terminal > 0 then
    let previous := getCurPosition tty.console
    let tty := dropCounts terminal tty
    let previous : Position :=
      if unwrapsRow terminal tty then { xCoord := 79, yCoord := previous.yCoord - 1 } else previous
    let tty := closeGap terminal (unwrapStart terminal tty)
    let tty := (printLineBuffer tty.bufOffset terminal tty).mapConsole (putc 32)
    if previous.xCoord > 0 then
      tty.mapConsole (setNewPosition (previous.xCoord.toNat - 1) previous.yCoord.toNat)
    else tty.mapConsole (setNewPosition (numCols - 1) (previous.yCoord.toNat - 1))
  else tty

def shiftRight (terminal : TerminalId) (position : Nat) : Nat → Tty → Tty
  | 0, tty => tty
  | count + 1, tty =>
      shiftRight terminal position count
        (setLine terminal (position + count + 1) (tty.keyLineBuffer terminal (position + count)) tty)

def insertChar (terminal : TerminalId) (c : UInt8) (tty : Tty) : Tty :=
  let position := tty.curBufferPosition terminal
  let size := tty.curBufferSize terminal
  let tty := setLine terminal position c (shiftRight terminal position (size - position) tty)
  setSize terminal (size + 1) (setPosition terminal (position + 1) tty)

def advanceCursor (terminal : TerminalId) (current : Position) (tty : Tty) : Tty :=
  if (current.xCoord.toNat : Int) + 1 < numCols then
    tty.mapConsole (setNewPosition (current.xCoord.toNat + 1) current.yCoord.toNat)
  else
    let start : Position := { xCoord := 0, yCoord := (tty.startPosition terminal).yCoord + 1 }
    setBufOffset 73
      ((setStart terminal start tty).mapConsole (setNewPosition start.xCoord.toNat start.yCoord.toNat))

def keyboardAbstraction (terminal : TerminalId) (charArray : List Char) (scanword : UInt8)
    (current : Position) (tty : Tty) : Tty :=
  let c := UInt8.ofNat (charArray.getD scanword.toNat nul).toNat
  if c ≠ 0 then
    let tty := insertChar terminal c tty
    advanceCursor terminal current (printLineBuffer tty.bufOffset terminal tty)
  else tty

def writeByte (terminal : TerminalId) (tty : Tty) (c : UInt8) : Tty :=
  let tty := tty.mapConsole (putc c)
  let start := tty.startPosition terminal
  let moved : Position := { start with xCoord := start.xCoord + 1 }
  if moved.xCoord = 80 ∨ c = 10 then
    let row := moved.yCoord + 1
    setStart terminal { xCoord := 0, yCoord := if row ≥ 25 then 24 else row } tty
  else setStart terminal moved tty

/-- `terminal_write` of `nbytes` bytes; it returns their number plus one. -/
def terminalWrite (bytes : List UInt8) (tty : Tty) : Tty :=
  bytes.foldl (writeByte tty.currTerminal) tty

def pressKey (terminal : TerminalId) (code : UInt8) (tty : Tty) : Tty :=
  if code = rightShift ∨ code = leftShift then { tty with shiftPressed := true }
  else if code = ctrl then { tty with ctrlPressed := true }
  else if code = capsLock then { tty with capsActivated := !tty.capsActivated }
  else if code = alt then { tty with altPressed := true }
  else if code = backspace then doBackspace terminal tty
  else if code = enter then doEnter terminal tty
  else tty

def releaseKey (code : UInt8) (tty : Tty) : Tty :=
  if code = code ||| keyReleasedMask then
    let key := code &&& ~~~keyReleasedMask
    if key = ctrl ∧ tty.ctrlPressed then { tty with ctrlPressed := false }
    else if (key = rightShift ∨ key = leftShift) ∧ tty.shiftPressed then
      { tty with shiftPressed := false }
    else if key = alt ∧ tty.altPressed then { tty with altPressed := false }
    else tty
  else tty

def clearScreen (terminal : TerminalId) (tty : Tty) : Tty :=
  let tty := tty.mapConsole fun console => setNewPosition 0 0 (clear console)
  let tty := terminalWrite (ascii ['3', '9', '1', 'O', 'S', '>', ' ']) tty
  let tty := setStart terminal { xCoord := 7, yCoord := 0 } tty
  let tty := printLineBuffer 0 terminal tty
  if tty.bufOffset ≠ 0 then setStart terminal { xCoord := 0, yCoord := 1 } tty else tty

def chosenTable (tty : Tty) : List Char :=
  if !tty.shiftPressed && !tty.capsActivated && !tty.ctrlPressed then lowercaseChar
  else if tty.shiftPressed && tty.capsActivated then capsShiftChar
  else if tty.capsActivated then capsChar
  else uppercaseChar

def typeKey (terminal : TerminalId) (code : UInt8) (current : Position) (tty : Tty) : Tty :=
  if code ≤ space then
    let tty := if tty.curBufferSize terminal = 0 then setStart terminal current tty else tty
    keyboardAbstraction terminal tty.chosenTable code current tty
  else tty

/-- The terminal that `update_and_switch` asks for, if its argument is F1, F2 or F3. -/
def switchTarget (code : UInt8) : Option TerminalId :=
  if code = f1 then some 0 else if code = f2 then some 1 else if code = f3 then some 2 else none

def finishKey (tty : Tty) : Tty := tty.mapPic fun pic => enableIrq keyboardIrq (sendEoi keyboardIrq pic)

/-- The handler comes back through its last lines, or leaves for good through
`switch_terminal(target, regs)` with the state it had at that call. -/
inductive KeyOutcome where
  | returned (tty : Tty)
  | switched (target : TerminalId) (tty : Tty)

def stay (current : Position) (tty : Tty) : Tty :=
  if tty.curBufferSize tty.currTerminal = 0 then setStart tty.currTerminal current tty else tty

def heldKeys (code : UInt8) (tty : Tty) : Tty :=
  releaseKey code (pressKey tty.currTerminal code (tty.mapPic (disableIrq keyboardIrq)))

def keyboardHandler (code : UInt8) (tty : Tty) : KeyOutcome :=
  let terminal := tty.currTerminal
  let current := getCurPosition tty.console
  let tty := heldKeys code tty
  if tty.altPressed then
    match switchTarget code with
    | some target =>
        let start := tty.startPosition target
        let tty := tty.mapConsole (setNewPosition start.xCoord.toNat start.yCoord.toNat)
        if target = terminal then .returned (finishKey (stay current tty)) else .switched target tty
    | none => .returned (finishKey (stay current tty))
  else if tty.ctrlPressed ∧ code = keyL then .returned (finishKey (clearScreen terminal tty))
  else if ¬tty.curBufferSize terminal ≥ lineBuffer - 2 then
    .returned (finishKey (typeKey terminal code current tty))
  else .returned (finishKey tty)

def vidmemSize : Int := 4000

/-- `switch_terminal` up to its call of `start_shell` or `reload_program`, and the
`enable_irq` that both of those issue. -/
def switchScreen (target : TerminalId) (tty : Tty) : Tty :=
  let copied (src dest : Int → UInt8) : Int → UInt8 :=
    fun address => if 0 ≤ address ∧ address < vidmemSize then src address else dest address
  let vbuffer := Function.update tty.vbuffer tty.currTerminal
    (copied tty.console.videoMem (tty.vbuffer tty.currTerminal))
  let videoMem := copied (vbuffer target) tty.console.videoMem
  let poked (address : Int) : UInt8 :=
    if 0 ≤ address ∧ address < 2 * (numRows * numCols) ∧ address % 2 = 1 then attrib
    else videoMem address
  { tty with
    currTerminal := target
    vbuffer := vbuffer
    console := { tty.console with videoMem := poked }
    pic := enableIrq keyboardIrq (sendEoi keyboardIrq tty.pic) }

/-- Where `terminal_read` stands between two of its memory accesses; interrupts are enabled
from its wait loop on, so a key can fall at each of these points. -/
inductive ReadStage where
  | waiting
  | testing
  | moving
  | clearing (index : Nat)
  | clearingPosition
  | clearingSize
  | releasing
  deriving DecidableEq

/-- The arguments and locals of a `terminal_read`; `bytes_received` and `i` are both the
number of bytes moved. -/
structure ReadCall where
  nbytes : Int
  moved : List UInt8
  stage : ReadStage
  deriving DecidableEq

def ReadCall.start (nbytes : Int) : ReadCall := { nbytes := nbytes, moved := [], stage := .waiting }

inductive ReadOutcome where
  | running (call : ReadCall) (tty : Tty)
  | finished (bytes : List UInt8) (tty : Tty)

def ReadOutcome.tty : ReadOutcome → Tty
  | .running _ tty => tty
  | .finished _ tty => tty

def readStep (terminal : TerminalId) (call : ReadCall) (tty : Tty) : ReadOutcome :=
  match call.stage with
  | .waiting =>
      if tty.keyboardRead then .running { call with stage := .testing } tty else .running call tty
  | .testing =>
      if tty.keyReadBuffer terminal call.moved.length ≠ 0 ∧ (call.moved.length : Int) < call.nbytes then
        .running { call with stage := .moving } tty
      else .running { call with stage := .clearing 0 } tty
  | .moving =>
      let byte := tty.keyReadBuffer terminal call.moved.length
      .running { call with moved := call.moved ++ [byte], stage := .testing } tty
  | .clearing index =>
      if index < lineBuffer then
        .running { call with stage := .clearing (index + 1) } (setLine terminal index 0 tty)
      else .running { call with stage := .clearingPosition } tty
  | .clearingPosition => .running { call with stage := .clearingSize } (setPosition terminal 0 tty)
  | .clearingSize => .running { call with stage := .releasing } (setSize terminal 0 tty)
  | .releasing => .finished call.moved (setKeyboardRead false tty)

/-- The counters of the foreground line leave every access of the key handler inside the
row of `key_line_buffer`, and no `uint32_t` counter wraps. -/
def InRange (tty : Tty) : Prop :=
  tty.curBufferPosition tty.currTerminal ≤ 126 ∧ tty.curBufferSize tty.currTerminal ≤ 126 ∧
    (0 < tty.curBufferPosition tty.currTerminal → 0 < tty.curBufferSize tty.currTerminal)

end Tty

end G29Os
