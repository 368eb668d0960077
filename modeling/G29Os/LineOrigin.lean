import G29Os.CursorMoves
import G29Os.LineDisplay

/-!
The origin of the line being typed, which the driver keeps in `start_position`, beside the
cursor: the events that move them, when they agree, and what every event keeps.
-/

namespace G29Os

open Console StepRun

namespace Tty

variable {tty next last : Tty} {cur : TerminalId} {position : Position} {code c : UInt8}
  {bytes : List UInt8}

inductive LineEvent where
  | key (code : UInt8)
  | write (buf : List UInt8)

def lineStep (tty : Tty) : LineEvent → Option Tty
  | .key code => tty.keyStep code
  | .write buf => some (tty.terminalWrite buf)

def AtCursor (tty : Tty) : Prop :=
  ((tty.startPosition tty.currTerminal).xCoord.toNat : Int) = tty.console.screenX ∧
    ((tty.startPosition tty.currTerminal).yCoord.toNat : Int) = tty.console.screenY

def Tracks (tty : Tty) : Prop := tty.curBufferSize tty.currTerminal = 0 → tty.AtCursor

structure FreshLine (tty : Tty) : Prop where
  origin : tty.startPosition tty.currTerminal = { xCoord := 0, yCoord := 0 }
  column : tty.console.screenX = 0
  row : tty.console.screenY = 0
  position : tty.curBufferPosition tty.currTerminal = 0
  size : tty.curBufferSize tty.currTerminal = 0
  blank : ∀ index, index < lineBuffer → tty.keyLineBuffer tty.currTerminal index = 0

/-! ### The condition -/

def Clears (code : UInt8) (tty : Tty) : Prop :=
  ¬(tty.modifiers.key code).alt = true ∧ (tty.modifiers.key code).ctrl = true ∧ code = keyL

/-- Where a line ends that ENTER prints: its characters from `buf_offset` on and a newline,
from `start_position` on. With `buf_offset` behind the newline nothing is printed. -/
def enterEnd (tty : Tty) : Int × Int :=
  let start := tty.startPosition tty.currTerminal
  let size := tty.curBufferSize tty.currTerminal
  let offset := tty.bufOffset.toNat
  if offset ≤ size then
    (0, min (start.yCoord.toNat + (start.xCoord.toNat + (size - offset)) / 80 + 1 : Nat) 24)
  else (start.xCoord.toNat, min start.yCoord.toNat 24)

def ReturnsAtEdge : Int → List UInt8 → Prop
  | _, [] => True
  | column, c :: bytes =>
      (c = 13 → column = 79) ∧
        ReturnsAtEdge (if c = 10 ∨ c = 13 ∨ column = 79 then 0 else column + 1) bytes

def Keeps (tty : Tty) : LineEvent → Prop
  | .key code =>
      (code = backspace → tty.curBufferSize tty.currTerminal ≠ 1) ∧
        (code = enter → (tty.console.screenX, tty.console.screenY) = tty.enterEnd) ∧
          (Clears code tty → tty.curBufferSize tty.currTerminal = 0 → tty.bufOffset = 0)
  | .write buf =>
      tty.curBufferSize tty.currTerminal = 0 → ReturnsAtEdge tty.console.screenX buf

/-! ### What every event keeps -/

theorem doEnter_screen : (doEnter tty.currTerminal tty).console = (endLine tty.currTerminal tty).console ∧
    (doEnter tty.currTerminal tty).startPosition = (endLine tty.currTerminal tty).startPosition ∧
      (doEnter tty.currTerminal tty).currTerminal = (endLine tty.currTerminal tty).currTerminal := by
  rw [doEnter, clearBuffer, clearLine_eq]
  exact ⟨rfl, rfl, rfl⟩

theorem keyStep_returned (done : tty.keyStep code = some next) :
    tty.keyboardHandler code = .returned next := by
  rw [keyStep] at done
  cases outcome : tty.keyboardHandler code with
  | returned after =>
      rw [outcome] at done
      exact congrArg KeyOutcome.returned (Option.some.inj done)
  | switched target after =>
      rw [outcome] at done
      cases done

def promptLine (terminal : TerminalId) (tty : Tty) : Tty :=
  let tty := printLineBuffer 0 terminal (setStart terminal { xCoord := 7, yCoord := 0 } tty)
  if tty.bufOffset ≠ 0 then setStart terminal { xCoord := 0, yCoord := 1 } tty else tty

theorem clearScreen_eq : clearScreen cur tty = promptLine cur
    (terminalWrite (ascii ['3', '9', '1', 'O', 'S', '>', ' '])
      (tty.mapConsole fun console => setNewPosition 0 0 (clear console))) := by
  rw [clearScreen, promptLine]

theorem toNat_succ (low : c.toNat < 255) : (c + 1).toNat = c.toNat + 1 := by
  rw [UInt8.toNat_add, UInt8.toNat_one]
  omega

structure Placed (tty : Tty) : Prop where
  onScreen : OnScreen tty.console
  column : (tty.startPosition tty.currTerminal).xCoord.toNat < 80

namespace Placed

theorem moved (placed : Placed tty) (console : next.console = tty.console)
    (start : next.startPosition = tty.startPosition) (current : next.currTerminal = tty.currTerminal) :
    Placed next where
  onScreen := console ▸ placed.onScreen
  column := by
    rw [start, current]
    exact placed.column

theorem same (placed : Placed tty) (same : SameScreen tty next) : Placed next :=
  placed.moved same.console same.start same.current

theorem setStart (placed : Placed tty) (here : tty.currTerminal = cur)
    (column : position.xCoord.toNat < 80) : Placed (setStart cur position tty) where
  onScreen := placed.onScreen
  column := by
    subst here
    change (Function.update tty.startPosition tty.currTerminal position tty.currTerminal).xCoord.toNat < 80
    rw [Function.update_self]
    exact column

theorem mapConsole {change : Console → Console} (placed : Placed tty)
    (onScreen : OnScreen (change tty.console)) : Placed (tty.mapConsole change) where
  onScreen := onScreen
  column := placed.column

theorem current (placed : Placed tty) : (getCurPosition tty.console).xCoord.toNat < 80 := by
  have column := (getCurPosition_onScreen placed.onScreen).1
  have right := placed.onScreen.right
  omega

theorem recallStart (placed : Placed tty) : Placed (recallStart tty.currTerminal tty) :=
  placed.mapConsole (setNewPosition_onScreen (Int.natCast_nonneg _)
    (Int.ofNat_lt.mpr placed.column) _)

theorem printLineBuffer (placed : Placed tty) (offset : UInt8) (terminal : TerminalId) :
    Placed (printLineBuffer offset terminal tty) where
  onScreen := puts_onScreen placed.recallStart.onScreen _
  column := placed.column

theorem endLine (placed : Placed tty) : Placed (endLine tty.currTerminal tty) := by
  have ended : Placed (setLine tty.currTerminal (tty.curBufferSize tty.currTerminal) 10 tty) :=
    placed.same (SameScreen.setLineBuffer _)
  have printed := ended.printLineBuffer tty.bufOffset tty.currTerminal
  exact printed.setStart rfl printed.current

theorem doEnter (placed : Placed tty) : Placed (doEnter tty.currTerminal tty) :=
  placed.endLine.moved doEnter_screen.1 doEnter_screen.2.1 doEnter_screen.2.2

theorem unwrapStart (placed : Placed tty) : Placed (unwrapStart tty.currTerminal tty) := by
  rw [Tty.unwrapStart]
  split
  · have raised := @setStart tty tty.currTerminal
      { tty.startPosition tty.currTerminal with
        yCoord := (tty.startPosition tty.currTerminal).yCoord - 1 } placed rfl placed.column
    exact raised.moved rfl rfl rfl
  · exact placed

theorem doBackspace (placed : Placed tty) : Placed (doBackspace tty.currTerminal tty) := by
  rw [Tty.doBackspace]
  split
  · have dropped : Placed (dropCounts tty.currTerminal tty) := placed.same SameScreen.dropCounts
    have unwrapped : Placed (Tty.unwrapStart tty.currTerminal (dropCounts tty.currTerminal tty)) :=
      dropped.unwrapStart
    have closed := unwrapped.same (@SameScreen.closeGap tty.currTerminal _)
    have column : (if unwrapsRow tty.currTerminal (dropCounts tty.currTerminal tty) then
        ({ xCoord := 79, yCoord := (getCurPosition tty.console).yCoord - 1 } : Position)
        else getCurPosition tty.console).xCoord.toNat < 80 := by
      split
      · exact (by decide : (79 : UInt8).toNat < 80)
      · exact placed.current
    dsimp only
    generalize closeGap tty.currTerminal _ = gap at closed ⊢
    generalize (if unwrapsRow tty.currTerminal (dropCounts tty.currTerminal tty) then
      ({ xCoord := 79, yCoord := (getCurPosition tty.console).yCoord - 1 } : Position)
      else getCurPosition tty.console) = previous at column ⊢
    have printed := closed.printLineBuffer gap.bufOffset tty.currTerminal
    have blanked := @mapConsole _ (putc 32) printed (putc_onScreen printed.onScreen)
    split
    · rename_i behind
      have right : 0 < previous.xCoord.toNat := UInt8.lt_iff_toNat_lt.mp behind
      exact blanked.mapConsole (setNewPosition_onScreen (by omega) (by omega) _)
    · exact blanked.mapConsole (setNewPosition_onScreen (by decide) (by decide) _)
  · exact placed

theorem heldKeys (placed : Placed tty) (code : UInt8) : Placed (heldKeys code tty) := by
  let masked := tty.mapPic (disableIrq keyboardIrq)
  have pressed : Placed (pressKey masked.currTerminal code masked) := by
    have before : Placed masked := placed.moved rfl rfl rfl
    by_cases ends : code = enter
    · subst ends
      exact before.doEnter
    · by_cases erases : code = backspace
      · subst erases
        exact before.doBackspace
      · rw [pressKey_eq ends erases]
        exact before.moved rfl rfl rfl
  rw [Tty.heldKeys, releaseKey_eq]
  exact pressed.moved rfl rfl rfl

theorem stay (placed : Placed tty) (column : position.xCoord.toNat < 80) :
    Placed (stay position tty) := by
  rw [Tty.stay]
  split
  · exact placed.setStart rfl column
  · exact placed

theorem advanceCursor (placed : Placed tty) (column : position.xCoord.toNat < 80) :
    Placed (advanceCursor tty.currTerminal position tty) := by
  rw [Tty.advanceCursor]
  split
  · rename_i room
    exact placed.mapConsole (setNewPosition_onScreen (by omega) room _)
  · have begun := @setStart tty tty.currTerminal
      { xCoord := 0, yCoord := (tty.startPosition tty.currTerminal).yCoord + 1 } placed rfl
      (by decide : (0 : UInt8).toNat < 80)
    have moved := begun.mapConsole (setNewPosition_onScreen (Int.le_refl 0) (by decide)
      (((tty.startPosition tty.currTerminal).yCoord + 1).toNat : Int))
    exact moved.moved rfl rfl rfl

theorem typeKey (placed : Placed tty) (column : position.xCoord.toNat < 80) :
    Placed (typeKey tty.currTerminal code position tty) := by
  have begun : Placed (tty.startLine position) := placed.stay column
  have front := (@startLine_eq tty position).1
  rw [typeKey_eq]
  split
  · split
    · have same := @SameScreen.insertChar (tty.startLine position).currTerminal (tty.startLine position)
        (tty.modifiers.character code)
      have typed := begun.same same
      rw [front] at same typed
      have printed := typed.printLineBuffer (insertChar tty.currTerminal
        (tty.modifiers.character code) (tty.startLine position)).bufOffset tty.currTerminal
      have here : (Tty.printLineBuffer (insertChar tty.currTerminal
          (tty.modifiers.character code) (tty.startLine position)).bufOffset tty.currTerminal
          (insertChar tty.currTerminal (tty.modifiers.character code)
            (tty.startLine position))).currTerminal = tty.currTerminal := same.current.trans front
      have advanced := printed.advanceCursor column
      rwa [here] at advanced
    · exact begun
  · exact placed

theorem writeByte (placed : Placed tty) (c : UInt8) : Placed (writeByte tty.currTerminal tty c) := by
  have printed := @mapConsole tty (putc c) placed (putc_onScreen placed.onScreen)
  have before := placed.column
  have column := @toNat_succ (tty.startPosition tty.currTerminal).xCoord (by omega)
  rw [Tty.writeByte]
  dsimp only
  split
  · exact printed.setStart rfl (by decide : (0 : UInt8).toNat < 80)
  · rename_i stays
    refine printed.setStart rfl (Nat.lt_of_le_of_ne (column ▸ before) fun last => stays (Or.inl ?_))
    exact UInt8.toNat_inj.mp last

theorem writeBytes (placed : Placed tty) (bytes : List UInt8) :
    Placed (bytes.foldl (Tty.writeByte tty.currTerminal) tty) := by
  induction bytes generalizing tty with
  | nil => exact placed
  | cons c bytes ih =>
      have here : (Tty.writeByte tty.currTerminal tty c).currTerminal = tty.currTerminal :=
        currTerminal_of_keyboard (keyboard_terminalWrite [c])
      have rest := ih (placed.writeByte c)
      rwa [here] at rest

theorem promptLine (placed : Placed tty) (here : tty.currTerminal = cur) :
    Placed (promptLine cur tty) := by
  have seventh : ({ xCoord := 7, yCoord := 0 } : Position).xCoord.toNat < 80 := by decide
  have second : ({ xCoord := 0, yCoord := 1 } : Position).xCoord.toNat < 80 := by decide
  have printed := (placed.setStart here seventh).printLineBuffer 0 cur
  rw [Tty.promptLine]
  split
  · exact printed.setStart here second
  · exact printed

theorem clearScreen (placed : Placed tty) : Placed (clearScreen tty.currTerminal tty) := by
  have blank := @mapConsole tty (fun console => setNewPosition 0 0 (clear console)) placed
    (setNewPosition_onScreen (Int.le_refl 0) (by decide) 0)
  have here : (terminalWrite (ascii ['3', '9', '1', 'O', 'S', '>', ' '])
      (tty.mapConsole fun console => setNewPosition 0 0 (clear console))).currTerminal =
      tty.currTerminal := currTerminal_of_keyboard (keyboard_terminalWrite _)
  have prompted := blank.writeBytes (ascii ['3', '9', '1', 'O', 'S', '>', ' '])
  rw [clearScreen_eq]
  exact prompted.promptLine here

theorem keyStep (placed : Placed tty) (done : tty.keyStep code = some next) : Placed next := by
  have finished {tty : Tty} (placed : Placed tty) : Placed tty.finishKey := placed.moved rfl rfl rfl
  have held := placed.heldKeys code
  have here : (Tty.heldKeys code tty).currTerminal = tty.currTerminal := currTerminal_heldKeys code
  have current := placed.current
  have handled := @keyboardHandler_handled tty code
  have returned := keyStep_returned done
  generalize tty.keyboardHandler code = outcome at handled returned
  cases handled with
  | held =>
      rw [← KeyOutcome.returned.inj returned]
      exact finished (held.stay current)
  | here =>
      have recalled := held.recallStart
      rw [here] at recalled
      rw [← KeyOutcome.returned.inj returned]
      exact finished (recalled.stay current)
  | switched => cases returned
  | clears =>
      have cleared := held.clearScreen
      rw [here] at cleared
      rw [← KeyOutcome.returned.inj returned]
      exact finished cleared
  | types =>
      have typed := @typeKey _ _ code held current
      rw [here] at typed
      rw [← KeyOutcome.returned.inj returned]
      exact finished typed
  | full =>
      rw [← KeyOutcome.returned.inj returned]
      exact finished held

end Placed

structure OriginOk (tty : Tty) : Prop extends Placed tty where
  line : LineOk (tty.lineState tty.currTerminal)
  printed : ∀ c ∈ tty.typedLine, ¬(c = 10 ∨ c = 13)

theorem lineState_keyStep (done : tty.keyStep code = some next) :
    next.lineState next.currTerminal =
      (tty.lineState tty.currTerminal).key (tty.modifiers.key code) code := by
  obtain ⟨rfl, here⟩ := keyStep_afterKey done
  rw [here]
  have lines := congrFun (congrArg Keyboard.lines (@keyboard_afterKey tty code)) tty.currTerminal
  exact lines.trans (Function.update_self ..)

theorem printed_key {state : LineState} {modifiers : Modifiers} (fine : LineOk state)
    (printed : ∀ c ∈ state.typed, ¬(c = 10 ∨ c = 13)) :
    ∀ c ∈ (state.key modifiers code).typed, ¬(c = 10 ∨ c = 13) := by
  by_cases ends : code = enter
  · rw [ends, LineState.key_enter]
    exact fun c absent => absurd absent List.not_mem_nil
  · by_cases erases : code = backspace
    · rw [erases, LineState.key_backspace, fine.typed_backspace]
      exact fun c kept => printed c (List.dropLast_subset _ kept)
    · rw [LineState.key_other ends erases]
      split
      · rw [fine.typed_insert]
        intro c member
        rcases List.mem_append.mp member with old | new
        · exact printed c old
        · rw [List.mem_singleton.mp new]
          exact character_printed modifiers code
      · exact printed

namespace OriginOk

theorem step (ok : OriginOk tty) {event : LineEvent} (done : tty.lineStep event = some next) :
    OriginOk next := by
  cases event with
  | key code =>
      have line := lineState_keyStep done
      refine ⟨ok.toPlaced.keyStep done, ?_, ?_⟩
      · rw [line]
        exact ok.line.key
      · rw [typedLine, line]
        exact printed_key ok.line ok.printed
  | write buf =>
      cases done
      have kept : (tty.terminalWrite buf).keyboard = tty.keyboard := keyboard_terminalWrite buf
      have lines : (tty.terminalWrite buf).lineState = tty.lineState := congrArg Keyboard.lines kept
      have here := currTerminal_of_keyboard kept
      refine ⟨ok.toPlaced.writeBytes buf, ?_, ?_⟩
      · rw [lines, here]
        exact ok.line
      · rw [typedLine, lines, here]
        exact ok.printed

end OriginOk

theorem FreshLine.originOk (fresh : FreshLine tty) : OriginOk tty where
  onScreen := by
    have column := fresh.column
    have row := fresh.row
    constructor <;> omega
  column := by
    rw [fresh.origin]
    decide
  line := by
    have size : (tty.lineState tty.currTerminal).size = 0 := fresh.size
    refine ⟨fresh.position.trans fresh.size.symm, ?_, ?_, fun index _ => fresh.blank index⟩
    · rw [size]
      exact Nat.zero_le _
    · rw [size]
      exact fun index bound => absurd bound (Nat.not_lt_zero index)
  printed := by
    have size : (tty.lineState tty.currTerminal).size = 0 := fresh.size
    rw [typedLine, LineState.typed, size]
    exact fun c absent => absurd absent List.not_mem_nil

theorem FreshLine.tracks (fresh : FreshLine tty) : Tracks tty := by
  intro _
  rw [AtCursor, fresh.origin, fresh.column, fresh.row]
  exact ⟨rfl, rfl⟩

end Tty

end G29Os
