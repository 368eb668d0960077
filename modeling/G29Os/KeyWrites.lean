import G29Os.KeyboardRefinement
import Mathlib.Logic.Relation

/-!
What a key or a write of a program stores in the driver, one field after the other.
Of what the driver holds for each terminal, only the part of the foreground is written.
-/

namespace G29Os

open Relation

namespace Tty

variable {tty next last : Tty} {terminal cur : TerminalId} {code : UInt8}

/-- One store for the terminal `cur`; `buf_offset` only gets 0 or `NUM_COLS - OFFSET_X`. -/
inductive Write (cur : TerminalId) (tty : Tty) : Tty → Prop
  | line (line : Nat → UInt8) : Write cur tty (setLineBuffer cur line tty)
  | position (position : Nat) : Write cur tty (setPosition cur position tty)
  | size (size : Nat) : Write cur tty (setSize cur size tty)
  | readBuffer (buffer : Nat → UInt8) : Write cur tty (setReadBuffer cur buffer tty)
  | start (position : Position) : Write cur tty (setStart cur position tty)
  | console (change : Console → Console) : Write cur tty (tty.mapConsole change)
  | offset {offset : UInt8} (known : offset = 0 ∨ offset = 73) :
      Write cur tty (setBufOffset offset tty)
  | read (flag : Bool) : Write cur tty (setKeyboardRead flag tty)
  | modifiers (modifiers : Modifiers) : Write cur tty (setModifiers modifiers tty)
  | pic (change : Pic → Pic) : Write cur tty (tty.mapPic change)

def Writes (cur : TerminalId) : Tty → Tty → Prop := ReflTransGen (Write cur)

namespace Writes

theorem none : Writes cur tty tty := ReflTransGen.refl

theorem trans (first : Writes cur tty next) (second : Writes cur next last) : Writes cur tty last :=
  ReflTransGen.trans first second

theorem one (write : Write cur tty next) : Writes cur tty next := ReflTransGen.single write

theorem andThen (first : Writes cur tty next) (write : Write cur next last) : Writes cur tty last :=
  ReflTransGen.tail first write

theorem keeps (invariant : Tty → Prop)
    (kept : ∀ tty next, invariant tty → Write cur tty next → invariant next)
    (writes : Writes cur tty next) (initially : invariant tty) : invariant next := by
  induction writes with
  | refl => exact initially
  | tail _ write ih => exact kept _ _ ih write

theorem dropCounts : Writes cur tty (dropCounts cur tty) :=
  (one (Write.position _)).andThen (Write.size _)

theorem closeGap : Writes cur tty (closeGap cur tty) := by
  rw [Tty.closeGap, shiftLeft_eq]
  exact one (Write.line _)

theorem insertChar (c : UInt8) : Writes cur tty (insertChar cur c tty) := by
  rw [Tty.insertChar, shiftRight_eq, setLine_eq]
  refine andThen (andThen ?_ (Write.position _)) (Write.size _)
  exact (one (Write.line _)).andThen (Write.line _)

theorem clearBuffer (here : tty.currTerminal = cur) : Writes cur tty (clearBuffer tty) := by
  subst here
  rw [Tty.clearBuffer, clearLine_eq]
  exact ((one (Write.line _)).andThen (Write.position _)).andThen (Write.size _)

theorem printLineBuffer (offset : UInt8) : Writes cur tty (printLineBuffer offset terminal tty) := by
  rw [Tty.printLineBuffer]
  exact one (Write.console _)

theorem endLine (here : tty.currTerminal = cur) : Writes cur tty (endLine cur tty) := by
  subst here
  have ended : Writes tty.currTerminal tty
      (setLine tty.currTerminal (tty.curBufferSize tty.currTerminal) 10 tty) := one (Write.line _)
  exact (ended.trans (printLineBuffer _)).andThen (Write.start _)

theorem doEnter (here : tty.currTerminal = cur) : Writes cur tty (doEnter cur tty) := by
  have ended := endLine here
  have copied : Writes cur tty (copyLine cur (Tty.endLine cur tty)) :=
    ended.andThen (Write.readBuffer _)
  have cleared := copied.trans (clearBuffer here)
  rw [Tty.doEnter]
  exact (cleared.andThen (Write.read true)).andThen (Write.offset (Or.inl rfl))

theorem unwrapStart (here : tty.currTerminal = cur) : Writes cur tty (unwrapStart cur tty) := by
  subst here
  rw [Tty.unwrapStart]
  split
  · exact (one (Write.start _)).andThen (Write.offset (Or.inl rfl))
  · exact none

theorem doBackspace (here : tty.currTerminal = cur) : Writes cur tty (doBackspace cur tty) := by
  rw [Tty.doBackspace]
  split
  · have dropped : Writes cur tty (Tty.dropCounts cur tty) := dropCounts
    have closed := (dropped.trans (unwrapStart here)).trans closeGap
    refine closed.trans ?_
    dsimp only
    generalize Tty.closeGap cur _ = gap
    have blanked := (@printLineBuffer gap cur cur gap.bufOffset).andThen (Write.console (putc 32))
    split_ifs <;> exact blanked.andThen (Write.console _)
  · exact none

theorem heldKeys (code : UInt8) : Writes tty.currTerminal tty (heldKeys code tty) := by
  have masked : Writes tty.currTerminal tty (tty.mapPic (disableIrq keyboardIrq)) :=
    one (Write.pic _)
  have pressed : Writes tty.currTerminal tty
      (pressKey tty.currTerminal code (tty.mapPic (disableIrq keyboardIrq))) := by
    by_cases ends : code = enter
    · subst ends
      exact masked.trans (doEnter rfl)
    · by_cases erases : code = backspace
      · subst erases
        exact masked.trans (doBackspace rfl)
      · rw [pressKey_eq ends erases]
        exact masked.andThen (Write.modifiers _)
  rw [Tty.heldKeys, releaseKey_eq]
  exact pressed.andThen (Write.modifiers _)

theorem advanceCursor (current : Position) : Writes cur tty (advanceCursor cur current tty) := by
  rw [Tty.advanceCursor]
  split
  · exact one (Write.console _)
  · exact ((one (Write.start _)).andThen (Write.console _)).andThen (Write.offset (Or.inr rfl))

theorem keyboardAbstraction (charArray : List Char) (code : UInt8) (current : Position) :
    Writes cur tty (keyboardAbstraction cur charArray code current tty) := by
  rw [Tty.keyboardAbstraction]
  dsimp only
  split
  · exact ((insertChar _).trans (printLineBuffer _)).trans (advanceCursor current)
  · exact none

theorem typeKey (current : Position) : Writes cur tty (typeKey cur code current tty) := by
  rw [Tty.typeKey]
  split
  · dsimp only
    split
    · exact (one (Write.start current)).trans (keyboardAbstraction _ code current)
    · exact keyboardAbstraction _ code current
  · exact none

theorem terminalWrite (bytes : List UInt8) (here : tty.currTerminal = cur) :
    Writes cur tty (terminalWrite bytes tty) := by
  subst here
  have written (cur : TerminalId) (first : Tty) :
      Writes cur first (bytes.foldl (writeByte cur) first) := by
    induction bytes generalizing first with
    | nil => exact none
    | cons c bytes ih =>
        refine trans ?_ (ih _)
        rw [writeByte]
        split
        · exact (one (Write.console _)).andThen (Write.start _)
        · exact (one (Write.console _)).andThen (Write.start _)
  exact written tty.currTerminal tty

theorem stay {current : Position} (here : tty.currTerminal = cur) :
    Writes cur tty (stay current tty) := by
  subst here
  rw [Tty.stay]
  split
  · exact one (Write.start current)
  · exact none

theorem clearScreen (here : tty.currTerminal = cur) : Writes cur tty (clearScreen cur tty) := by
  let blank := tty.mapConsole fun console => setNewPosition 0 0 (clear console)
  have cleared : Writes cur tty blank := one (Write.console _)
  have prompted := cleared.trans
    (terminalWrite (ascii ['3', '9', '1', 'O', 'S', '>', ' ']) (here : blank.currTerminal = cur))
  have printed := (prompted.andThen (Write.start { xCoord := 7, yCoord := 0 })).trans
    (@printLineBuffer _ cur _ 0)
  rw [Tty.clearScreen]
  split
  · exact printed.andThen (Write.start _)
  · exact printed

theorem currTerminal (writes : Writes cur tty next) : next.currTerminal = tty.currTerminal := by
  refine writes.keeps (fun other => other.currTerminal = tty.currTerminal) ?_ rfl
  intro before after same write
  cases write <;> exact same

end Writes

def switchedTo (target : TerminalId) (code : UInt8) (tty : Tty) : Tty :=
  switchScreen target (recallStart target
    (setModifiers (tty.modifiers.key code) (tty.mapPic (disableIrq keyboardIrq))))

theorem afterKey_writes (code : UInt8) :
    Writes tty.currTerminal tty (tty.afterKey code) ∨
      ∃ target, target ≠ tty.currTerminal ∧ tty.afterKey code = tty.switchedTo target code := by
  have held := @Writes.heldKeys tty code
  have here : (heldKeys code tty).currTerminal = tty.currTerminal := held.currTerminal
  have finished {next : Tty} (writes : Writes tty.currTerminal tty next) :
      Writes tty.currTerminal tty next.finishKey := writes.andThen (Write.pic _)
  rw [afterKey_eq]
  have handled := @keyboardHandler_handled tty code
  generalize tty.keyboardHandler code = outcome at handled ⊢
  cases handled with
  | held => exact Or.inl (finished (held.trans (Writes.stay here)))
  | here =>
      have recalled : Writes tty.currTerminal tty
          (recallStart tty.currTerminal (heldKeys code tty)) := held.andThen (Write.console _)
      exact Or.inl (finished (recalled.trans (Writes.stay here)))
  | @switched target altDown asked other =>
      refine Or.inr ⟨target, other, ?_⟩
      rw [KeyOutcome.after, heldKeys_altFn asked]
      rfl
  | clears => exact Or.inl (finished (held.trans (Writes.clearScreen here)))
  | types => exact Or.inl (finished (held.trans (Writes.typeKey _)))
  | full => exact Or.inl (finished held)

end Tty

end G29Os
