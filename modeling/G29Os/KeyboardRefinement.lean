import G29Os.LineDiscipline

/-! `keyboard_handler` refines the line discipline: each helper of `terminal.c`, then the key. -/

namespace G29Os

namespace Tty

variable {terminal : TerminalId} {tty : Tty}

/-- `set_new_position` in `update_and_switch`. -/
def recallStart (target : TerminalId) (tty : Tty) : Tty :=
  let start := tty.startPosition target
  tty.mapConsole (setNewPosition start.xCoord.toNat start.yCoord.toNat)

@[simp] theorem keyboard_recallStart (target : TerminalId) :
    (recallStart target tty).keyboard = tty.keyboard := rfl

@[simp] theorem keyboard_mapConsole (change : Console → Console) :
    (tty.mapConsole change).keyboard = tty.keyboard := rfl

@[simp] theorem keyboard_setStart (position : Position) :
    (setStart terminal position tty).keyboard = tty.keyboard := rfl

@[simp] theorem keyboard_setBufOffset (offset : UInt8) :
    (setBufOffset offset tty).keyboard = tty.keyboard := rfl

@[simp] theorem keyboard_printLineBuffer (offset : UInt8) :
    (printLineBuffer offset terminal tty).keyboard = tty.keyboard := rfl

@[simp] theorem keyboard_setKeyboardRead (flag : Bool) :
    (setKeyboardRead flag tty).keyboard = { tty.keyboard with keyboardRead := flag } := rfl

theorem keyboard_changed {next : Tty} {change : LineState → LineState}
    (current : next.currTerminal = tty.currTerminal) (modifiers : next.modifiers = tty.modifiers)
    (flag : next.keyboardRead = tty.keyboardRead)
    (changed : next.lineState terminal = change (tty.lineState terminal))
    (others : ∀ other, other ≠ terminal → next.lineState other = tty.lineState other) :
    next.keyboard = tty.keyboard.changeLine terminal change := by
  apply Keyboard.ext
  · exact current
  · exact modifiers
  · exact flag
  · funext other
    by_cases same : other = terminal
    · subst same
      simpa [Keyboard.changeLine, keyboard] using changed
    · simpa [Keyboard.changeLine, keyboard, Function.update_of_ne same] using others other same

@[simp] theorem keyboard_setLineBuffer (line : Nat → UInt8) :
    (setLineBuffer terminal line tty).keyboard =
      tty.keyboard.changeLine terminal fun state => { state with line := line } := by
  refine keyboard_changed rfl rfl rfl ?_ ?_
  · simp [lineState, setLineBuffer]
  · intro other different
    simp [lineState, setLineBuffer, Function.update_of_ne different]

@[simp] theorem keyboard_setReadBuffer (buffer : Nat → UInt8) :
    (setReadBuffer terminal buffer tty).keyboard =
      tty.keyboard.changeLine terminal fun state => { state with readBuffer := buffer } := by
  refine keyboard_changed rfl rfl rfl ?_ ?_
  · simp [lineState, setReadBuffer]
  · intro other different
    simp [lineState, setReadBuffer, Function.update_of_ne different]

@[simp] theorem keyboard_setPosition (position : Nat) :
    (setPosition terminal position tty).keyboard =
      tty.keyboard.changeLine terminal fun state => { state with position := position } := by
  refine keyboard_changed rfl rfl rfl ?_ ?_
  · simp [lineState, setPosition]
  · intro other different
    simp [lineState, setPosition, Function.update_of_ne different]

@[simp] theorem keyboard_setSize (size : Nat) :
    (setSize terminal size tty).keyboard =
      tty.keyboard.changeLine terminal fun state => { state with size := size } := by
  refine keyboard_changed rfl rfl rfl ?_ ?_
  · simp [lineState, setSize]
  · intro other different
    simp [lineState, setSize, Function.update_of_ne different]

theorem keyboard_clearBuffer :
    (clearBuffer tty).keyboard = tty.keyboard.changeLine tty.currTerminal LineState.cleared := by
  rw [clearBuffer, clearLine_eq]
  simp only [keyboard_setSize, keyboard_setPosition, keyboard_setLineBuffer,
    Keyboard.changeLine_changeLine]
  rfl

theorem keyboard_endLine :
    (endLine terminal tty).keyboard = tty.keyboard.changeLine terminal fun state =>
      { state with line := Function.update state.line state.size 10 } := by
  simp only [endLine, keyboard_setStart, keyboard_printLineBuffer, setLine_eq,
    keyboard_setLineBuffer]
  rfl

theorem keyboard_copyLine :
    (copyLine terminal tty).keyboard = tty.keyboard.changeLine terminal fun state =>
      { state with readBuffer := strncpy state.readBuffer state.line lineBuffer } := by
  rw [copyLine, keyboard_setReadBuffer]
  rfl

theorem keyboard_doEnter :
    (doEnter tty.currTerminal tty).keyboard =
      { tty.keyboard.changeLine tty.currTerminal LineState.enter with keyboardRead := true } := by
  have current : (copyLine tty.currTerminal (endLine tty.currTerminal tty)).currTerminal =
    tty.currTerminal := rfl
  rw [doEnter, keyboard_setBufOffset, keyboard_setKeyboardRead, keyboard_clearBuffer, current,
    keyboard_copyLine, keyboard_endLine, Keyboard.changeLine_changeLine,
    Keyboard.changeLine_changeLine]
  rfl

theorem keyboard_dropCounts :
    (dropCounts terminal tty).keyboard = tty.keyboard.changeLine terminal fun state =>
      { state with position := state.position - 1, size := state.size - 1 } := by
  rw [dropCounts, keyboard_setSize, keyboard_setPosition, Keyboard.changeLine_changeLine]
  rfl

theorem keyboard_unwrapStart : (unwrapStart terminal tty).keyboard = tty.keyboard := by
  rw [unwrapStart]
  split <;> rfl

theorem keyboard_closeGap :
    (closeGap terminal tty).keyboard = tty.keyboard.changeLine terminal fun state =>
      { state with
        line := fun index =>
          if state.position ≤ index ∧ index ≤ state.size + 1 then state.line (index + 1)
          else state.line index } := by
  rw [closeGap, shiftLeft_eq, keyboard_setLineBuffer]
  apply Keyboard.changeLine_congr
  congr 1
  funext index
  simp only [keyboard, lineState]
  congr 1
  simp only [eq_iff_iff]
  omega

theorem keyboard_erased (moved : tty.curBufferPosition terminal > 0) :
    (closeGap terminal (unwrapStart terminal (dropCounts terminal tty))).keyboard =
      tty.keyboard.changeLine terminal LineState.backspace := by
  have before : (tty.keyboard.lines terminal).position > 0 := moved
  simp only [keyboard_closeGap, keyboard_unwrapStart, keyboard_dropCounts,
    Keyboard.changeLine_changeLine]
  apply Keyboard.changeLine_congr
  rw [LineState.backspace, if_pos before]

theorem keyboard_doBackspace :
    (doBackspace tty.currTerminal tty).keyboard =
      tty.keyboard.changeLine tty.currTerminal LineState.backspace := by
  rw [doBackspace]
  split
  · rename_i moved
    simp only [apply_ite keyboard, keyboard_mapConsole, keyboard_printLineBuffer, ite_self,
      keyboard_erased moved]
  · rename_i atStart
    have before : ¬(tty.keyboard.lines tty.currTerminal).position > 0 := atStart
    exact (Keyboard.changeLine_self (by rw [LineState.backspace, if_neg before])).symm

theorem lineState_changed {next : Tty} {change : LineState → LineState}
    (changed : next.keyboard = tty.keyboard.changeLine terminal change) :
    next.lineState terminal = change (tty.lineState terminal) := by
  have lines := congrFun (congrArg Keyboard.lines changed) terminal
  simpa [Keyboard.changeLine, keyboard] using lines

theorem keyboard_insertChar (c : UInt8) :
    (insertChar terminal c tty).keyboard = tty.keyboard.changeLine terminal (LineState.insert c) := by
  simp only [insertChar, keyboard_setSize, keyboard_setPosition, setLine_eq, shiftRight_eq,
    setLineBuffer_setLineBuffer, setLineBuffer_line, keyboard_setLineBuffer,
    Keyboard.changeLine_changeLine]
  apply Keyboard.changeLine_congr
  simp only [LineState.insert]
  congr 1
  funext index
  rcases eq_or_ne index (tty.curBufferPosition terminal) with same | different
  · simp [same, keyboard, lineState]
  · simp only [Function.update_of_ne different, keyboard, lineState, different, if_false]
    congr 1
    simp only [eq_iff_iff]
    omega

theorem keyboard_advanceCursor (current : Position) :
    (advanceCursor terminal current tty).keyboard = tty.keyboard := by
  rw [advanceCursor]
  split <;> rfl

theorem keyboard_keyboardAbstraction (charArray : List Char) (scanword : UInt8)
    (current : Position) :
    (keyboardAbstraction terminal charArray scanword current tty).keyboard =
      if UInt8.ofNat (charArray.getD scanword.toNat nul).toNat ≠ 0 then
        tty.keyboard.changeLine terminal
          (LineState.insert (UInt8.ofNat (charArray.getD scanword.toNat nul).toNat))
      else tty.keyboard := by
  simp only [keyboardAbstraction, apply_ite keyboard, keyboard_advanceCursor,
    keyboard_printLineBuffer, keyboard_insertChar]

theorem keyboard_pressKey (code : UInt8) :
    (pressKey tty.currTerminal code tty).keyboard =
      { tty.keyboard.changeLine tty.currTerminal (LineState.press code) with
        modifiers := tty.modifiers.press code
        keyboardRead := tty.keyboardRead || decide (code = enter) } := by
  by_cases erases : code = backspace
  · subst erases
    have pressed : pressKey tty.currTerminal backspace tty = doBackspace tty.currTerminal tty := rfl
    rw [pressed, keyboard_doBackspace]
    have unset : (tty.keyboardRead || decide (backspace = enter)) = tty.keyboardRead :=
      Bool.or_false _
    rw [unset]
    rfl
  · by_cases ends : code = enter
    · subst ends
      have pressed : pressKey tty.currTerminal enter tty = doEnter tty.currTerminal tty := rfl
      rw [pressed, keyboard_doEnter]
      have set : (tty.keyboardRead || decide (enter = enter)) = true := Bool.or_true _
      rw [set]
      rfl
    · have unmoved : tty.keyboard.changeLine tty.currTerminal (LineState.press code) =
          tty.keyboard := Keyboard.changeLine_self (by simp [LineState.press, erases, ends])
      rw [unmoved, pressKey, Modifiers.press]
      simp only [ends, erases, decide_false, Bool.or_false, if_false]
      split_ifs <;> rfl

def setModifiers (modifiers : Modifiers) (tty : Tty) : Tty :=
  { tty with
    shiftPressed := modifiers.shift
    ctrlPressed := modifiers.ctrl
    altPressed := modifiers.alt
    capsActivated := modifiers.caps }

theorem releaseKey_eq (code : UInt8) :
    releaseKey code tty = setModifiers (tty.modifiers.release code) tty := by
  simp only [Modifiers.release, apply_ite (fun modifiers => setModifiers modifiers tty)]
  rfl

theorem pressKey_eq {code : UInt8} (ends : code ≠ enter) (erases : code ≠ backspace) :
    pressKey terminal code tty = setModifiers (tty.modifiers.press code) tty := by
  simp only [Modifiers.press, apply_ite (fun modifiers => setModifiers modifiers tty), pressKey,
    ends, erases, if_false]
  rfl

theorem keyboard_releaseKey (code : UInt8) :
    (releaseKey code tty).keyboard =
      { tty.keyboard with modifiers := tty.modifiers.release code } := by
  rw [releaseKey_eq]
  rfl

theorem heldKeys_eq {code : UInt8} (ends : code ≠ enter) (erases : code ≠ backspace) :
    heldKeys code tty = setModifiers (tty.modifiers.key code) (tty.mapPic (disableIrq keyboardIrq)) := by
  rw [heldKeys, pressKey_eq ends erases, releaseKey_eq]
  rfl

theorem switchTarget_code {code : UInt8} {target : TerminalId}
    (asked : switchTarget code = some target) : code = f1 ∨ code = f2 ∨ code = f3 := by
  rw [switchTarget] at asked
  split_ifs at asked with first second third
  · exact Or.inl first
  · exact Or.inr (Or.inl second)
  · exact Or.inr (Or.inr third)

theorem heldKeys_altFn {code : UInt8} {target : TerminalId} (asked : switchTarget code = some target) :
    heldKeys code tty = setModifiers (tty.modifiers.key code) (tty.mapPic (disableIrq keyboardIrq)) := by
  rcases switchTarget_code asked with rfl | rfl | rfl <;> exact heldKeys_eq (by decide) (by decide)

theorem chosenTable_eq : tty.chosenTable = tty.modifiers.table := rfl

theorem keyboard_typeKey (code : UInt8) (current : Position)
    (room : ¬tty.curBufferSize terminal ≥ lineBuffer - 2) :
    (typeKey terminal code current tty).keyboard =
      tty.keyboard.changeLine terminal (LineState.type tty.modifiers code) := by
  have space' : ¬(tty.keyboard.lines terminal).size ≥ lineBuffer - 2 := room
  by_cases printable : code ≤ space
  · by_cases types : UInt8.ofNat (tty.modifiers.table.getD code.toNat nul).toNat ≠ 0
    · have inserted : LineState.type tty.modifiers code (tty.keyboard.lines terminal) =
          LineState.insert (UInt8.ofNat (tty.modifiers.table.getD code.toNat nul).toNat)
            (tty.keyboard.lines terminal) := by
        simp only [LineState.type, space', printable, types, if_true, if_false, not_false_iff,
          ne_eq]
      simp only [typeKey, printable, if_true, keyboard_keyboardAbstraction]
      rw [Keyboard.changeLine_congr inserted]
      split <;> simp only [chosenTable_eq] <;> exact if_pos types
    · have kept : LineState.type tty.modifiers code (tty.keyboard.lines terminal) =
          tty.keyboard.lines terminal := by
        simp only [LineState.type, space', printable, types, if_true, if_false]
      rw [Keyboard.changeLine_self kept]
      simp only [typeKey, printable, if_true, keyboard_keyboardAbstraction]
      split <;> exact if_neg types
  · have kept : LineState.type tty.modifiers code (tty.keyboard.lines terminal) =
        tty.keyboard.lines terminal := by
      simp only [LineState.type, space', printable, if_false]
    rw [Keyboard.changeLine_self kept, typeKey, if_neg printable]

theorem terminalWrite_fields (bytes : List UInt8) : ∃ console startPosition,
    terminalWrite bytes tty = { tty with console := console, startPosition := startPosition } := by
  refine List.foldlRecOn (motive := fun next : Tty => ∃ console startPosition,
    next = { tty with console := console, startPosition := startPosition }) bytes
    (writeByte tty.currTerminal) ⟨tty.console, tty.startPosition, rfl⟩ ?_
  rintro next ⟨console, startPosition, rfl⟩ c -
  rw [writeByte]
  split <;> exact ⟨_, _, rfl⟩

theorem keyboard_terminalWrite (bytes : List UInt8) :
    (terminalWrite bytes tty).keyboard = tty.keyboard := by
  obtain ⟨console, startPosition, same⟩ := @terminalWrite_fields tty bytes
  rw [same]
  rfl

theorem keyboard_clearScreen : (clearScreen terminal tty).keyboard = tty.keyboard := by
  simp only [clearScreen, apply_ite keyboard, keyboard_setStart, keyboard_printLineBuffer,
    keyboard_terminalWrite, keyboard_mapConsole, ite_self]

theorem keyboard_stay (current : Position) : (stay current tty).keyboard = tty.keyboard := by
  rw [stay]
  split <;> rfl

theorem keyboard_finishKey : tty.finishKey.keyboard = tty.keyboard := rfl

theorem keyboard_switchScreen (target : TerminalId) :
    (switchScreen target tty).keyboard = { tty.keyboard with current := target } := rfl

theorem keyboard_heldKeys (code : UInt8) :
    (heldKeys code tty).keyboard =
      { tty.keyboard.changeLine tty.currTerminal (LineState.press code) with
        modifiers := tty.modifiers.key code
        keyboardRead := tty.keyboardRead || decide (code = enter) } := by
  have pressed : (pressKey tty.currTerminal code (tty.mapPic (disableIrq keyboardIrq))).keyboard =
      { tty.keyboard.changeLine tty.currTerminal (LineState.press code) with
        modifiers := tty.modifiers.press code
        keyboardRead := tty.keyboardRead || decide (code = enter) } :=
    @keyboard_pressKey (tty.mapPic (disableIrq keyboardIrq)) code
  have modified : (pressKey tty.currTerminal code
      (tty.mapPic (disableIrq keyboardIrq))).modifiers = tty.modifiers.press code :=
    congrArg Keyboard.modifiers pressed
  rw [heldKeys, keyboard_releaseKey, modified, pressed]
  rfl

theorem modifiers_heldKeys (code : UInt8) : (heldKeys code tty).modifiers = tty.modifiers.key code :=
  congrArg Keyboard.modifiers (keyboard_heldKeys code)

theorem altPressed_heldKeys (code : UInt8) :
    (heldKeys code tty).altPressed = (tty.modifiers.key code).alt :=
  congrArg Modifiers.alt (modifiers_heldKeys code)

theorem ctrlPressed_heldKeys (code : UInt8) :
    (heldKeys code tty).ctrlPressed = (tty.modifiers.key code).ctrl :=
  congrArg Modifiers.ctrl (modifiers_heldKeys code)

inductive Handled (code : UInt8) (tty : Tty) : KeyOutcome → Prop
  | held (altDown : (heldKeys code tty).altPressed = true) (asked : switchTarget code = none) :
      Handled code tty
        (.returned (finishKey (stay (getCurPosition tty.console) (heldKeys code tty))))
  | here (altDown : (heldKeys code tty).altPressed = true)
      (asked : switchTarget code = some tty.currTerminal) :
      Handled code tty
        (.returned (finishKey (stay (getCurPosition tty.console)
          (recallStart tty.currTerminal (heldKeys code tty)))))
  | switched {target : TerminalId} (altDown : (heldKeys code tty).altPressed = true)
      (asked : switchTarget code = some target) (other : target ≠ tty.currTerminal) :
      Handled code tty (.switched target (recallStart target (heldKeys code tty)))
  | clears (altUp : ¬(heldKeys code tty).altPressed = true)
      (asked : (heldKeys code tty).ctrlPressed ∧ code = keyL) :
      Handled code tty (.returned (finishKey (clearScreen tty.currTerminal (heldKeys code tty))))
  | types (altUp : ¬(heldKeys code tty).altPressed = true)
      (letter : ¬((heldKeys code tty).ctrlPressed ∧ code = keyL))
      (room : ¬(heldKeys code tty).curBufferSize tty.currTerminal ≥ lineBuffer - 2) :
      Handled code tty
        (.returned (finishKey
          (typeKey tty.currTerminal code (getCurPosition tty.console) (heldKeys code tty))))
  | full (altUp : ¬(heldKeys code tty).altPressed = true)
      (letter : ¬((heldKeys code tty).ctrlPressed ∧ code = keyL))
      (full : (heldKeys code tty).curBufferSize tty.currTerminal ≥ lineBuffer - 2) :
      Handled code tty (.returned (finishKey (heldKeys code tty)))

theorem keyboardHandler_handled (code : UInt8) : Handled code tty (tty.keyboardHandler code) := by
  rw [keyboardHandler]
  by_cases altDown : (heldKeys code tty).altPressed = true
  · rw [if_pos altDown]
    cases asked : switchTarget code with
    | none => exact Handled.held altDown asked
    | some target =>
        by_cases here : target = tty.currTerminal
        · simp only [if_pos here]
          subst here
          exact Handled.here altDown asked
        · simp only [if_neg here]
          exact Handled.switched altDown asked here
  · rw [if_neg altDown]
    by_cases clears : (heldKeys code tty).ctrlPressed ∧ code = keyL
    · rw [if_pos clears]
      exact Handled.clears altDown clears
    · rw [if_neg clears]
      by_cases room : ¬(heldKeys code tty).curBufferSize tty.currTerminal ≥ lineBuffer - 2
      · rw [if_pos room]
        exact Handled.types altDown clears room
      · rw [if_neg room]
        exact Handled.full altDown clears (not_not.mp room)

def KeyOutcome.after : KeyOutcome → Tty
  | .returned tty => tty
  | .switched target tty => switchScreen target tty

theorem afterKey_eq (code : UInt8) : tty.afterKey code = (tty.keyboardHandler code).after := by
  rw [afterKey]
  cases tty.keyboardHandler code <;> rfl

theorem afterKey_of_returned {code : UInt8} {next : Tty}
    (outcome : keyboardHandler code tty = .returned next) : tty.afterKey code = next := by
  rw [afterKey, outcome]

theorem afterKey_of_switched {code : UInt8} {target : TerminalId} {next : Tty}
    (outcome : keyboardHandler code tty = .switched target next) :
    tty.afterKey code = switchScreen target next := by
  rw [afterKey, outcome]

theorem key_of_altDown {code : UInt8} (altDown : (tty.modifiers.key code).alt = true) :
    tty.keyboard.key code = { (heldKeys code tty).keyboard with
      current := (switchTarget code).getD tty.currTerminal } := by
  have line : LineState.key (tty.modifiers.key code) code = LineState.press code := by
    funext state
    rw [LineState.key, if_pos altDown]
  have modifiers : tty.keyboard.modifiers.key code = tty.modifiers.key code := rfl
  rw [Keyboard.key, modifiers, line, altDown, keyboard_heldKeys]
  rfl

theorem key_of_altUp {code : UInt8} (altUp : ¬(tty.modifiers.key code).alt = true) :
    tty.keyboard.key code = (heldKeys code tty).keyboard.changeLine tty.currTerminal fun state =>
      if (tty.modifiers.key code).ctrl ∧ code = keyL then state
      else state.type (tty.modifiers.key code) code := by
  have line : LineState.key (tty.modifiers.key code) code = fun state =>
      if (tty.modifiers.key code).ctrl ∧ code = keyL then state.press code
      else (state.press code).type (tty.modifiers.key code) code := by
    funext state
    rw [LineState.key, if_neg altUp]
  have modifiers : tty.keyboard.modifiers.key code = tty.modifiers.key code := rfl
  rw [Keyboard.key, modifiers, line, if_neg altUp, keyboard_heldKeys]
  simp only [Keyboard.changeLine, Function.update_idem, Function.update_self]
  rfl

theorem keyboard_afterKey (code : UInt8) :
    (tty.afterKey code).keyboard = tty.keyboard.key code := by
  have current : (heldKeys code tty).currTerminal = tty.currTerminal :=
    congrArg Keyboard.current (keyboard_heldKeys code)
  have modifiers := @modifiers_heldKeys tty code
  have alt := @altPressed_heldKeys tty code
  have ctrl := @ctrlPressed_heldKeys tty code
  rw [afterKey_eq]
  have handled := @keyboardHandler_handled tty code
  generalize tty.keyboardHandler code = outcome at handled ⊢
  cases handled with
  | held altDown asked =>
      rw [KeyOutcome.after, key_of_altDown (alt ▸ altDown), keyboard_finishKey, keyboard_stay, asked,
        Option.getD_none, ← current]
      rfl
  | here altDown asked =>
      rw [KeyOutcome.after, key_of_altDown (alt ▸ altDown), keyboard_finishKey, keyboard_stay, asked,
        Option.getD_some, keyboard_recallStart, ← current]
      rfl
  | switched altDown asked other =>
      rw [KeyOutcome.after, key_of_altDown (alt ▸ altDown), keyboard_switchScreen,
        keyboard_recallStart, asked, Option.getD_some]
  | clears altUp asked =>
      rw [KeyOutcome.after, key_of_altUp (alt ▸ altUp), keyboard_finishKey, keyboard_clearScreen]
      refine (Keyboard.changeLine_self ?_).symm
      exact if_pos (ctrl ▸ asked)
  | types altUp letter room =>
      rw [KeyOutcome.after, key_of_altUp (alt ▸ altUp), keyboard_finishKey,
        keyboard_typeKey _ _ room, modifiers]
      exact Keyboard.changeLine_congr (if_neg (ctrl ▸ letter)).symm
  | full altUp letter crowded =>
      have full : ((heldKeys code tty).keyboard.lines tty.currTerminal).size ≥ lineBuffer - 2 :=
        crowded
      rw [KeyOutcome.after, key_of_altUp (alt ▸ altUp), keyboard_finishKey]
      refine (Keyboard.changeLine_self ?_).symm
      rw [if_neg (ctrl ▸ letter), LineState.type, if_pos full]

theorem lineState_afterKey (code : UInt8) :
    (tty.afterKey code).lineState = Function.update tty.lineState tty.currTerminal
      ((tty.lineState tty.currTerminal).key (tty.modifiers.key code) code) :=
  congrArg Keyboard.lines (keyboard_afterKey code)

theorem keyboardRead_afterKey (code : UInt8) :
    (tty.afterKey code).keyboardRead = (tty.keyboardRead || decide (code = enter)) :=
  congrArg Keyboard.keyboardRead (keyboard_afterKey code)

theorem modifiers_afterKey (code : UInt8) :
    (tty.afterKey code).modifiers = tty.modifiers.key code :=
  congrArg Keyboard.modifiers (keyboard_afterKey code)

theorem currTerminal_afterKey (code : UInt8) :
    (tty.afterKey code).currTerminal =
      if (tty.modifiers.key code).alt then (switchTarget code).getD tty.currTerminal
      else tty.currTerminal :=
  congrArg Keyboard.current (keyboard_afterKey code)

theorem currTerminal_heldKeys (code : UInt8) :
    (heldKeys code tty).currTerminal = tty.currTerminal :=
  congrArg Keyboard.current (keyboard_heldKeys code)

theorem currTerminal_of_keyboard {next : Tty} (same : next.keyboard = tty.keyboard) :
    next.currTerminal = tty.currTerminal := congrArg Keyboard.current same

theorem keyboardHandler_terminal (code : UInt8) :
    match tty.keyboardHandler code with
    | .returned next => next.currTerminal = tty.currTerminal
    | .switched target next => next.currTerminal = tty.currTerminal ∧ target ≠ tty.currTerminal := by
  have held : (heldKeys code tty).currTerminal = tty.currTerminal := currTerminal_heldKeys code
  have handled := @keyboardHandler_handled tty code
  generalize tty.keyboardHandler code = outcome at handled ⊢
  cases handled with
  | held altDown asked => exact (currTerminal_of_keyboard (keyboard_stay _)).trans held
  | here altDown asked => exact (currTerminal_of_keyboard (keyboard_stay _)).trans held
  | switched altDown asked other => exact ⟨held, other⟩
  | clears altUp asked =>
      have cleared : (clearScreen tty.currTerminal (heldKeys code tty)).currTerminal = _ :=
        currTerminal_of_keyboard keyboard_clearScreen
      exact (currTerminal_of_keyboard keyboard_finishKey).trans (cleared.trans held)
  | types altUp letter room =>
      have typed := congrArg Keyboard.current
        (keyboard_typeKey code (getCurPosition tty.console) room)
      exact (currTerminal_of_keyboard keyboard_finishKey).trans (typed.trans held)
  | full altUp letter crowded => exact (currTerminal_of_keyboard keyboard_finishKey).trans held

structure SameScreen (tty next : Tty) : Prop where
  current : next.currTerminal = tty.currTerminal
  console : next.console = tty.console
  vbuffer : next.vbuffer = tty.vbuffer
  start : next.startPosition = tty.startPosition
  offset : next.bufOffset = tty.bufOffset

namespace SameScreen

variable {middle next : Tty}

theorem trans (first : SameScreen tty middle) (second : SameScreen middle next) :
    SameScreen tty next where
  current := second.current.trans first.current
  console := second.console.trans first.console
  vbuffer := second.vbuffer.trans first.vbuffer
  start := second.start.trans first.start
  offset := second.offset.trans first.offset

theorem setLineBuffer (line : Nat → UInt8) : SameScreen tty (setLineBuffer terminal line tty) :=
  ⟨rfl, rfl, rfl, rfl, rfl⟩

theorem setPosition (position : Nat) : SameScreen tty (setPosition terminal position tty) :=
  ⟨rfl, rfl, rfl, rfl, rfl⟩

theorem setSize (size : Nat) : SameScreen tty (setSize terminal size tty) :=
  ⟨rfl, rfl, rfl, rfl, rfl⟩

theorem dropCounts : SameScreen tty (dropCounts terminal tty) :=
  (setPosition _).trans (setSize _)

theorem closeGap : SameScreen tty (closeGap terminal tty) := by
  rw [Tty.closeGap, shiftLeft_eq]
  exact setLineBuffer _

theorem insertChar {c : UInt8} : SameScreen tty (insertChar terminal c tty) := by
  rw [Tty.insertChar, shiftRight_eq, setLine_eq]
  exact (((setLineBuffer _).trans (setLineBuffer _)).trans (setPosition _)).trans (setSize _)

end SameScreen

theorem readStep_screen (tty : Tty) (terminal : TerminalId) (call : ReadCall) :
    SameScreen tty (tty.readStep terminal call).tty := by
  obtain ⟨nbytes, moved, stage⟩ := call
  cases stage with
  | waiting | testing | clearing index =>
      simp only [readStep]
      split <;> exact ⟨rfl, rfl, rfl, rfl, rfl⟩
  | moving | clearingPosition | clearingSize | releasing => exact ⟨rfl, rfl, rfl, rfl, rfl⟩

theorem readStep_terminal (tty : Tty) (terminal : TerminalId) (call : ReadCall) :
    (tty.readStep terminal call).tty.currTerminal = tty.currTerminal :=
  (readStep_screen tty terminal call).current

end Tty

end G29Os
