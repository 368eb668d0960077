import G29Os.LineOrigin
import G29Os.SwitchScreen

/-!
Which keys and which writes move the origin of the line and the cursor alike: each way out of
the handler, each byte of a write, and from them every run.
-/

namespace G29Os

open Console StepRun

namespace Tty

variable {tty next last : Tty} {cur : TerminalId} {position : Position} {code c : UInt8}
  {bytes : List UInt8}

/-! ### Keys that leave the line empty -/

inductive Emptied (code : UInt8) (tty next : Tty) : Prop
  | cleared (clears : Clears code tty)
      (console : next.console = (clearScreen tty.currTerminal (heldKeys code tty)).console)
      (start : next.startPosition = (clearScreen tty.currTerminal (heldKeys code tty)).startPosition)
  | sampled (unclear : ¬Clears code tty) (console : next.console = (heldKeys code tty).console)
      (start : next.startPosition tty.currTerminal = getCurPosition tty.console)
  | beyond (unclear : ¬Clears code tty) (letter : ¬code ≤ space)
      (console : next.console = (heldKeys code tty).console)
      (start : next.startPosition = (heldKeys code tty).startPosition)
  | recalled (unclear : ¬Clears code tty) (asked : switchTarget code = some tty.currTerminal)
      (console : next.console = (recallStart tty.currTerminal (heldKeys code tty)).console)
      (start : next.startPosition tty.currTerminal = getCurPosition tty.console)

theorem finishKey_screen : SameScreen tty tty.finishKey := ⟨rfl, rfl, rfl, rfl, rfl⟩

theorem size_finishKey : tty.finishKey.curBufferSize tty.finishKey.currTerminal =
    tty.curBufferSize tty.currTerminal := rfl

theorem stay_empty (empty : tty.curBufferSize tty.currTerminal = 0) (here : tty.currTerminal = cur) :
    (stay position tty).console = tty.console ∧ (stay position tty).startPosition cur = position := by
  subst here
  rw [stay, if_pos empty]
  exact ⟨rfl, Function.update_self ..⟩

theorem size_stay (position : Position) :
    (stay position tty).curBufferSize (stay position tty).currTerminal =
      tty.curBufferSize tty.currTerminal :=
  congrArg (fun keyboard => (keyboard.lines keyboard.current).size) (keyboard_stay position)

theorem typeKey_empty (here : tty.currTerminal = cur) (empty : (typeKey cur code position tty).curBufferSize
    (typeKey cur code position tty).currTerminal = 0) :
    (typeKey cur code position tty).console = tty.console ∧
      if code ≤ space then (typeKey cur code position tty).startPosition cur = position
      else (typeKey cur code position tty).startPosition = tty.startPosition := by
  subst here
  rw [typeKey_eq] at empty ⊢
  by_cases printable : code ≤ space
  · rw [if_pos printable] at empty ⊢
    rw [if_pos printable]
    by_cases types : tty.modifiers.character code ≠ 0
    · rw [if_pos types] at empty
      have begun : (tty.startLine position).keyboard = tty.keyboard := keyboard_stay position
      have typed : (advanceCursor tty.currTerminal position (printLineBuffer
          (insertChar tty.currTerminal (tty.modifiers.character code) (tty.startLine position)).bufOffset
          tty.currTerminal (insertChar tty.currTerminal (tty.modifiers.character code)
            (tty.startLine position)))).keyboard =
          tty.keyboard.changeLine tty.currTerminal (LineState.insert (tty.modifiers.character code)) := by
        rw [keyboard_advanceCursor, keyboard_printLineBuffer, keyboard_insertChar, begun]
      have size := congrArg (fun keyboard => (keyboard.lines keyboard.current).size) typed
      have longer : (tty.keyboard.changeLine tty.currTerminal
          (LineState.insert (tty.modifiers.character code))).lines tty.currTerminal =
            (tty.lineState tty.currTerminal).insert (tty.modifiers.character code) :=
        Function.update_self ..
      have counted : 0 = (tty.lineState tty.currTerminal).size + 1 :=
        empty.symm.trans (size.trans (congrArg LineState.size longer))
      exact absurd counted (Nat.succ_ne_zero _).symm
    · rw [if_neg types] at empty ⊢
      have stays : tty.startLine position = stay position tty := rfl
      rw [stays, size_stay] at empty
      exact stay_empty empty rfl
  · rw [if_neg printable, if_neg printable]
    exact ⟨rfl, rfl⟩

theorem keyStep_emptied (done : tty.keyStep code = some next)
    (empty : next.curBufferSize next.currTerminal = 0) : Emptied code tty next := by
  have here : (heldKeys code tty).currTerminal = tty.currTerminal := currTerminal_heldKeys code
  have alt := @altPressed_heldKeys tty code
  have ctrl := @ctrlPressed_heldKeys tty code
  have handled := @keyboardHandler_handled tty code
  have returned := keyStep_returned done
  generalize tty.keyboardHandler code = outcome at handled returned
  cases handled with
  | held altDown =>
      rw [← KeyOutcome.returned.inj returned, size_finishKey, size_stay] at empty
      rw [← KeyOutcome.returned.inj returned]
      have same := @finishKey_screen (stay (getCurPosition tty.console) (heldKeys code tty))
      have stays := @stay_empty _ _ (getCurPosition tty.console) empty here
      exact Emptied.sampled (fun clears => clears.1 (alt ▸ altDown)) (same.console.trans stays.1)
        ((congrFun same.start _).trans stays.2)
  | here altDown asked =>
      rw [← KeyOutcome.returned.inj returned, size_finishKey, size_stay] at empty
      rw [← KeyOutcome.returned.inj returned]
      have same := @finishKey_screen (stay (getCurPosition tty.console)
        (recallStart tty.currTerminal (heldKeys code tty)))
      have stays := @stay_empty _ _ (getCurPosition tty.console) empty here
      exact Emptied.recalled (fun clears => clears.1 (alt ▸ altDown)) asked
        (same.console.trans stays.1) ((congrFun same.start _).trans stays.2)
  | switched => cases returned
  | clears altUp asked =>
      rw [← KeyOutcome.returned.inj returned]
      have same := @finishKey_screen (clearScreen tty.currTerminal (heldKeys code tty))
      exact Emptied.cleared ⟨alt ▸ altUp, ctrl ▸ asked.1, asked.2⟩ same.console same.start
  | types altUp letter =>
      rw [← KeyOutcome.returned.inj returned, size_finishKey] at empty
      rw [← KeyOutcome.returned.inj returned]
      have same := @finishKey_screen
        (typeKey tty.currTerminal code (getCurPosition tty.console) (heldKeys code tty))
      have unclear : ¬Clears code tty := fun clears => letter ⟨ctrl ▸ clears.2.1, clears.2.2⟩
      obtain ⟨console, start⟩ := typeKey_empty here empty
      by_cases printable : code ≤ space
      · rw [if_pos printable] at start
        exact Emptied.sampled unclear (same.console.trans console) ((congrFun same.start _).trans start)
      · rw [if_neg printable] at start
        exact Emptied.beyond unclear printable (same.console.trans console) (same.start.trans start)
  | full altUp letter full =>
      rw [← KeyOutcome.returned.inj returned, size_finishKey] at empty
      rw [← here, empty] at full
      exact absurd full (by decide)

/-! ### ENTER -/

theorem ended_line {state : LineState} (fine : LineOk state) (offset : Nat) :
    cString (lineBuffer - offset) (fun index => Function.update state.line state.size 10 (offset + index)) =
      if offset ≤ state.size then state.typed.drop offset ++ [10] else [] := by
  have short := fine.short
  by_cases low : offset ≤ state.size
  · have last : offset + (state.size - offset) = state.size := by omega
    have stored (index : Nat) (early : index < state.size - offset) :
        Function.update state.line state.size 10 (offset + index) = state.line (offset + index) :=
      Function.update_of_ne (by omega) ..
    have text : ∀ index, index < state.size - offset + 1 →
        Function.update state.line state.size 10 (offset + index) ≠ 0 := by
      intro index bound
      rcases Nat.lt_or_eq_of_le (Nat.le_of_lt_succ bound) with early | ends
      · rw [stored index early]
        exact fine.text _ (by omega)
      · rw [ends, last, Function.update_self]
        decide
    have stop : Function.update state.line state.size 10 (offset + (state.size - offset + 1)) = 0 := by
      rw [Function.update_of_ne (by omega)]
      exact fine.blank _ (by omega) (by simp only [lineBuffer]; omega)
    have fits : state.size - offset + 1 < lineBuffer - offset := by
      simp only [lineBuffer]
      omega
    rw [if_pos low, cString_eq fits text stop, List.range_succ, List.map_append, LineState.typed_drop,
      List.map_singleton, last, Function.update_self]
    congr 1
    exact List.map_congr_left fun index member => stored index (List.mem_range.mp member)
  · rw [if_neg low]
    by_cases inside : offset < lineBuffer
    · have first : Function.update state.line state.size 10 (offset + 0) = 0 := by
        rw [Function.update_of_ne (by omega)]
        exact fine.blank _ (by omega) inside
      exact cString_eq (Nat.sub_pos_of_lt inside) (fun index bound => absurd bound (Nat.not_lt_zero index))
        first
    · rw [Nat.sub_eq_zero_of_le (Nat.not_lt.mp inside)]
      rfl

theorem releaseKey_screen : SameScreen tty (releaseKey code tty) := by
  rw [releaseKey_eq]
  exact ⟨rfl, rfl, rfl, rfl, rfl⟩

theorem pressKey_enter : pressKey tty.currTerminal enter tty = doEnter tty.currTerminal tty := rfl

theorem heldKeys_enter : (heldKeys enter tty).console =
    (printLineBuffer tty.bufOffset tty.currTerminal
      (setLine tty.currTerminal (tty.curBufferSize tty.currTerminal) 10 tty)).console := by
  have pressed := @pressKey_enter (tty.mapPic (disableIrq keyboardIrq))
  have ended := @doEnter_screen (tty.mapPic (disableIrq keyboardIrq))
  rw [← pressed] at ended
  exact (releaseKey_screen.console).trans ended.1

theorem drawn_enter (fine : LineOk (tty.lineState tty.currTerminal)) :
    (heldKeys enter tty).console =
      puts (if tty.bufOffset.toNat ≤ tty.curBufferSize tty.currTerminal then
        tty.typedLine.drop tty.bufOffset.toNat ++ [10] else [])
          (recallStart tty.currTerminal tty).console := by
  have line : (setLine tty.currTerminal (tty.curBufferSize tty.currTerminal) 10 tty).keyLineBuffer
      tty.currTerminal = Function.update (tty.lineState tty.currTerminal).line
        (tty.lineState tty.currTerminal).size 10 := Function.update_self ..
  have text := ended_line fine tty.bufOffset.toNat
  rw [← line] at text
  rw [heldKeys_enter, printLineBuffer]
  exact congrArg (fun line => puts line (recallStart tty.currTerminal tty).console) text

theorem enterEnd_eq (ok : OriginOk tty) :
    ((heldKeys enter tty).console.screenX, (heldKeys enter tty).console.screenY) = tty.enterEnd := by
  obtain ⟨column, row⟩ := @setNewPosition_row tty.console _ ok.column
    (tty.startPosition tty.currTerminal).yCoord.toNat
  have onScreen := ok.toPlaced.recallStart.onScreen
  have length : (tty.typedLine.drop tty.bufOffset.toNat).length =
      tty.curBufferSize tty.currTerminal - tty.bufOffset.toNat := by
    rw [List.length_drop, typedLine, LineState.typed_length]
    rfl
  change (recallStart tty.currTerminal tty).console.screenX = _ at column
  change (recallStart tty.currTerminal tty).console.screenY = _ at row
  rw [drawn_enter ok.line, enterEnd]
  by_cases low : tty.bufOffset.toNat ≤ tty.curBufferSize tty.currTerminal
  · rw [if_pos low, if_pos low, position_puts_newline onScreen
      (fun c member => ok.printed c (List.mem_of_mem_drop member)), length, column, row]
    congr 1
    omega
  · rw [if_neg low, if_neg low, puts, List.foldl_nil, column, row]

/-! ### BACKSPACE and Ctrl-L -/

theorem pressKey_backspace :
    pressKey tty.currTerminal backspace tty = doBackspace tty.currTerminal tty := rfl

theorem heldKeys_backspace : (heldKeys backspace tty).console =
    (doBackspace tty.currTerminal (tty.mapPic (disableIrq keyboardIrq))).console := by
  have pressed := @pressKey_backspace (tty.mapPic (disableIrq keyboardIrq))
  have released := (@releaseKey_screen (pressKey tty.currTerminal backspace
    (tty.mapPic (disableIrq keyboardIrq))) backspace).console
  exact released.trans (congrArg Tty.console pressed)

theorem column_doBackspace (onScreen : OnScreen tty.console)
    (typed : tty.curBufferPosition tty.currTerminal = 1) :
    (doBackspace tty.currTerminal tty).console.screenX ≠ tty.console.screenX := by
  have kept : ¬unwrapsRow tty.currTerminal (dropCounts tty.currTerminal tty) := by
    rw [unwrapsRow, dropCounts]
    simp only [setSize, setPosition, Function.update_self, typed]
    decide
  have column := (getCurPosition_onScreen onScreen).1
  obtain ⟨left, right, top, bottom⟩ := onScreen
  have moves (x : Int) (y : Int) (console : Console) (low : 0 ≤ x) (high : x < 80) :
      (setNewPosition x y console).screenX = x := congrArg Prod.fst (normalizePosition_row low high y)
  rw [doBackspace, if_pos (typed ▸ Nat.zero_lt_one)]
  simp only [if_neg kept]
  split
  · rename_i behind
    have right : 0 < (getCurPosition tty.console).xCoord.toNat := UInt8.lt_iff_toNat_lt.mp behind
    refine fun same => ?_
    have moved := (moves _ _ _ (by omega) (by omega)).symm.trans same
    omega
  · rename_i edge
    have zero : ¬0 < (getCurPosition tty.console).xCoord.toNat := fun some_ =>
      edge (UInt8.lt_iff_toNat_lt.mpr some_)
    refine fun same => ?_
    have moved := (moves _ _ _ (by decide) (by decide)).symm.trans same
    simp only [numCols] at moved
    omega

theorem atCursor_setStart : AtCursor (setStart tty.currTerminal position tty) ↔
    (position.xCoord.toNat : Int) = tty.console.screenX ∧
      (position.yCoord.toNat : Int) = tty.console.screenY := by
  have start : (setStart tty.currTerminal position tty).startPosition tty.currTerminal = position :=
    Function.update_self ..
  have here : (setStart tty.currTerminal position tty).currTerminal = tty.currTerminal := rfl
  rw [AtCursor, here, start]
  rfl

theorem atCursor_promptLine (here : tty.currTerminal = cur)
    (blank : cString lineBuffer (tty.keyLineBuffer cur) = []) :
    AtCursor (promptLine cur tty) ↔ tty.bufOffset = 0 := by
  subst here
  let began := setStart tty.currTerminal { xCoord := 7, yCoord := 0 } tty
  let printed := printLineBuffer 0 tty.currTerminal began
  have start : began.startPosition tty.currTerminal = { xCoord := 7, yCoord := 0 } :=
    Function.update_self ..
  have text : cString (lineBuffer - (0 : UInt8).toNat)
      (fun index => began.keyLineBuffer tty.currTerminal ((0 : UInt8).toNat + index)) = [] := by
    simp only [UInt8.toNat_zero, Nat.sub_zero, Nat.zero_add]
    exact blank
  have drawn : printed.console = setNewPosition 7 0 tty.console := by
    have line : printed.console = puts (cString (lineBuffer - (0 : UInt8).toNat)
        (fun index => began.keyLineBuffer tty.currTerminal ((0 : UInt8).toNat + index)))
        (setNewPosition (began.startPosition tty.currTerminal).xCoord.toNat
          (began.startPosition tty.currTerminal).yCoord.toNat tty.console) := rfl
    rw [line, text, start]
    rfl
  obtain ⟨column, row⟩ := @setNewPosition_row tty.console 7 (by decide) 0
  rw [promptLine]
  change AtCursor (if tty.bufOffset ≠ 0 then setStart tty.currTerminal _ printed else printed) ↔ _
  by_cases unwrapped : tty.bufOffset = 0
  · rw [if_neg (not_not.mpr unwrapped)]
    refine iff_of_true ⟨?_, ?_⟩ unwrapped
    · change ((began.startPosition tty.currTerminal).xCoord.toNat : Int) = printed.console.screenX
      rw [start, drawn]
      exact column.symm
    · change ((began.startPosition tty.currTerminal).yCoord.toNat : Int) = printed.console.screenY
      rw [start, drawn]
      exact row.symm
  · rw [if_pos unwrapped]
    have moved := @atCursor_setStart printed { xCoord := 0, yCoord := 1 }
    rw [drawn] at moved
    exact iff_of_false (fun at_ => absurd ((moved.mp at_).1.trans column) (by decide)) unwrapped

theorem position_recallStart (onScreen : OnScreen tty.console) (at_ : AtCursor tty) :
    ((recallStart tty.currTerminal tty).console.screenX,
      (recallStart tty.currTerminal tty).console.screenY) = (tty.console.screenX, tty.console.screenY) := by
  obtain ⟨left, right, top, bottom⟩ := onScreen
  have inside := normalizePosition_inside left right top bottom
  rw [← at_.1, ← at_.2] at inside ⊢
  exact inside

theorem line_of_keyboard (cur : TerminalId) (same : next.keyboard = tty.keyboard) :
    next.keyLineBuffer cur = tty.keyLineBuffer cur :=
  congrArg (fun keyboard => (keyboard.lines cur).line) same

theorem bufOffset_terminalWrite (bytes : List UInt8) :
    (tty.terminalWrite bytes).bufOffset = tty.bufOffset := by
  obtain ⟨console, startPosition, same⟩ := @terminalWrite_fields tty bytes
  rw [same]

theorem atCursor_clearScreen (fine : LineOk (tty.lineState cur)) (here : tty.currTerminal = cur)
    (empty : tty.curBufferSize cur = 0) : AtCursor (clearScreen cur tty) ↔ tty.bufOffset = 0 := by
  let blank := tty.mapConsole fun console => setNewPosition 0 0 (clear console)
  have kept : (blank.terminalWrite (ascii ['3', '9', '1', 'O', 'S', '>', ' '])).keyboard =
      tty.keyboard := keyboard_terminalWrite _
  have lines := line_of_keyboard cur kept
  have none : cString lineBuffer (tty.keyLineBuffer cur) = [] :=
    cString_eq (by decide) (fun index bound => absurd bound (Nat.not_lt_zero index))
      (fine.blank 0 (Nat.le_of_eq empty) (by decide))
  have still := (congrArg (cString lineBuffer) lines).trans none
  have offset := @bufOffset_terminalWrite blank (ascii ['3', '9', '1', 'O', 'S', '>', ' '])
  have front := (currTerminal_of_keyboard kept).trans here
  rw [clearScreen_eq, atCursor_promptLine front still, offset]
  rfl

/-! ### One event -/

theorem atCursor_congr (console : next.console = tty.console)
    (start : next.startPosition = tty.startPosition) (here : next.currTerminal = tty.currTerminal) :
    AtCursor next ↔ AtCursor tty := by
  rw [AtCursor, AtCursor, console, start, here]

theorem atCursor_of_eq (onScreen : OnScreen tty.console) (start : next.startPosition cur = getCurPosition tty.console)
    (here : next.currTerminal = cur) :
    AtCursor next ↔ (next.console.screenX, next.console.screenY) = (tty.console.screenX, tty.console.screenY) := by
  obtain ⟨column, row⟩ := getCurPosition_onScreen onScreen
  rw [AtCursor, here, start, column, row, Prod.mk.injEq]
  exact ⟨fun same => ⟨same.1.symm, same.2.symm⟩, fun same => ⟨same.1.symm, same.2.symm⟩⟩

theorem keyStep_sampled (done : tty.keyStep code = some next)
    (empty : next.curBufferSize next.currTerminal = 0) (letter : code ≤ space) (other : code ≠ keyL) :
    next.console = (heldKeys code tty).console ∧
      next.startPosition tty.currTerminal = getCurPosition tty.console := by
  cases keyStep_emptied done empty with
  | cleared clears => exact absurd clears.2.2 other
  | sampled unclear console start => exact ⟨console, start⟩
  | beyond unclear silent => exact absurd letter silent
  | recalled unclear asked =>
      rcases switchTarget_code asked with rfl | rfl | rfl <;> exact absurd letter (by decide)

theorem tracks_enter (ok : OriginOk tty) (done : tty.keyStep enter = some next) :
    Tracks next ↔ (tty.console.screenX, tty.console.screenY) = tty.enterEnd := by
  have empty : next.curBufferSize next.currTerminal = 0 := by
    have line := lineState_keyStep done
    rw [LineState.key_enter] at line
    exact congrArg LineState.size line
  obtain ⟨console, start⟩ := keyStep_sampled done empty (by decide) (by decide)
  have cursor := atCursor_of_eq ok.onScreen start (keyStep_afterKey done).2
  rw [console, enterEnd_eq ok] at cursor
  exact ⟨fun tracks => (cursor.mp (tracks empty)).symm, fun same _ => cursor.mpr same.symm⟩

theorem tracks_backspace (ok : OriginOk tty) (done : tty.keyStep backspace = some next) :
    Tracks next ↔ tty.curBufferSize tty.currTerminal ≠ 1 := by
  have line := lineState_keyStep done
  have counters : tty.curBufferPosition tty.currTerminal = tty.curBufferSize tty.currTerminal :=
    ok.line.counters
  have size : next.curBufferSize next.currTerminal = tty.curBufferSize tty.currTerminal - 1 := by
    rw [LineState.key_backspace] at line
    have shorter := congrArg LineState.size line
    have counted := congrArg List.length ok.line.typed_backspace
    rw [LineState.typed_length, List.length_dropLast, LineState.typed_length] at counted
    exact shorter.trans counted
  by_cases more : tty.curBufferSize tty.currTerminal < 2
  · have empty : next.curBufferSize next.currTerminal = 0 := by omega
    obtain ⟨console, start⟩ := keyStep_sampled done empty (by decide) (by decide)
    have cursor := atCursor_of_eq ok.onScreen start (keyStep_afterKey done).2
    rw [console, heldKeys_backspace] at cursor
    by_cases one : tty.curBufferSize tty.currTerminal = 1
    · refine iff_of_false (fun tracks => ?_) (not_not.mpr one)
      have same := congrArg Prod.fst (cursor.mp (tracks empty))
      exact @column_doBackspace (tty.mapPic (disableIrq keyboardIrq)) ok.onScreen
        (counters.trans one) same
    · refine iff_of_true (fun _ => cursor.mpr ?_) one
      have none : ¬(tty.mapPic (disableIrq keyboardIrq)).curBufferPosition tty.currTerminal > 0 := by
        change ¬tty.curBufferPosition tty.currTerminal > 0
        omega
      rw [doBackspace, if_neg none]
      rfl
  · have typed : next.curBufferSize next.currTerminal ≠ 0 := by omega
    exact iff_of_true (fun empty => absurd empty typed) (by omega)

theorem tracks_other (ok : OriginOk tty) (tracks : Tracks tty) (ends : code ≠ enter)
    (erases : code ≠ backspace) (done : tty.keyStep code = some next) :
    Tracks next ↔ (Clears code tty → tty.curBufferSize tty.currTerminal = 0 → tty.bufOffset = 0) := by
  have here := (keyStep_afterKey done).2
  have line := lineState_keyStep done
  rw [LineState.key_other ends erases] at line
  have held := @heldKeys_eq tty code ends erases
  have fine : LineOk ((heldKeys code tty).lineState tty.currTerminal) := by
    rw [held]
    exact ok.line
  by_cases empty : next.curBufferSize next.currTerminal = 0
  · have none : tty.curBufferSize tty.currTerminal = 0 := by
      split at line
      · exact absurd ((congrArg LineState.size line).symm.trans empty) (Nat.succ_ne_zero _)
      · exact (congrArg LineState.size line).symm.trans empty
    have at_ := tracks none
    cases keyStep_emptied done empty with
    | cleared clears console start =>
        have front := currTerminal_of_keyboard (@keyboard_clearScreen tty.currTerminal (heldKeys code tty))
        rw [currTerminal_heldKeys] at front
        have cursor := atCursor_congr console start (here.trans front.symm)
        rw [atCursor_clearScreen fine (currTerminal_heldKeys code) (held ▸ none), held] at cursor
        exact ⟨fun tracks _ _ => cursor.mp (tracks empty), fun zero _ => cursor.mpr (zero clears none)⟩
    | sampled unclear console start =>
        have cursor := atCursor_of_eq ok.onScreen start here
        rw [console, held] at cursor
        exact iff_of_true (fun _ => cursor.mpr rfl) fun clears => absurd clears unclear
    | beyond unclear letter console start =>
        rw [held] at console start
        have cursor := @atCursor_congr tty next console start here
        exact iff_of_true (fun _ => cursor.mpr at_) fun clears => absurd clears unclear
    | recalled unclear asked console start =>
        have cursor := atCursor_of_eq ok.onScreen start here
        have recalled := @position_recallStart (setModifiers (tty.modifiers.key code)
          (tty.mapPic (disableIrq keyboardIrq))) ok.onScreen at_
        rw [console, held] at cursor
        exact iff_of_true (fun _ => cursor.mpr recalled) fun clears => absurd clears unclear
  · refine iff_of_true (fun none => absurd none empty) fun clears none => ?_
    have unmoved : ¬LineEditor.Types code (tty.modifiers.key code) (tty.lineState tty.currTerminal).typed :=
      fun types => types.2.2.2.1 clears.2
    rw [if_neg unmoved] at line
    exact absurd ((congrArg LineState.size line).trans none) empty

theorem tracks_key_iff (ok : OriginOk tty) (tracks : Tracks tty) (done : tty.keyStep code = some next) :
    Tracks next ↔ Keeps tty (.key code) := by
  by_cases ends : code = enter
  · subst ends
    have other : enter ≠ backspace := by decide
    rw [tracks_enter ok done]
    exact ⟨fun same => ⟨fun erases => absurd erases other, fun _ => same,
      fun clears => absurd clears.2.2 (by decide)⟩, fun keeps => keeps.2.1 rfl⟩
  · by_cases erases : code = backspace
    · subst erases
      rw [tracks_backspace ok done]
      exact ⟨fun more => ⟨fun _ => more, fun ends' => absurd ends' ends,
        fun clears => absurd clears.2.2 (by decide)⟩, fun keeps => keeps.1 rfl⟩
    · rw [tracks_other ok tracks ends erases done]
      exact ⟨fun unwrapped => ⟨fun erases' => absurd erases' erases, fun ends' => absurd ends' ends,
        unwrapped⟩, fun keeps => keeps.2.2⟩

theorem writeByte_eq : writeByte cur tty c =
    if (tty.startPosition cur).xCoord + 1 = 80 ∨ c = 10 then
      setStart cur { xCoord := 0, yCoord := if (tty.startPosition cur).yCoord + 1 ≥ 25 then 24
        else (tty.startPosition cur).yCoord + 1 } (tty.mapConsole (putc c))
    else setStart cur { xCoord := (tty.startPosition cur).xCoord + 1
                        yCoord := (tty.startPosition cur).yCoord } (tty.mapConsole (putc c)) := rfl

theorem atCursor_writeByte (onScreen : OnScreen tty.console) (at_ : AtCursor tty)
    (edge : c = 13 → tty.console.screenX = 79) : AtCursor (writeByte tty.currTerminal tty c) := by
  have moved := @position_putc tty.console c onScreen
  obtain ⟨column, row⟩ := at_
  obtain ⟨left, right, top, bottom⟩ := onScreen
  have next := @toNat_succ (tty.startPosition tty.currTerminal).xCoord (by omega)
  have below := @toNat_succ (tty.startPosition tty.currTerminal).yCoord (by omega)
  have full : (tty.startPosition tty.currTerminal).xCoord + 1 = 80 ↔ tty.console.screenX = 79 := by
    rw [← UInt8.toNat_inj, next]
    change _ = 80 ↔ _
    omega
  have ends : ((tty.startPosition tty.currTerminal).xCoord + 1 = 80 ∨ c = 10) ↔
      (c = 10 ∨ c = 13 ∨ tty.console.screenX = 79) := by
    rw [full]
    exact ⟨fun either => either.elim (fun last => Or.inr (Or.inr last)) Or.inl,
      fun either => either.elim Or.inr fun rest => Or.inl (rest.elim edge id)⟩
  rw [writeByte_eq]
  by_cases breaks : c = 10 ∨ c = 13 ∨ tty.console.screenX = 79
  · rw [if_pos breaks, Prod.mk.injEq] at moved
    rw [if_pos (ends.mpr breaks)]
    refine atCursor_setStart.mpr ⟨moved.1.symm, Eq.trans ?_ moved.2.symm⟩
    dsimp only
    split
    · rename_i low
      have bottom' := UInt8.le_iff_toNat_le.mp low
      change 25 ≤ _ at bottom'
      change (24 : Int) = _
      omega
    · rename_i high
      have inside : ¬25 ≤ ((tty.startPosition tty.currTerminal).yCoord + 1).toNat := fun low =>
        high (UInt8.le_iff_toNat_le.mpr low)
      omega
  · rw [if_neg breaks, Prod.mk.injEq] at moved
    rw [if_neg fun either => breaks (ends.mp either)]
    refine atCursor_setStart.mpr ⟨Eq.trans ?_ moved.1.symm, row.trans moved.2.symm⟩
    dsimp only
    omega

theorem atCursor_writeBytes (onScreen : OnScreen tty.console) (at_ : AtCursor tty)
    (returns : ReturnsAtEdge tty.console.screenX bytes) :
    AtCursor (bytes.foldl (writeByte tty.currTerminal) tty) := by
  induction bytes generalizing tty with
  | nil => exact at_
  | cons c bytes ih =>
      obtain ⟨edge, rest⟩ := returns
      have here : (writeByte tty.currTerminal tty c).currTerminal = tty.currTerminal :=
        currTerminal_of_keyboard (keyboard_terminalWrite [c])
      have console : (writeByte tty.currTerminal tty c).console = putc c tty.console := by
        rw [writeByte]
        dsimp only
        split <;> rfl
      have moved : (putc c tty.console).screenX =
          if c = 10 ∨ c = 13 ∨ tty.console.screenX = 79 then 0 else tty.console.screenX + 1 :=
        (congrArg Prod.fst (position_putc onScreen)).trans (apply_ite Prod.fst ..)
      have later : AtCursor (bytes.foldl (writeByte (writeByte tty.currTerminal tty c).currTerminal)
          (writeByte tty.currTerminal tty c)) := by
        refine ih (console ▸ putc_onScreen onScreen) (atCursor_writeByte onScreen at_ edge) ?_
        rwa [console, moved]
      rwa [here] at later

theorem Tracks.step (ok : OriginOk tty) (tracks : Tracks tty) {event : LineEvent}
    (keeps : Keeps tty event) (done : tty.lineStep event = some next) : Tracks next := by
  cases event with
  | key code => exact (tracks_key_iff ok tracks done).mpr keeps
  | write buf =>
      cases done
      intro empty
      have kept : (tty.terminalWrite buf).keyboard = tty.keyboard := keyboard_terminalWrite buf
      have none : tty.curBufferSize tty.currTerminal = 0 :=
        (congrArg (fun keyboard => (keyboard.lines keyboard.current).size) kept).symm.trans empty
      exact atCursor_writeBytes ok.onScreen (tracks none) (keeps none)

theorem Tracks.run (ok : OriginOk tty) (tracks : Tracks tty) {events : List LineEvent}
    (path : Path lineStep Keeps tty events last) : Tracks last := by
  have kept := path.preserves (fun tty => OriginOk tty ∧ Tracks tty)
    (fun tty event next keeps fine done => ⟨fine.1.step done, fine.2.step fine.1 keeps done⟩)
    ⟨ok, tracks⟩
  exact kept.2

/-- The origin tracks the cursor as long as every step keeps it, from the start and from any
state where it does; a key that does not keep it loses it there. -/
theorem lineOrigin_tracks {first : Tty} (fresh : FreshLine first) :
    (∀ events last, Path lineStep Keeps first events last → Tracks last) ∧
    ∀ events middle, Path lineStep (fun _ _ => True) first events middle → Tracks middle →
      (∀ later last, Path lineStep Keeps middle later last → Tracks last) ∧
      ∀ code next, middle.lineStep (.key code) = some next →
        (Tracks next ↔ Keeps middle (.key code)) := by
  refine ⟨fun events last path => fresh.tracks.run fresh.originOk path,
    fun events middle path tracks => ?_⟩
  have ok := path.preserves OriginOk (fun tty event next _ fine done => fine.step done) fresh.originOk
  exact ⟨fun later last path => tracks.run ok path, fun code next done => tracks_key_iff ok tracks done⟩

instance decidableReturnsAtEdge : (column : Int) → (bytes : List UInt8) →
    Decidable (ReturnsAtEdge column bytes)
  | _, [] => isTrue trivial
  | _, _ :: bytes => @instDecidableAnd _ _ _ (decidableReturnsAtEdge _ bytes)

instance (code : UInt8) (tty : Tty) : Decidable (Clears code tty) :=
  inferInstanceAs (Decidable (_ ∧ _ ∧ _))

instance : (tty : Tty) → (event : LineEvent) → Decidable (Keeps tty event)
  | _, .key _ => inferInstanceAs (Decidable (_ ∧ _ ∧ _))
  | tty, .write buf => inferInstanceAs (Decidable (_ → ReturnsAtEdge tty.console.screenX buf))

theorem promptTty_fresh : FreshLine (promptTty 0) :=
  ⟨rfl, rfl, rfl, rfl, rfl, fun _ _ => rfl⟩

def promptEvents : List LineEvent :=
  [.write (ascii ['a', 'b', '\n']), .key ctrl, .key keyL, .key 0x9D]

theorem lineOrigin_prompt :
    ∃ last, Path lineStep (fun _ _ => True) (promptTty 0) promptEvents last ∧
      last.curBufferSize last.currTerminal = 0 ∧ Tracks last := by
  have ran : (runWhere lineStep Keeps (promptTty 0) promptEvents).map
      (fun tty => decide (tty.curBufferSize tty.currTerminal = 0)) = some true := by decide +kernel
  obtain ⟨last, computed, empty⟩ := Option.map_eq_some_iff.mp ran
  have path := runWhere_path computed
  exact ⟨last, path.mono fun _ _ _ => trivial, of_decide_eq_true empty,
    (lineOrigin_tracks promptTty_fresh).1 _ _ path⟩

/-- ENTER on the empty line leaves the origin at the row above the cursor. -/
theorem lineOrigin_enter :
    ¬∀ (first last : Tty) (events : List LineEvent), FreshLine first →
      Path lineStep (fun _ _ => True) first events last → Tracks last := by
  have ran : (runWhere lineStep (fun _ _ => True) (promptTty 0) [.key enter]).map
      (fun tty => decide (tty.curBufferSize tty.currTerminal = 0 ∧
        (tty.startPosition tty.currTerminal).yCoord = 0 ∧ tty.console.screenY = 1)) = some true := by
    decide +kernel
  intro claimed
  obtain ⟨last, computed, checks⟩ := Option.map_eq_some_iff.mp ran
  obtain ⟨empty, origin, row⟩ := of_decide_eq_true checks
  have same := (claimed _ last _ promptTty_fresh (runWhere_path computed) empty).2
  rw [origin, row] at same
  exact absurd same (by decide)

end Tty

theorem Kernel.writesAtStart_of_tracks {k : Kernel} (onScreen : OnScreen k.tty.console)
    (tracks : k.tty.Tracks) (empty : k.tty.curBufferSize k.current = 0) : WritesAtStart k :=
  Tty.position_recallStart onScreen (tracks empty)

end G29Os
