import G29Os.CursorText
import G29Os.LineEditor

/-!
The line being typed against its place on the screen: where a redraw begins, and which keys
leave the characters of the line, and nothing else, behind the prompt.
-/

namespace G29Os

open Console StepRun

/-! ### Positions as cells -/

def positionOf (cell : Nat) : Position where
  xCoord := UInt8.ofNat (cell % 80)
  yCoord := UInt8.ofNat (cell / 80)

theorem xCoord_positionOf (cell : Nat) : (positionOf cell).xCoord.toNat = cell % 80 :=
  UInt8.toNat_ofNat_of_lt' (by change _ < 2 ^ 8; omega)

theorem yCoord_positionOf {cell : Nat} (inside : cell < 2000) :
    (positionOf cell).yCoord.toNat = cell / 80 :=
  UInt8.toNat_ofNat_of_lt' (by change _ < 2 ^ 8; omega)

theorem Console.AtCell.position {cell : Nat} {console : Console} (at_ : AtCell cell console) :
    getCurPosition console = positionOf cell := by
  have inside := at_.inside
  have column : (console.screenX % 256).toNat = cell % 80 := by
    rw [at_.column]
    omega
  have row : (console.screenY % 256).toNat = cell / 80 := by
    rw [at_.row]
    omega
  rw [getCurPosition, column, row, positionOf]

theorem setNewPosition_positionOf {cell : Nat} (inside : cell < 2000) (console : Console) :
    AtCell cell (setNewPosition (positionOf cell).xCoord.toNat (positionOf cell).yCoord.toNat console) := by
  have moved := @setNewPosition_atCell console (cell % 80) (cell / 80) (by omega) (by omega)
  rw [xCoord_positionOf, yCoord_positionOf inside]
  rwa [show 80 * (cell / 80) + cell % 80 = cell by omega] at moved

theorem LineState.typed_drop {state : LineState} (offset : Nat) :
    state.typed.drop offset =
      (List.range (state.size - offset)).map fun index => state.line (offset + index) := by
  apply List.ext_getElem
  · simp
  · intro index bound bound'
    rw [List.getElem_drop, typed_getElem, List.getElem_map, List.getElem_range]

theorem LineOk.printed {state : LineState} (fine : LineOk state) {offset : Nat}
    (low : offset ≤ state.typed.length) :
    cString (lineBuffer - offset) (fun index => state.line (offset + index)) =
      state.typed.drop offset := by
  have short := fine.short
  rw [LineState.typed_length] at low
  rw [cString_eq (by simp only [lineBuffer]; omega : state.size - offset < lineBuffer - offset)
    (fun index bound => fine.text _ (by omega))
    (fine.blank _ (by omega) (by simp only [lineBuffer]; omega)), LineState.typed_drop]

namespace Tty

variable {tty next : Tty} {terminal : TerminalId} {base offset : Nat} {start : Console} {c : UInt8}

def typedLine (tty : Tty) : List UInt8 := (tty.lineState tty.currTerminal).typed

structure LineShown (base : Nat) (start : Console) (tty : Tty) : Prop where
  line : LineOk (tty.lineState tty.currTerminal)
  printed : ∀ c ∈ tty.typedLine, ¬(c = 10 ∨ c = 13)
  shown : Shown base tty.typedLine start tty.console

structure Aligned (base offset : Nat) (tty : Tty) : Prop where
  low : offset ≤ tty.typedLine.length
  buffered : tty.bufOffset.toNat = offset
  start : tty.startPosition tty.currTerminal = positionOf (base + offset)

def OnRow (base offset length : Nat) : Prop :=
  offset = 0 ∧ base % 80 + length < 80 ∨ offset = 73 ∧ base % 80 = 7

/-- Where the next redraw begins: at the start of the line while it has not reached the end of
its first row; on the second row only a line that began behind the prompt is right. -/
structure Redraws (base : Nat) (tty : Tty) : Prop where
  first : base % 80 + tty.typedLine.length < 80 →
    tty.bufOffset = 0 ∧ (0 < tty.typedLine.length → tty.startPosition tty.currTerminal = positionOf base)
  second : 80 ≤ base % 80 + tty.typedLine.length → base % 80 = 7 →
    tty.bufOffset = 73 ∧ tty.startPosition tty.currTerminal = positionOf (base + 73)

theorem Redraws.aligned (redraws : Redraws base tty) (typed : 0 < tty.typedLine.length)
    (fits : 80 ≤ base % 80 + tty.typedLine.length → base % 80 = 7) :
    ∃ offset, Aligned base offset tty ∧ OnRow base offset tty.typedLine.length := by
  by_cases early : base % 80 + tty.typedLine.length < 80
  · obtain ⟨zero, began⟩ := redraws.first early
    exact ⟨0, ⟨Nat.zero_le _, by rw [zero]; rfl, began typed⟩, Or.inl ⟨rfl, early⟩⟩
  · have behind := fits (by omega)
    obtain ⟨wrapped, began⟩ := redraws.second (by omega) behind
    exact ⟨73, ⟨by omega, by rw [wrapped]; rfl, began⟩, Or.inr ⟨rfl, behind⟩⟩

theorem Aligned.redraws (aligned : Aligned base offset tty)
    (first : base % 80 + tty.typedLine.length < 80 → offset = 0)
    (second : 80 ≤ base % 80 + tty.typedLine.length → base % 80 = 7 → offset = 73) :
    Redraws base tty := by
  constructor
  · intro early
    obtain rfl := first early
    exact ⟨UInt8.toNat_inj.mp aligned.buffered, fun _ => aligned.start⟩
  · intro late behind
    obtain rfl := second late behind
    exact ⟨UInt8.toNat_inj.mp aligned.buffered, aligned.start⟩

theorem Aligned.print (aligned : Aligned base offset tty) (inside : base + offset < 2000)
    (fine : LineOk (tty.lineState tty.currTerminal)) :
    ∃ moved, AtCell (base + offset) moved ∧
      (∀ cell, moved.charAt cell = tty.console.charAt cell) ∧
        (printLineBuffer tty.bufOffset tty.currTerminal tty).console =
          puts (tty.typedLine.drop offset) moved := by
  refine ⟨_, setNewPosition_positionOf inside tty.console, fun cell => charAt_setNewPosition, ?_⟩
  have text := fine.printed aligned.low
  rw [printLineBuffer]
  simp only [mapConsole, aligned.start, aligned.buffered]
  exact congrArg (fun line => puts line _) text

/-! ### A letter -/

theorem typedLine_insertChar (fine : LineOk (tty.lineState tty.currTerminal)) :
    (insertChar tty.currTerminal c tty).typedLine = tty.typedLine ++ [c] := by
  have inserted := lineState_changed (@keyboard_insertChar tty.currTerminal tty c)
  have here := (@SameScreen.insertChar tty.currTerminal tty c).current
  rw [typedLine, here, inserted, fine.typed_insert]
  rfl

theorem LineShown.insert (view : LineShown base start tty) (aligned : Aligned base offset tty)
    (real : c ≠ 0) (printed : ¬(c = 10 ∨ c = 13)) (short : tty.typedLine.length ≤ 125)
    (room : base + tty.typedLine.length + 1 < 2000) :
    LineShown base start (printLineBuffer (insertChar tty.currTerminal c tty).bufOffset
      tty.currTerminal (insertChar tty.currTerminal c tty)) := by
  have typed := @typedLine_insertChar tty c view.line
  have same := @SameScreen.insertChar tty.currTerminal tty c
  have inserted := lineState_changed (@keyboard_insertChar tty.currTerminal tty c)
  generalize insertChar tty.currTerminal c tty = next at typed same inserted ⊢
  have line : LineOk (next.lineState next.currTerminal) := by
    rw [same.current, inserted]
    exact view.line.insert (by rwa [← LineState.typed_length]) real
  have letters : ∀ d ∈ next.typedLine, ¬(d = 10 ∨ d = 13) := by
    intro d member
    rw [typed] at member
    rcases List.mem_append.mp member with old | new
    · exact view.printed d old
    · rwa [List.mem_singleton.mp new]
  have low := aligned.low
  have aligned' : Aligned base offset next := by
    refine ⟨?_, ?_, ?_⟩
    · rw [typed, List.length_append]
      omega
    · rw [same.offset]
      exact aligned.buffered
    · rw [same.start, same.current]
      exact aligned.start
  obtain ⟨moved, at_, kept, drawn⟩ := aligned'.print (by omega) line
  rw [same.current] at drawn
  refine ⟨line, letters, ?_⟩
  change Shown base next.typedLine start _
  rw [drawn, typed]
  refine view.shown.append (typed ▸ letters) room low at_ fun cell => ?_
  rw [kept, same.console]

theorem LineShown.moved {next : Tty} (view : LineShown base start tty)
    (lines : next.lineState = tty.lineState) (current : next.currTerminal = tty.currTerminal)
    (cursor : AtCell (base + tty.typedLine.length) next.console)
    (same : ∀ cell, next.console.charAt cell = tty.console.charAt cell) :
    LineShown base start next := by
  have typed : next.typedLine = tty.typedLine := by rw [typedLine, typedLine, lines, current]
  refine ⟨?_, typed ▸ view.printed, typed ▸ view.shown.congr cursor same⟩
  rw [lines, current]
  exact view.line

theorem LineShown.advance {length : Nat} (view : LineShown base start tty)
    (aligned : Aligned base offset tty) (row : OnRow base offset length) (low : offset ≤ length)
    (longer : tty.typedLine.length = length + 1) (short : length ≤ 125) :
    LineShown base start
        (advanceCursor tty.currTerminal (positionOf (base + length)) tty) ∧
      Redraws base (advanceCursor tty.currTerminal (positionOf (base + length)) tty) := by
  have inside := view.shown.cursor.inside
  rw [longer] at inside
  have column := xCoord_positionOf (base + length)
  have line := @yCoord_positionOf (base + length) (by omega)
  by_cases room : (base + length) % 80 + 1 < 80
  · have next : advanceCursor tty.currTerminal (positionOf (base + length)) tty =
        tty.mapConsole (setNewPosition ((base + length) % 80 + 1 : Nat) ((base + length) / 80 : Nat)) := by
      rw [advanceCursor, column, line, if_pos (by simp only [numCols]; omega)]
      rfl
    have at_ := @setNewPosition_atCell tty.console ((base + length) % 80 + 1) ((base + length) / 80)
      (by omega) (by omega)
    rw [next]
    rw [show 80 * ((base + length) / 80) + ((base + length) % 80 + 1) = base + (length + 1) by omega]
      at at_
    have still : Aligned base offset (tty.mapConsole
        (setNewPosition ((base + length) % 80 + 1 : Nat) ((base + length) / 80 : Nat))) :=
      ⟨aligned.low, aligned.buffered, aligned.start⟩
    refine ⟨view.moved rfl rfl (longer.symm ▸ at_) fun cell => charAt_setNewPosition,
      still.redraws (fun early => ?_) (fun late behind => ?_)⟩
    · have early' : base % 80 + (length + 1) < 80 := longer ▸ early
      rw [OnRow] at row
      omega
    · have late' : 80 ≤ base % 80 + (length + 1) := longer ▸ late
      rw [OnRow] at row
      omega
  · obtain ⟨rfl, first⟩ : offset = 0 ∧ base % 80 + length < 80 := by
      rcases row with first | ⟨rfl, behind⟩
      · exact first
      · omega
    have wrapped : ({ xCoord := 0, yCoord := (tty.startPosition tty.currTerminal).yCoord + 1 } : Position) =
        positionOf (base + (length + 1)) := by
      have zero : (base + (length + 1)) % 80 = 0 := by omega
      have below : (base + (length + 1)) / 80 = base / 80 + 1 := by omega
      rw [aligned.start, positionOf, positionOf, zero, below, UInt8.ofNat_add]
      rfl
    have next : advanceCursor tty.currTerminal (positionOf (base + length)) tty =
        setBufOffset 73 ((setStart tty.currTerminal (positionOf (base + (length + 1))) tty).mapConsole
          (setNewPosition (positionOf (base + (length + 1))).xCoord.toNat
            (positionOf (base + (length + 1))).yCoord.toNat)) := by
      rw [← wrapped, advanceCursor, column, if_neg (by simp only [numCols]; omega)]
    rw [next]
    refine ⟨view.moved rfl rfl ?_ fun cell => charAt_setNewPosition, ?_, ?_⟩
    · rw [longer]
      exact setNewPosition_positionOf inside tty.console
    · intro early
      have early' : base % 80 + (length + 1) < 80 := longer ▸ early
      omega
    · intro late behind
      refine ⟨rfl, ?_⟩
      rw [show base + 73 = base + (length + 1) by omega]
      exact Function.update_self ..

/-! ### BACKSPACE -/

def shortened (tty : Tty) : Tty := closeGap tty.currTerminal (dropCounts tty.currTerminal tty)

theorem shortened_eq (kept : ¬unwrapsRow tty.currTerminal (dropCounts tty.currTerminal tty)) :
    closeGap tty.currTerminal (unwrapStart tty.currTerminal (dropCounts tty.currTerminal tty)) =
      tty.shortened := by
  rw [unwrapStart, if_neg kept]
  rfl

theorem doBackspace_eq (typed : tty.curBufferPosition tty.currTerminal > 0)
    (kept : ¬unwrapsRow tty.currTerminal (dropCounts tty.currTerminal tty))
    (column : (getCurPosition tty.console).xCoord > 0) :
    doBackspace tty.currTerminal tty =
      (((printLineBuffer tty.shortened.bufOffset tty.currTerminal tty.shortened).mapConsole
        (putc 32)).mapConsole (setNewPosition ((getCurPosition tty.console).xCoord.toNat - 1)
          (getCurPosition tty.console).yCoord.toNat)) := by
  rw [doBackspace, if_pos typed]
  simp only [shortened_eq kept, if_neg kept, if_pos column]

theorem shortened_screen : SameScreen tty tty.shortened :=
  SameScreen.dropCounts.trans SameScreen.closeGap

theorem typedLine_shortened (fine : LineOk (tty.lineState tty.currTerminal))
    (typed : tty.curBufferPosition tty.currTerminal > 0)
    (kept : ¬unwrapsRow tty.currTerminal (dropCounts tty.currTerminal tty)) :
    LineOk (tty.shortened.lineState tty.shortened.currTerminal) ∧
      tty.shortened.typedLine = tty.typedLine.dropLast := by
  have here := (@shortened_screen tty).current
  have lines : tty.shortened.lineState tty.currTerminal =
      (tty.lineState tty.currTerminal).backspace := by
    rw [← shortened_eq kept]
    exact lineState_changed (keyboard_erased typed)
  constructor
  · rw [here, lines]
    exact fine.backspace
  · rw [typedLine, here, lines, fine.typed_backspace]
    rfl

theorem LineShown.erase {length : Nat} (view : LineShown base start tty)
    (aligned : Aligned base offset tty) (row : OnRow base offset length)
    (typed : tty.typedLine.length = length) (low : offset < length) (other : length ≠ 80) :
    LineShown base start (doBackspace tty.currTerminal tty) ∧
      Redraws base (doBackspace tty.currTerminal tty) := by
  have size : (tty.lineState tty.currTerminal).size = length := by
    rw [← typed, typedLine, LineState.typed_length]
  have position : tty.curBufferPosition tty.currTerminal = length := view.line.counters.trans size
  have short : length ≤ 126 := size ▸ view.line.short
  have inside := view.shown.cursor.inside
  rw [typed] at inside
  have some_ : tty.curBufferPosition tty.currTerminal > 0 := by omega
  have kept : ¬unwrapsRow tty.currTerminal (dropCounts tty.currTerminal tty) := by
    rw [unwrapsRow, dropCounts]
    simp only [setSize, setPosition, Function.update_self, position]
    omega
  have here : getCurPosition tty.console = positionOf (base + length) := typed ▸ view.shown.cursor.position
  have column := xCoord_positionOf (base + length)
  have line := @yCoord_positionOf (base + length) inside
  have behind : (base + length) % 80 > 0 := by
    rcases row with ⟨rfl, first⟩ | ⟨rfl, second⟩ <;> omega
  have right : (getCurPosition tty.console).xCoord > 0 := by
    rw [here, gt_iff_lt, UInt8.lt_iff_toNat_lt, column]
    exact behind
  rw [doBackspace_eq some_ kept right, here, column, line]
  have same := @shortened_screen tty
  obtain ⟨fine, rest⟩ := typedLine_shortened view.line some_ kept
  generalize tty.shortened = gap at same fine rest ⊢
  have shorter : gap.typedLine.length = length - 1 := by rw [rest, List.length_dropLast, typed]
  have aligned' : Aligned base offset gap :=
    ⟨by omega, by rw [same.offset]; exact aligned.buffered,
      by rw [same.start, same.current]; exact aligned.start⟩
  obtain ⟨moved, at_, old, drawn⟩ := aligned'.print (by omega) fine
  rw [same.current, rest] at drawn
  have left : (((base + length) % 80 : Nat) : Int) - 1 = ((base + length) % 80 - 1 : Nat) := by omega
  rw [left]
  have back := @setNewPosition_atCell (putc 32 (puts (tty.typedLine.dropLast.drop offset) moved))
    ((base + length) % 80 - 1) ((base + length) / 80) (by omega) (by omega)
  rw [show 80 * ((base + length) / 80) + ((base + length) % 80 - 1) = base + (length - 1) by omega]
    at back
  rw [← typed] at back
  have shown := view.shown.dropLast (by omega) (by omega) view.printed at_
    (fun cell => by rw [old, same.console]) back fun cell => charAt_setNewPosition
  have finished : ((printLineBuffer gap.bufOffset tty.currTerminal gap).mapConsole (putc 32)).console =
      putc 32 (puts (tty.typedLine.dropLast.drop offset) moved) := congrArg (putc 32) drawn
  refine ⟨⟨fine, ?_, ?_⟩, Aligned.redraws ⟨aligned'.low, aligned'.buffered, aligned'.start⟩
    (fun early => ?_) (fun late second => ?_)⟩
  · intro c member
    change c ∈ gap.typedLine at member
    rw [rest] at member
    exact view.printed c (List.dropLast_subset _ member)
  · change Shown base gap.typedLine start (setNewPosition _ _ _)
    rw [rest, finished, ← typed]
    exact shown
  · have early' : base % 80 + (length - 1) < 80 := shorter ▸ early
    rw [OnRow] at row
    omega
  · have late' : 80 ≤ base % 80 + (length - 1) := shorter ▸ late
    rw [OnRow] at row
    omega

/-! ### A key -/

theorem LineShown.same (view : LineShown base start tty) (same : SameScreen tty next)
    (lines : next.lineState = tty.lineState) : LineShown base start next := by
  refine view.moved lines same.current ?_ fun cell => by rw [same.console]
  rw [same.console]
  exact view.shown.cursor

theorem Redraws.same (redraws : Redraws base tty) (same : SameScreen tty next)
    (lines : next.lineState = tty.lineState) : Redraws base next := by
  have typed : next.typedLine = tty.typedLine := by rw [typedLine, typedLine, lines, same.current]
  constructor
  · rw [typed, same.offset, same.start, same.current]
    exact redraws.first
  · rw [typed, same.offset, same.start, same.current]
    exact redraws.second

def startLine (current : Position) (tty : Tty) : Tty :=
  if tty.curBufferSize tty.currTerminal = 0 then setStart tty.currTerminal current tty else tty

theorem typeKey_eq (code : UInt8) (current : Position) :
    typeKey tty.currTerminal code current tty =
      if code ≤ space then
        if tty.modifiers.character code ≠ 0 then
          let typed := insertChar tty.currTerminal (tty.modifiers.character code)
            (tty.startLine current)
          advanceCursor tty.currTerminal current
            (printLineBuffer typed.bufOffset tty.currTerminal typed)
        else tty.startLine current
      else tty := by
  have modifiers : (tty.startLine current).modifiers = tty.modifiers := by
    rw [startLine]
    split <;> rfl
  rw [← modifiers]
  rfl

theorem startLine_eq {current : Position} :
    (tty.startLine current).currTerminal = tty.currTerminal ∧
      (tty.startLine current).console = tty.console ∧
        (tty.startLine current).lineState = tty.lineState ∧
          (tty.startLine current).bufOffset = tty.bufOffset := by
  rw [startLine]
  split <;> exact ⟨rfl, rfl, rfl, rfl⟩

theorem LineShown.startLine {current : Position} (view : LineShown base start tty) :
    LineShown base start (tty.startLine current) := by
  obtain ⟨front, console, lines, -⟩ := @startLine_eq tty current
  refine view.moved lines front ?_ fun cell => by rw [console]
  rw [console]
  exact view.shown.cursor

theorem Redraws.startLine {current : Position} (redraws : Redraws base tty) :
    Redraws base (tty.startLine current) := by
  rw [Tty.startLine]
  split
  · rename_i empty
    have none : tty.typedLine.length = 0 := LineState.typed_length.trans empty
    constructor
    · intro early
      exact ⟨(redraws.first early).1, fun some_ => absurd none (Nat.ne_of_gt some_)⟩
    · intro late
      have late' : 80 ≤ base % 80 + tty.typedLine.length := late
      omega
  · exact redraws

theorem Redraws.alignedAt (redraws : Redraws base tty)
    (fits : 80 ≤ base % 80 + tty.typedLine.length → base % 80 = 7) :
    ∃ offset, Aligned base offset (tty.startLine (positionOf (base + tty.typedLine.length))) ∧
      OnRow base offset tty.typedLine.length := by
  rw [Tty.startLine]
  split
  · rename_i empty
    have none : tty.typedLine.length = 0 := LineState.typed_length.trans empty
    obtain ⟨zero, -⟩ := redraws.first (by omega)
    refine ⟨0, ⟨Nat.zero_le _, congrArg UInt8.toNat zero, ?_⟩, Or.inl ⟨rfl, by omega⟩⟩
    rw [none]
    exact Function.update_self ..
  · rename_i typed
    have some_ : tty.typedLine.length ≠ 0 := fun zero => typed (LineState.typed_length.symm.trans zero)
    exact redraws.aligned (Nat.pos_of_ne_zero some_) fits

theorem LineShown.typed (view : LineShown base start tty) (aligned : Aligned base offset tty)
    (row : OnRow base offset tty.typedLine.length) (real : c ≠ 0) (printed : ¬(c = 10 ∨ c = 13))
    (short : tty.typedLine.length ≤ 125) (room : base + tty.typedLine.length + 1 < 2000) :
    let typed := insertChar tty.currTerminal c tty
    let shown := advanceCursor tty.currTerminal (positionOf (base + tty.typedLine.length))
      (printLineBuffer typed.bufOffset tty.currTerminal typed)
    LineShown base start shown ∧ Redraws base shown := by
  intro typed
  have drawn : LineShown base start (printLineBuffer typed.bufOffset tty.currTerminal typed) :=
    view.insert aligned real printed short room
  have same : SameScreen tty typed := SameScreen.insertChar
  have longer : typed.typedLine.length = tty.typedLine.length + 1 := by
    rw [typedLine_insertChar view.line, List.length_append, List.length_singleton]
  have low := aligned.low
  have front : (printLineBuffer typed.bufOffset tty.currTerminal typed).currTerminal =
      tty.currTerminal := same.current
  have aligned' : Aligned base offset (printLineBuffer typed.bufOffset tty.currTerminal typed) := by
    refine ⟨?_, ?_, ?_⟩
    · change offset ≤ typed.typedLine.length
      omega
    · change typed.bufOffset.toNat = offset
      rw [same.offset]
      exact aligned.buffered
    · change typed.startPosition typed.currTerminal = _
      rw [same.start, same.current]
      exact aligned.start
  have advanced := drawn.advance aligned' row low longer short
  rwa [front] at advanced

theorem LineShown.letter {length : Nat} (view : LineShown base start tty) (redraws : Redraws base tty)
    (typed : tty.typedLine.length = length) (fits : 80 ≤ base % 80 + length → base % 80 = 7)
    (real : c ≠ 0) (printed : ¬(c = 10 ∨ c = 13)) (short : length ≤ 125)
    (room : base + length + 1 < 2000) :
    let typed := insertChar tty.currTerminal c (tty.startLine (positionOf (base + length)))
    let shown := advanceCursor tty.currTerminal (positionOf (base + length))
      (printLineBuffer typed.bufOffset tty.currTerminal typed)
    LineShown base start shown ∧ Redraws base shown := by
  subst typed
  obtain ⟨offset, aligned, row⟩ := redraws.alignedAt fits
  have begun := @LineShown.startLine tty base start (positionOf (base + tty.typedLine.length)) view
  obtain ⟨front, -, lines, -⟩ := @startLine_eq tty (positionOf (base + tty.typedLine.length))
  generalize tty.startLine (positionOf (base + tty.typedLine.length)) = first at aligned begun front lines ⊢
  have same : first.typedLine = tty.typedLine := by rw [typedLine, typedLine, lines, front]
  have shown := begun.typed aligned (same ▸ row) real printed (same ▸ short) (same ▸ room)
  rwa [front, same] at shown

theorem character_printed (modifiers : Modifiers) (code : UInt8) :
    ¬(modifiers.character code = 10 ∨ modifiers.character code = 13) := by
  have plain (table : List Char)
      (letters : table.all (fun letter =>
        ¬(UInt8.ofNat letter.toNat = 10 ∨ UInt8.ofNat letter.toNat = 13)) = true) :
      ¬(UInt8.ofNat (table.getD code.toNat nul).toNat = 10 ∨
        UInt8.ofNat (table.getD code.toNat nul).toNat = 13) := by
    rw [List.getD_eq_getElem?_getD]
    cases found : table[code.toNat]? with
    | none => decide
    | some letter =>
        exact of_decide_eq_true (List.all_eq_true.mp letters letter (List.mem_of_getElem? found))
  rw [Modifiers.character, Modifiers.table]
  split_ifs
  · exact plain lowercaseChar rfl
  · exact plain capsShiftChar rfl
  · exact plain capsChar rfl
  · exact plain uppercaseChar rfl

/-- A key for the line: not ENTER, no switch or Ctrl-L, and a letter only with a next cell on
the screen. -/
def LineKey (base : Nat) (tty : Tty) (code : UInt8) : Prop :=
  code ≠ enter ∧ ¬(tty.modifiers.key code).alt ∧ ¬((tty.modifiers.key code).ctrl ∧ code = keyL) ∧
    (LineEditor.Types code (tty.modifiers.key code) tty.typedLine →
      base + tty.typedLine.length + 1 < 2000)

/-- On a line that has reached the end of its first row, a key that works on the line does so
right behind a prompt of 7 characters, and if it is not a BACKSPACE over the end of a row. -/
def KeepsRows (base : Nat) (tty : Tty) (code : UInt8) : Prop :=
  80 ≤ base % 80 + tty.typedLine.length →
    (code = backspace ∨ LineEditor.Types code (tty.modifiers.key code) tty.typedLine) →
      base % 80 = 7 ∧ (code = backspace → tty.typedLine.length ≠ 73 ∧ tty.typedLine.length ≠ 80)

theorem held_backspace (view : LineShown base start tty) (redraws : Redraws base tty)
    (keeps : KeepsRows base tty backspace) :
    LineShown base start (heldKeys backspace tty) ∧ Redraws base (heldKeys backspace tty) := by
  let masked := tty.mapPic (disableIrq keyboardIrq)
  have first : SameScreen tty masked := ⟨rfl, rfl, rfl, rfl, rfl⟩
  have view' : LineShown base start masked := view.same first rfl
  have redraws' : Redraws base masked := redraws.same first rfl
  have pressed : LineShown base start (doBackspace masked.currTerminal masked) ∧
      Redraws base (doBackspace masked.currTerminal masked) := by
    by_cases empty : tty.typedLine.length = 0
    · have none : ¬masked.curBufferPosition masked.currTerminal > 0 := by
        have counters : tty.curBufferPosition tty.currTerminal = tty.curBufferSize tty.currTerminal :=
          view.line.counters
        have zero : tty.curBufferSize tty.currTerminal = 0 := LineState.typed_length.symm.trans empty
        change ¬tty.curBufferPosition tty.currTerminal > 0
        omega
      rw [doBackspace, if_neg none]
      exact ⟨view', redraws'⟩
    · obtain ⟨offset, aligned, row⟩ := redraws'.aligned (Nat.pos_of_ne_zero empty)
        fun late => (keeps late (Or.inl rfl)).1
      have low := aligned.low
      have same : masked.typedLine = tty.typedLine := rfl
      rw [same] at low row
      have ends (late : 80 ≤ base % 80 + tty.typedLine.length) := (keeps late (Or.inl rfl)).2 rfl
      refine view'.erase aligned row rfl ?_ ?_
      · rcases row with ⟨rfl, -⟩ | ⟨rfl, behind⟩
        · exact Nat.pos_of_ne_zero empty
        · have := ends
          omega
      · have := ends
        rcases row with ⟨-, early⟩ | ⟨-, behind⟩ <;> omega
  have held : heldKeys backspace tty =
      setModifiers ((doBackspace masked.currTerminal masked).modifiers.release backspace)
        (doBackspace masked.currTerminal masked) := by
    rw [heldKeys, releaseKey_eq]
    rfl
  rw [held]
  exact ⟨pressed.1.same ⟨rfl, rfl, rfl, rfl, rfl⟩ rfl, pressed.2.same ⟨rfl, rfl, rfl, rfl, rfl⟩ rfl⟩

theorem held_other {code : UInt8} (view : LineShown base start tty) (redraws : Redraws base tty)
    (ends : code ≠ enter) (erases : code ≠ backspace) :
    LineShown base start (heldKeys code tty) ∧ Redraws base (heldKeys code tty) := by
  rw [heldKeys_eq ends erases]
  exact ⟨view.same ⟨rfl, rfl, rfl, rfl, rfl⟩ rfl, redraws.same ⟨rfl, rfl, rfl, rfl, rfl⟩ rfl⟩

theorem typeKey_silent {code : UInt8} {current : Position} (view : LineShown base start tty)
    (redraws : Redraws base tty) (silent : ¬(code ≤ space ∧ tty.modifiers.character code ≠ 0)) :
    LineShown base start (typeKey tty.currTerminal code current tty) ∧
      Redraws base (typeKey tty.currTerminal code current tty) := by
  rw [typeKey_eq]
  by_cases printable : code ≤ space
  · have unmapped : ¬tty.modifiers.character code ≠ 0 := fun real => silent ⟨printable, real⟩
    rw [if_pos printable, if_neg unmapped]
    exact ⟨view.startLine, redraws.startLine⟩
  · rw [if_neg printable]
    exact ⟨view, redraws⟩

theorem typeKey_typed {code : UInt8} (view : LineShown base start tty) (redraws : Redraws base tty)
    (printable : code ≤ space) (real : tty.modifiers.character code ≠ 0)
    (fits : 80 ≤ base % 80 + tty.typedLine.length → base % 80 = 7)
    (short : tty.typedLine.length ≤ 125) (room : base + tty.typedLine.length + 1 < 2000) :
    LineShown base start
        (typeKey tty.currTerminal code (positionOf (base + tty.typedLine.length)) tty) ∧
      Redraws base (typeKey tty.currTerminal code (positionOf (base + tty.typedLine.length)) tty) := by
  rw [typeKey_eq, if_pos printable, if_pos real]
  exact view.letter redraws rfl fits real (character_printed _ _) short room

theorem LineShown.key {code : UInt8} (view : LineShown base start tty) (redraws : Redraws base tty)
    (key : LineKey base tty code) (keeps : KeepsRows base tty code) :
    LineShown base start (tty.afterKey code) ∧ Redraws base (tty.afterKey code) := by
  obtain ⟨ends, altUp, unclear, room⟩ := key
  have front : (heldKeys code tty).currTerminal = tty.currTerminal := currTerminal_heldKeys code
  have modifiers := @modifiers_heldKeys tty code
  have alt := @altPressed_heldKeys tty code
  have ctrl := @ctrlPressed_heldKeys tty code
  have held : LineShown base start (heldKeys code tty) ∧ Redraws base (heldKeys code tty) := by
    by_cases erases : code = backspace
    · subst erases
      exact held_backspace view redraws keeps
    · exact held_other view redraws ends erases
  have finished {tty : Tty} (held : LineShown base start tty ∧ Redraws base tty) :
      LineShown base start tty.finishKey ∧ Redraws base tty.finishKey :=
    ⟨held.1.same ⟨rfl, rfl, rfl, rfl, rfl⟩ rfl, held.2.same ⟨rfl, rfl, rfl, rfl, rfl⟩ rfl⟩
  rw [afterKey_eq]
  have handled := @keyboardHandler_handled tty code
  generalize tty.keyboardHandler code = outcome at handled ⊢
  cases handled with
  | held altDown => exact absurd (alt ▸ altDown) altUp
  | here altDown => exact absurd (alt ▸ altDown) altUp
  | switched altDown => exact absurd (alt ▸ altDown) altUp
  | clears _ asked => exact absurd (ctrl ▸ asked) unclear
  | full => exact finished held
  | types _ _ shorter =>
      refine finished ?_
      rw [← front]
      by_cases types : code ≤ space ∧ (heldKeys code tty).modifiers.character code ≠ 0
      · have erases : code ≠ backspace := by
          rintro rfl
          refine types.2 ?_
          rw [Modifiers.character, LineState.table_unprinted (Or.inr rfl)]
          rfl
        have same : (heldKeys code tty).typedLine = tty.typedLine := by
          rw [heldKeys_eq ends erases]
          rfl
        have console : getCurPosition tty.console = positionOf (base + tty.typedLine.length) :=
          view.shown.cursor.position
        have short : tty.typedLine.length < 126 := by
          rw [← same, typedLine, LineState.typed_length, front]
          exact Nat.not_le.mp shorter
        have typed : LineEditor.Types code (tty.modifiers.key code) tty.typedLine :=
          ⟨types.1, modifiers ▸ types.2, altUp, unclear, short⟩
        have written := typeKey_typed held.1 held.2 types.1 types.2
          (by rw [same]; exact fun late => (keeps late (Or.inr typed)).1)
          (by rw [same]; omega) (by rw [same]; exact room typed)
        rwa [same, ← console] at written
      · exact typeKey_silent held.1 held.2 types

/-! ### Lines -/

structure LineStarts (c r : Nat) (tty : Tty) : Prop where
  column : c < 80
  row : r < 25
  line : LineOk (tty.lineState tty.currTerminal)
  empty : tty.typedLine = []
  screenX : tty.console.screenX = c
  screenY : tty.console.screenY = r
  blank : ∀ cell, 80 * r + c ≤ cell → cell ≤ 80 * r + c + 126 → cell < 2000 →
    tty.console.charAt cell = 32

theorem LineStarts.view {c r : Nat} (starts : LineStarts c r tty) :
    LineShown (80 * r + c) tty.console tty := by
  obtain ⟨column, row, line, empty, screenX, screenY, blank⟩ := starts
  refine ⟨line, ?_, ?_, ?_, ?_, fun _ _ => rfl⟩
  · rw [empty]
    exact fun _ absent => absurd absent List.not_mem_nil
  · rw [empty]
    exact ⟨⟨by omega, by omega, by omega, by omega⟩, by rw [screenX, screenY, List.length_nil]; omega⟩
  · rw [empty]
    exact fun index bound => absurd bound (Nat.not_lt_zero index)
  · rw [empty]
    exact blank

theorem LineStarts.redraws {c r : Nat} (starts : LineStarts c r tty) (unwrapped : tty.bufOffset = 0) :
    Redraws (80 * r + c) tty := by
  have column := starts.column
  constructor
  · intro _
    rw [starts.empty]
    exact ⟨unwrapped, fun some_ => absurd some_ (Nat.lt_irrefl 0)⟩
  · intro late
    rw [starts.empty, List.length_nil] at late
    omega

/-- What a line shows: its characters from its first cell on, a blank behind them, and the
text before it as it was. -/
def LineDisplayed (c r : Nat) (start tty : Tty) : Prop :=
  Shown (80 * r + c) tty.typedLine start.console tty.console

theorem lineDisplay_shown {c r : Nat} {start tty : Tty} {codes : List UInt8}
    (starts : LineStarts c r start) (unwrapped : start.bufOffset = 0)
    (path : Path keyStep (fun tty code => LineKey (80 * r + c) tty code ∧
      KeepsRows (80 * r + c) tty code) start codes tty) : LineDisplayed c r start tty := by
  have kept := path.preserves
    (fun tty => LineShown (80 * r + c) start.console tty ∧ Redraws (80 * r + c) tty)
    (fun tty code next key view done => by
      rw [(keyStep_afterKey done).1]
      exact view.1.key view.2 key.1 key.2)
    ⟨starts.view, starts.redraws unwrapped⟩
  exact kept.1.shown

instance (base : Nat) (tty : Tty) (code : UInt8) : Decidable (LineKey base tty code) :=
  inferInstanceAs (Decidable (_ ∧ _ ∧ _ ∧ _))

instance (base : Nat) (tty : Tty) (code : UInt8) : Decidable (KeepsRows base tty code) :=
  inferInstanceAs (Decidable (_ → _ → _ ∧ _))

def promptTty (column : Int) : Tty :=
  { blankInput.tty with
    console := { screenX := column, screenY := 0, videoMem := fun _ => 32 } }

theorem promptTty_starts {c : Nat} (column : c < 80) : LineStarts c 0 (promptTty c) :=
  ⟨column, by decide, ⟨rfl, Nat.zero_le _, fun _ bound => absurd bound (Nat.not_lt_zero _),
    fun _ _ _ => rfl⟩, rfl, rfl, rfl, fun _ _ _ _ => rfl⟩

def wrappedLine : List UInt8 := List.replicate 75 0x1E ++ [backspace]

theorem lineDisplay_wrappedLine :
    ∃ tty, Path keyStep (fun _ _ => True) (promptTty 7) wrappedLine tty ∧
      LineDisplayed 7 0 (promptTty 7) tty := by
  have ran : (runWhere keyStep (fun tty code => LineKey 7 tty code ∧ KeepsRows 7 tty code)
      (promptTty 7) wrappedLine).isSome = true := by decide +kernel
  obtain ⟨tty, computed⟩ := Option.isSome_iff_exists.mp ran
  have path := runWhere_path computed
  exact ⟨tty, path.mono fun _ _ _ => trivial,
    lineDisplay_shown (promptTty_starts (by decide)) rfl path⟩

/-- Behind the prompt, the letter at the end of the row taken back stays on the screen. -/
theorem lineDisplay_rowEnd :
    ¬∀ (c r : Nat) (start tty : Tty) (codes : List UInt8), LineStarts c r start →
      start.bufOffset = 0 → Path keyStep (LineKey (80 * r + c)) start codes tty →
        LineDisplayed c r start tty := by
  have ran : (runWhere keyStep (LineKey 7) (promptTty 7) (List.replicate 73 0x1E ++ [backspace])).map
      (fun tty => decide (tty.typedLine.length = 72 ∧ tty.console.charAt 79 = 0x61)) = some true := by
    decide +kernel
  intro claimed
  obtain ⟨tty, computed, checks⟩ := Option.map_eq_some_iff.mp ran
  obtain ⟨typed, undeleted⟩ := of_decide_eq_true checks
  have shown := claimed 7 0 (promptTty 7) tty _ (promptTty_starts (by decide)) rfl
    (runWhere_path computed)
  have behind := shown.blank 79 (by omega)
  rw [undeleted] at behind
  exact absurd behind (by decide)

end Tty

end G29Os
