import G29Os.DriverSteps
import G29Os.KeyWrites
import G29Os.LineDelivery

/-!
The line buffer against an editor of a list of characters: what a key does to the list, and
which runs of the kernel leave a line buffer that holds one.
-/

namespace G29Os

open StepRun

@[ext] structure LineEditor where
  modifiers : Modifiers
  line : List UInt8
  entered : Fin lineBuffer → UInt8

def Modifiers.character (code : UInt8) (modifiers : Modifiers) : UInt8 :=
  UInt8.ofNat (modifiers.table.getD code.toNat Tty.nul).toNat

namespace LineEditor

def Types (code : UInt8) (modifiers : Modifiers) (line : List UInt8) : Prop :=
  code ≤ space ∧ modifiers.character code ≠ 0 ∧ ¬modifiers.alt ∧ ¬(modifiers.ctrl ∧ code = keyL) ∧
    line.length < 126

instance (code : UInt8) (modifiers : Modifiers) (line : List UInt8) :
    Decidable (Types code modifiers line) := inferInstanceAs (Decidable (_ ∧ _ ∧ _ ∧ _ ∧ _))

def key (code : UInt8) (editor : LineEditor) : LineEditor :=
  let modifiers := editor.modifiers.key code
  if code = backspace then { editor with modifiers := modifiers, line := editor.line.dropLast }
  else if code = enter then
    { modifiers := modifiers
      line := []
      entered := fun index => (editor.line ++ [10]).getD index 0 }
  else if Types code modifiers editor.line then
    { editor with modifiers := modifiers, line := editor.line ++ [modifiers.character code] }
  else { editor with modifiers := modifiers }

end LineEditor

namespace LineState

variable {state : LineState} {modifiers : Modifiers} {code : UInt8}

theorem key_other (ends : code ≠ G29Os.enter) (erases : code ≠ G29Os.backspace) :
    state.key modifiers code =
      if LineEditor.Types code modifiers state.typed then state.insert (modifiers.character code)
      else state := by
  have unpressed : state.press code = state := by simp [press, ends, erases]
  rw [key, unpressed]
  by_cases types : LineEditor.Types code modifiers state.typed
  · rw [if_pos types]
    obtain ⟨printable, real, altUp, unclear, room⟩ := types
    rw [typed_length] at room
    have space' : ¬state.size ≥ lineBuffer - 2 := Nat.not_le.mpr room
    rw [if_neg altUp, if_neg unclear, type, if_neg space', if_pos printable]
    exact if_pos real
  · rw [if_neg types, type]
    split_ifs with altDown clears full printable
    · rfl
    · rfl
    · rfl
    · have room : state.typed.length < 126 := typed_length.symm ▸ Nat.not_le.mp full
      have silent : ¬UInt8.ofNat (modifiers.table.getD code.toNat Tty.nul).toNat ≠ 0 :=
        fun real => types ⟨printable, real, altDown, clears, room⟩
      exact if_neg silent
    · rfl

end LineState

theorem LineOk.readBuffer_padded {state : LineState} (fine : LineOk state) {index : Nat}
    (inside : index < lineBuffer) :
    state.enter.readBuffer index = (state.typed ++ [10]).getD index 0 := by
  rw [fine.readBuffer_enter, List.getD_eq_getElem?_getD]
  rcases Nat.lt_trichotomy index state.size with before | last | after
  · have early : index < state.typed.length := by rwa [LineState.typed_length]
    rw [if_pos (Nat.lt_succ_of_lt before), Function.update_of_ne (Nat.ne_of_lt before),
      List.getElem?_append_left early, List.getElem?_eq_getElem early, Option.getD_some,
      LineState.typed_getElem]
  · subst last
    rw [if_pos (Nat.lt_succ_self _), Function.update_self]
    simp
  · have beyond : ¬index < state.size + 1 := by omega
    have outside : (state.typed ++ [10]).length ≤ index := by
      rw [List.length_append, List.length_singleton, LineState.typed_length]
      omega
    rw [if_neg beyond, if_pos inside, List.getElem?_eq_none outside, Option.getD_none]

namespace Tty

variable {tty next : Tty} {terminal cur : TerminalId} {code : UInt8}

def editor (terminal : TerminalId) (tty : Tty) : LineEditor where
  modifiers := tty.modifiers
  line := (tty.lineState terminal).typed
  entered index := tty.keyReadBuffer terminal index

theorem editor_afterKey (fine : LineOk (tty.lineState tty.currTerminal)) (code : UInt8) :
    (tty.afterKey code).editor tty.currTerminal = (tty.editor tty.currTerminal).key code := by
  have line : (tty.afterKey code).lineState tty.currTerminal =
      (tty.lineState tty.currTerminal).key (tty.modifiers.key code) code := by
    rw [lineState_afterKey, Function.update_self]
  have modifiers := tty.modifiers_afterKey code
  have entered : (tty.afterKey code).keyReadBuffer tty.currTerminal =
      ((tty.lineState tty.currTerminal).key (tty.modifiers.key code) code).readBuffer :=
    congrArg LineState.readBuffer line
  simp only [editor, line, modifiers, entered, LineEditor.key]
  by_cases erases : code = backspace
  · subst erases
    rw [if_pos rfl, LineState.key_backspace, fine.typed_backspace, LineState.backspace]
    split <;> rfl
  · rw [if_neg erases]
    by_cases ends : code = enter
    · subst ends
      rw [if_pos rfl, LineState.key_enter]
      apply LineEditor.ext
      · rfl
      · rfl
      · funext index
        exact fine.readBuffer_padded index.isLt
    · rw [if_neg ends, LineState.key_other ends erases]
      split
      · rename_i types
        rw [fine.typed_insert]
        exact (if_pos types).symm
      · rename_i types
        exact (if_neg types).symm

/-! ### The indices of `key_line_buffer` that a key uses -/

def printIndices (offset : UInt8) (terminal : TerminalId) (tty : Tty) : List Nat :=
  let line := cString (lineBuffer - offset.toNat)
    (fun index => tty.keyLineBuffer terminal (offset.toNat + index))
  (List.range (line.length + 1)).map (offset.toNat + ·)

def backspaceIndices (terminal : TerminalId) (tty : Tty) : List Nat :=
  if tty.curBufferPosition terminal > 0 then
    let tty := unwrapStart terminal (dropCounts terminal tty)
    let position := tty.curBufferPosition terminal
    (List.range (tty.curBufferSize terminal + 2 - position)).flatMap
        (fun i => [position + i + 1, position + i]) ++
      printIndices tty.bufOffset terminal (closeGap terminal tty)
  else []

def enterIndices (terminal : TerminalId) (tty : Tty) : List Nat :=
  let size := tty.curBufferSize terminal
  size :: printIndices tty.bufOffset terminal (setLine terminal size 10 tty) ++ List.range lineBuffer

def insertIndices (terminal : TerminalId) (c : UInt8) (tty : Tty) : List Nat :=
  let position := tty.curBufferPosition terminal
  (List.range (tty.curBufferSize terminal - position)).flatMap
      (fun i => [position + i, position + i + 1]) ++
    position :: printIndices tty.bufOffset terminal (insertChar terminal c tty)

def keyIndices (code : UInt8) (tty : Tty) : List Nat :=
  let terminal := tty.currTerminal
  let pressed :=
    if code = backspace then backspaceIndices terminal tty
    else if code = enter then enterIndices terminal tty
    else []
  let tty := heldKeys code tty
  let c := tty.modifiers.character code
  pressed ++
    if tty.altPressed then []
    else if tty.ctrlPressed ∧ code = keyL then printIndices 0 terminal tty
    else if ¬tty.curBufferSize terminal ≥ lineBuffer - 2 ∧ code ≤ space ∧ c ≠ 0 then
      insertIndices terminal c tty
    else []

theorem length_cString_of_nul {size index : Nat} {buffer : Nat → UInt8} (ends : buffer index = 0) :
    (cString size buffer).length ≤ index := by
  by_contra long
  have longer : index < (cString size buffer).length := Nat.not_le.mp long
  have member := List.all_eq_true.mp List.all_takeWhile _ (List.getElem_mem longer)
  have same : (cString size buffer)[index] = buffer index := by
    have found := (List.takeWhile_prefix (fun c => decide (c ≠ 0))
      (l := (List.range size).map buffer)).getElem longer
    rw [List.getElem_map, List.getElem_range] at found
    exact found
  simp only [same, ends] at member
  exact absurd member (by decide)

theorem printIndices_inside {offset : UInt8} {index : Nat} (low : offset.toNat < lineBuffer)
    (ends : tty.keyLineBuffer terminal 127 = 0) (used : index ∈ tty.printIndices offset terminal) :
    index < lineBuffer := by
  obtain ⟨i, bound, rfl⟩ := List.mem_map.mp used
  have last : tty.keyLineBuffer terminal (offset.toNat + (127 - offset.toNat)) = 0 := by
    simp only [lineBuffer] at low
    rw [← ends]
    congr 1
    omega
  have short := @length_cString_of_nul (lineBuffer - offset.toNat) (127 - offset.toNat)
    (fun index => tty.keyLineBuffer terminal (offset.toNat + index)) last
  have early := List.mem_range.mp bound
  simp only [lineBuffer] at low short early ⊢
  omega

theorem curBufferPosition_unwrapStart :
    (unwrapStart terminal tty).curBufferPosition = tty.curBufferPosition := by
  rw [unwrapStart]
  split <;> rfl

theorem curBufferSize_unwrapStart :
    (unwrapStart terminal tty).curBufferSize = tty.curBufferSize := by
  rw [unwrapStart]
  split <;> rfl

theorem backspaceIndices_inside {index : Nat} (fine : LineOk (tty.lineState terminal))
    (low : (unwrapStart terminal (dropCounts terminal tty)).bufOffset.toNat < lineBuffer)
    (used : index ∈ tty.backspaceIndices terminal) : index < lineBuffer := by
  rw [backspaceIndices] at used
  split at used
  · rename_i moved
    have counters : tty.curBufferPosition terminal = tty.curBufferSize terminal := fine.counters
    have short : tty.curBufferSize terminal ≤ 126 := fine.short
    have position : (unwrapStart terminal (dropCounts terminal tty)).curBufferPosition terminal =
        tty.curBufferPosition terminal - 1 := by
      rw [curBufferPosition_unwrapStart, dropCounts]
      simp [setSize, setPosition]
    have size : (unwrapStart terminal (dropCounts terminal tty)).curBufferSize terminal =
        tty.curBufferSize terminal - 1 := by
      rw [curBufferSize_unwrapStart, dropCounts]
      simp [setSize]
    rcases List.mem_append.mp used with shifted | printed
    · obtain ⟨i, bound, either⟩ := List.mem_flatMap.mp shifted
      have early := List.mem_range.mp bound
      simp only [List.mem_cons, List.not_mem_nil, or_false, position, size] at early either
      simp only [lineBuffer]
      omega
    · refine printIndices_inside low ?_ printed
      have erased := lineState_changed (keyboard_erased moved)
      have blank := fine.backspace.blank 127 (by have := fine.backspace.short; omega) (by decide)
      rwa [← erased] at blank
  · cases used

theorem enterIndices_inside {index : Nat} (fine : LineOk (tty.lineState terminal))
    (low : tty.bufOffset.toNat < lineBuffer) (used : index ∈ tty.enterIndices terminal) :
    index < lineBuffer := by
  have short : tty.curBufferSize terminal ≤ 126 := fine.short
  rcases List.mem_append.mp used with printed | copied
  · rcases List.mem_cons.mp printed with ended | printed
    · rw [ended, lineBuffer]
      omega
    · refine printIndices_inside low ?_ printed
      have other : 127 ≠ tty.curBufferSize terminal := by omega
      simp only [setLine, Function.update_self, Function.update_of_ne other]
      exact fine.blank 127 (by change tty.curBufferSize terminal ≤ 127; omega) (by decide)
  · exact List.mem_range.mp copied

theorem insertIndices_inside {c : UInt8} {index : Nat} (fine : LineOk (tty.lineState terminal))
    (room : tty.curBufferSize terminal ≤ 125) (real : c ≠ 0) (low : tty.bufOffset.toNat < lineBuffer)
    (used : index ∈ tty.insertIndices terminal c) : index < lineBuffer := by
  have counters : tty.curBufferPosition terminal = tty.curBufferSize terminal := fine.counters
  rcases List.mem_append.mp used with moved | typed
  · obtain ⟨i, bound, either⟩ := List.mem_flatMap.mp moved
    have early := List.mem_range.mp bound
    omega
  · rcases List.mem_cons.mp typed with placed | printed
    · rw [placed, lineBuffer]
      omega
    · refine printIndices_inside low ?_ printed
      have inserted := lineState_changed (@keyboard_insertChar terminal tty c)
      have blank := (fine.insert room real).blank 127
        (by have := (fine.insert room real).short; omega) (by decide)
      rwa [← inserted] at blank

/-! ### `buf_offset` -/

def OffsetOk (tty : Tty) : Prop := tty.bufOffset = 0 ∨ tty.bufOffset = 73

theorem OffsetOk.inside (offset : OffsetOk tty) : tty.bufOffset.toNat < lineBuffer := by
  rcases offset with zero | wrapped
  · rw [zero]
    decide
  · rw [wrapped]
    decide

theorem OffsetOk.of_eq (offset : OffsetOk tty) (same : next.bufOffset = tty.bufOffset) :
    OffsetOk next := by
  rwa [OffsetOk, same]

theorem OffsetOk.ofWrites (offset : OffsetOk tty) (writes : Writes cur tty next) : OffsetOk next := by
  refine writes.keeps OffsetOk (fun before after kept write => ?_) offset
  cases write with
  | offset known => exact known
  | _ => exact kept

theorem OffsetOk.afterKey (offset : OffsetOk tty) (code : UInt8) : OffsetOk (tty.afterKey code) := by
  rcases @afterKey_writes tty code with writes | ⟨target, -, switched⟩
  · exact offset.ofWrites writes
  · rw [switched]
    exact offset.of_eq rfl

/-! ### Keys from a state whose lines are whole -/

structure LinesOk (tty : Tty) : Prop where
  lines : ∀ terminal, LineOk (tty.lineState terminal)
  offset : OffsetOk tty

namespace LinesOk

theorem of_eq (fine : LinesOk tty) (lines : next.lineState = tty.lineState)
    (offset : OffsetOk next) : LinesOk next where
  lines terminal := lines ▸ fine.lines terminal
  offset := offset

theorem afterKey (fine : LinesOk tty) (code : UInt8) : LinesOk (tty.afterKey code) where
  lines terminal := by
    rw [lineState_afterKey]
    rcases eq_or_ne terminal tty.currTerminal with same | other
    · subst same
      rw [Function.update_self]
      exact (fine.lines _).key
    · rw [Function.update_of_ne other]
      exact fine.lines terminal
  offset := fine.offset.afterKey code

theorem inRange (fine : LinesOk tty) : tty.InRange := by
  have counters : tty.curBufferPosition tty.currTerminal = tty.curBufferSize tty.currTerminal :=
    (fine.lines tty.currTerminal).counters
  have short : tty.curBufferSize tty.currTerminal ≤ 126 := (fine.lines tty.currTerminal).short
  exact ⟨counters ▸ short, short, fun typed => counters ▸ typed⟩

end LinesOk

theorem lineState_heldKeys (code : UInt8) :
    (heldKeys code tty).lineState tty.currTerminal =
      (tty.lineState tty.currTerminal).press code := by
  have held := congrFun (congrArg Keyboard.lines (@keyboard_heldKeys tty code)) tty.currTerminal
  simpa [Keyboard.changeLine, keyboard] using held

theorem keyIndices_inside {index : Nat} (fine : LinesOk tty) (used : index ∈ tty.keyIndices code) :
    index < lineBuffer := by
  have line := fine.lines tty.currTerminal
  rcases List.mem_append.mp used with pressed | typed
  · split at pressed
    · have unwrapped : Writes tty.currTerminal tty
          (unwrapStart tty.currTerminal (dropCounts tty.currTerminal tty)) :=
        Writes.dropCounts.trans (Writes.unwrapStart rfl)
      exact backspaceIndices_inside line (fine.offset.ofWrites unwrapped).inside pressed
    · split at pressed
      · exact enterIndices_inside line fine.offset.inside pressed
      · cases pressed
  · have held : LineOk ((heldKeys code tty).lineState tty.currTerminal) := by
      rw [lineState_heldKeys, LineState.press]
      split
      · exact line.backspace
      · split
        · exact LineOk.enter
        · exact line
    split at typed
    · cases typed
    · split at typed
      · refine printIndices_inside (by decide) ?_ typed
        exact held.blank 127 (by have := held.short; omega) (by decide)
      · split at typed
        · rename_i printable
          have room : (heldKeys code tty).curBufferSize tty.currTerminal ≤ 125 :=
            Nat.le_of_lt_succ (Nat.not_le.mp printable.1)
          have offset := fine.offset.ofWrites (Writes.heldKeys code)
          exact insertIndices_inside held room printable.2.2 offset.inside typed
        · cases typed

def keyStep (tty : Tty) (code : UInt8) : Option Tty :=
  match tty.keyboardHandler code with
  | .returned next => some next
  | .switched _ _ => none

theorem keyStep_afterKey (done : tty.keyStep code = some next) :
    next = tty.afterKey code ∧ next.currTerminal = tty.currTerminal := by
  have terminal := tty.keyboardHandler_terminal code
  rw [keyStep] at done
  rw [afterKey]
  cases outcome : tty.keyboardHandler code with
  | returned after =>
      rw [outcome] at done terminal
      cases done
      exact ⟨rfl, terminal⟩
  | switched target after =>
      rw [outcome] at done
      cases done

/-- The foreground line after some keys stands for the list that the editor has, and the
other lines are untouched. -/
structure Edited (start : Tty) (codes : List UInt8) (tty : Tty) : Prop where
  current : tty.currTerminal = start.currTerminal
  editor : tty.editor start.currTerminal =
    codes.foldl (fun editor code => editor.key code) (start.editor start.currTerminal)
  line : LineOk (tty.lineState start.currTerminal)
  inRange : tty.InRange
  inside : ∀ code index, index ∈ tty.keyIndices code → index < lineBuffer
  others : ∀ other, other ≠ start.currTerminal → tty.lineState other = start.lineState other

def EditsLine (start : Tty) : Prop :=
  ∀ codes tty, Path keyStep (fun _ _ => True) start codes tty → Edited start codes tty

theorem LinesOk.editsLine (fine : LinesOk tty) : EditsLine tty := by
  intro codes after path
  induction path with
  | nil tty =>
      exact ⟨rfl, rfl, fine.lines _, fine.inRange, fun _ _ => keyIndices_inside fine, fun _ _ => rfl⟩
  | @cons tty middle after code codes _ taken _ ih =>
      obtain ⟨same, here⟩ := keyStep_afterKey taken
      subst same
      have edited := ih (fine.afterKey code)
      have first := editor_afterKey (fine.lines tty.currTerminal) code
      refine ⟨edited.current.trans here, ?_, here ▸ edited.line, edited.inRange, edited.inside, ?_⟩
      · have later := edited.editor
        rw [here, first] at later
        rw [later, List.foldl_cons]
      · intro other apart
        rw [edited.others other (here.symm ▸ apart), lineState_afterKey, Function.update_of_ne apart]

theorem readStep_lines {call : ReadCall} (fine : LineOk (tty.lineState terminal))
    (untyped : call.stage.Untyped (tty.lineState terminal).size) :
    (tty.readStep terminal call).tty.lineState = tty.lineState := by
  cases outcome : tty.readStep terminal call with
  | running call' tty' => exact congrArg Keyboard.lines (readStep_line fine untyped outcome)
  | finished bytes tty' =>
      obtain ⟨nbytes, moved, stage⟩ := call
      cases stage with
      | releasing =>
          cases outcome
          rfl
      | _ =>
          simp only [readStep] at outcome
          try split at outcome
          all_goals cases outcome

theorem readStep_torn {call : ReadCall} (fine : LineOk (tty.lineState terminal))
    (typed : ¬call.stage.Untyped (tty.lineState terminal).size) :
    ¬LineOk ((tty.readStep terminal call).tty.lineState terminal) := by
  intro whole
  obtain ⟨nbytes, moved, stage⟩ := call
  have short := fine.short
  have counters := fine.counters
  cases stage with
  | clearing index =>
      have before : index < (tty.lineState terminal).size := Nat.not_le.mp typed
      have inside : index < lineBuffer := by simp only [lineBuffer]; omega
      simp only [readStep, if_pos inside, ReadOutcome.tty] at whole
      refine whole.text index before ?_
      simp only [lineState, setLine, Function.update_self]
  | clearingPosition =>
      have zero : 0 = (tty.lineState terminal).size := by
        have same := whole.counters
        simpa [readStep, ReadOutcome.tty, lineState, setPosition] using same
      exact typed zero.symm
  | clearingSize =>
      have zero : (tty.lineState terminal).position = 0 := by
        have same := whole.counters
        simpa [readStep, ReadOutcome.tty, lineState, setSize] using same
      exact typed (counters.symm.trans zero)
  | waiting | testing | moving | releasing => exact typed trivial

end Tty

namespace Kernel

variable {image : Image} {k next start : Kernel} {event : Event} {events : List Event}

def ClearsUntyped (k : Kernel) : Event → Prop
  | .readAccess => ∀ user, k.readers k.current = some user →
      user.call.stage.Untyped (k.tty.curBufferSize k.current)
  | _ => True

theorem step_linesOk (fine : k.tty.LinesOk) (allowed : ClearsUntyped k event)
    (done : k.step image event = some next) : next.tty.LinesOk := by
  have driver := step_driver done
  generalize next.tty = tty at driver ⊢
  cases driver with
  | silent => exact fine
  | key inRow => exact fine.afterKey _
  | access reading =>
      exact fine.of_eq (Tty.readStep_lines (fine.lines _) (allowed _ reading))
        (fine.offset.of_eq (Tty.readStep_screen ..).offset)
  | write =>
      exact fine.of_eq (congrArg Keyboard.lines (Tty.keyboard_terminalWrite _))
        (fine.offset.ofWrites (Tty.Writes.terminalWrite _ rfl))
  | print text => exact fine.of_eq rfl fine.offset

theorem PoweredOn.linesOk (poweredOn : PoweredOn image k) : k.tty.LinesOk := by
  obtain ⟨-, console, vbuffer, pic, booted⟩ := poweredOn
  rw [booted]
  exact ⟨fun _ => ⟨rfl, Nat.zero_le _, fun _ bound => absurd bound (Nat.not_lt_zero _),
    fun _ _ _ => rfl⟩, Or.inl rfl⟩

/-- As long as no `clear_buffer` of a read finds characters typed, the keys edit a list; a
step after that tears the line exactly when it is such a store. -/
theorem lineEditor_refines (poweredOn : PoweredOn image start)
    (path : Path (step image) ClearsUntyped start events k) :
    k.tty.EditsLine ∧ ∀ event next, k.step image event = some next →
      (next.tty.EditsLine ↔ ClearsUntyped k event) := by
  have fine : k.tty.LinesOk := path.preserves (fun k => k.tty.LinesOk)
    (fun _ _ _ allowed fine done => step_linesOk fine allowed done) poweredOn.linesOk
  refine ⟨fine.editsLine, fun event next done => ⟨fun edits => ?_, fun allowed => ?_⟩⟩
  · cases event with
    | readAccess =>
        intro user reading
        by_contra typed
        have access : ((k.readers k.current).bind fun user => k.readAccess user) = some next := done
        rw [reading] at access
        have tty : next.tty = (k.tty.readStep k.current user.call).tty := readAccess_tty access
        have here : next.tty.currTerminal = k.current := by
          rw [tty]
          exact Tty.readStep_terminal ..
        have whole := (edits [] next.tty (Path.nil _)).line
        rw [here, tty] at whole
        exact Tty.readStep_torn (fine.lines k.current) typed whole
    | _ => trivial
  · exact (step_linesOk fine allowed done).editsLine

instance (size : Nat) : (stage : Tty.ReadStage) → Decidable (stage.Untyped size)
  | .clearing index => inferInstanceAs (Decidable (size ≤ index))
  | .clearingPosition => inferInstanceAs (Decidable (size = 0))
  | .clearingSize => inferInstanceAs (Decidable (size = 0))
  | .waiting | .testing | .moving | .releasing => isTrue trivial

instance (k : Kernel) : (event : Event) → Decidable (ClearsUntyped k event)
  | .readAccess => inferInstanceAs (Decidable (∀ user, k.readers k.current = some user →
      user.call.stage.Untyped (k.tty.curBufferSize k.current)))
  | .key .. | .rtcTick | .firstShell _ | .execute .. | .halt _ | .read .. | .write .. | .open _
  | .close _ | .getargs .. | .vidmap _ | .store .. => isTrue trivial

def lineRead : List Event :=
  [.firstShell noStale, .read 0 mb128 10] ++ keys [0x1E, enter] ++ List.replicate 7 .readAccess

theorem lineEditor_lineRead :
    ∃ start k, PoweredOn smallImage start ∧ Path (step smallImage) ClearsUntyped start lineRead k ∧
      k.tty.EditsLine := by
  have ran : (bootSmall.bind fun start =>
      runWhere (step smallImage) ClearsUntyped start lineRead).isSome = true := by decide +kernel
  obtain ⟨k, computed⟩ := Option.isSome_iff_exists.mp ran
  obtain ⟨start, booted, run⟩ := Option.bind_eq_some_iff.mp computed
  have path := runWhere_path run
  exact ⟨start, k, bootSmall_poweredOn booted, path,
    (lineEditor_refines (bootSmall_poweredOn booted) path).1⟩

/-- The same read, with a letter typed after ENTER: its first store clears that letter, and
the next ENTER hands over an empty line. -/
def tornRead : List Event :=
  [.firstShell noStale, .read 0 mb128 10] ++ keys [0x1E, enter, 0x30] ++ List.replicate 7 .readAccess

theorem lineEditor_torn :
    ¬∀ (image : Image) (start k : Kernel) (events : List Event), PoweredOn image start →
      Path (step image) (fun _ _ => True) start events k → k.tty.EditsLine := by
  have ran : (bootSmall.bind fun start =>
      (runWhere (step smallImage) (fun _ _ => True) start tornRead).bind fun k =>
        (runWhere Tty.keyStep (fun _ _ => True) k.tty [enter]).map fun tty =>
          decide (k.tty.currTerminal = 0 ∧ tty.keyReadBuffer 0 1 = 0 ∧
            (([enter].foldl (fun editor code => editor.key code) (k.tty.editor 0)).entered ⟨1, by decide⟩ = 10))) =
      some true := by decide +kernel
  intro claimed
  obtain ⟨start, booted, found⟩ := Option.bind_eq_some_iff.mp ran
  obtain ⟨k, run, found⟩ := Option.bind_eq_some_iff.mp found
  obtain ⟨tty, typed, checks⟩ := Option.map_eq_some_iff.mp found
  obtain ⟨current, empty, full⟩ := of_decide_eq_true checks
  have edits := claimed smallImage start k tornRead (bootSmall_poweredOn booted) (runWhere_path run)
  have edited := (edits [enter] tty (runWhere_path typed)).editor
  rw [current] at edited
  have entered : tty.keyReadBuffer 0 1 = 10 :=
    (congrFun (congrArg LineEditor.entered edited) ⟨1, by decide⟩).trans full
  rw [empty] at entered
  exact absurd entered (by decide)

end Kernel

end G29Os
