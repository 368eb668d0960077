import G29Os.InputMachine

/-!
Isolation of one terminal's input from the keys typed on the others: what the terminal sees
of the machine, and when two runs that show it the same events leave it the same view.
-/

namespace G29Os

open StepRun

def isModifierKey (code : UInt8) : Bool :=
  [leftShift, rightShift, ctrl, alt, capsLock].any fun key =>
    decide (code = key) || decide (code = key ||| keyReleasedMask)

theorem releaseCode_eq (code : UInt8) (released : code = code ||| keyReleasedMask) :
    code = (code &&& ~~~keyReleasedMask) ||| keyReleasedMask := by
  have bits : ∀ n < 256, UInt8.ofNat n = UInt8.ofNat n ||| keyReleasedMask →
      UInt8.ofNat n = (UInt8.ofNat n &&& ~~~keyReleasedMask) ||| keyReleasedMask := by
    decide +kernel
  have here := bits code.toNat code.toNat_lt
  rw [UInt8.ofNat_toNat] at here
  exact here released

namespace Modifiers

variable {modifiers : Modifiers} {code : UInt8}

theorem press_other (other : isModifierKey code = false) : modifiers.press code = modifiers := by
  simp only [isModifierKey, List.any_cons, List.any_nil, Bool.or_eq_false_iff,
    decide_eq_false_iff_not] at other
  simp [press, other]

theorem release_other (other : isModifierKey code = false) : modifiers.release code = modifiers := by
  rw [release]
  split
  · rename_i released
    have whole := releaseCode_eq code released
    generalize code &&& ~~~keyReleasedMask = key at whole
    subst whole
    have notCtrl : key ≠ G29Os.ctrl := by
      rintro rfl
      exact absurd other (by decide)
    have notLeft : key ≠ leftShift := by
      rintro rfl
      exact absurd other (by decide)
    have notRight : key ≠ rightShift := by
      rintro rfl
      exact absurd other (by decide)
    have notAlt : key ≠ G29Os.alt := by
      rintro rfl
      exact absurd other (by decide)
    simp [notCtrl, notLeft, notRight, notAlt]
  · rfl

theorem key_other (other : isModifierKey code = false) : modifiers.key code = modifiers := by
  rw [key, press_other other, release_other other]

end Modifiers

/-- What a terminal sees: `flag` is `keyboard_read` as it stands or as the terminal left it. -/
@[ext] structure InputView where
  current : TerminalId
  modifiers : Modifiers
  line : LineState
  reader : Option Tty.ReadCall
  returned : List ReadReply
  flag : Bool

namespace InputState

def flagOf (terminal : TerminalId) (state : InputState) : Bool :=
  if state.current = terminal then state.tty.keyboardRead else state.leftFlag terminal

def view (terminal : TerminalId) (state : InputState) : InputView where
  current := state.current
  modifiers := state.tty.modifiers
  line := state.line terminal
  reader := state.readers terminal
  returned := state.returned terminal
  flag := state.flagOf terminal

end InputState

def hiddenFrom (terminal : TerminalId) (state : InputState) : InputEvent → Bool
  | .key code => decide (state.current ≠ terminal) && !isModifierKey code &&
      (Tty.switchTarget code).isNone
  | _ => decide (state.current ≠ terminal)

/-- A switch into the terminal finds `keyboard_read` as the terminal left it. -/
def ResumesFlag (terminal : TerminalId) (state : InputState) : InputEvent → Prop
  | .key code => state.current ≠ terminal → (state.tty.afterKey code).currTerminal = terminal →
      state.tty.keyboardRead = state.leftFlag terminal
  | _ => True

/-- A key stores inside its own terminal's row of `key_line_buffer` and wraps no counter. -/
def InRow (state : InputState) : InputEvent → Prop
  | .key code => state.tty.KeyInRow code
  | _ => True

structure Apart (terminal : TerminalId) (state : InputState) (event : InputEvent) : Prop where
  resumes : ResumesFlag terminal state event
  inRow : InRow state event

namespace LineState

def access (call : Tty.ReadCall) (flag : Bool) (line : LineState) :
    Option Tty.ReadCall × Bool × LineState :=
  match call.stage with
  | .waiting => (some (if flag then { call with stage := .testing } else call), flag, line)
  | .testing =>
      if line.readBuffer call.moved.length ≠ 0 ∧ (call.moved.length : Int) < call.nbytes then
        (some { call with stage := .moving }, flag, line)
      else (some { call with stage := .clearing 0 }, flag, line)
  | .moving =>
      let byte := line.readBuffer call.moved.length
      (some { call with moved := call.moved ++ [byte], stage := .testing }, flag, line)
  | .clearing index =>
      if index < lineBuffer then
        (some { call with stage := .clearing (index + 1) }, flag,
          { line with line := Function.update line.line index 0 })
      else (some { call with stage := .clearingPosition }, flag, line)
  | .clearingPosition => (some { call with stage := .clearingSize }, flag, { line with position := 0 })
  | .clearingSize => (some { call with stage := .releasing }, flag, { line with size := 0 })
  | .releasing => (none, false, line)

end LineState

namespace Tty

def ReadOutcome.call : ReadOutcome → Option ReadCall
  | .running call _ => some call
  | .finished _ _ => none

theorem keyboard_unread {terminal : TerminalId} {tty : Tty} :
    { tty.keyboard.changeLine terminal (fun _ => tty.lineState terminal) with
      keyboardRead := tty.keyboardRead } = tty.keyboard := by
  have same : tty.keyboard.changeLine terminal (fun _ => tty.lineState terminal) = tty.keyboard :=
    Keyboard.changeLine_self rfl
  rw [same]
  rfl

theorem readStep_access (terminal : TerminalId) (call : ReadCall) (tty : Tty) :
    ∃ next flag line, (tty.lineState terminal).access call tty.keyboardRead = (next, flag, line) ∧
      (tty.readStep terminal call).call = next ∧
      (tty.readStep terminal call).tty.keyboard =
        { tty.keyboard.changeLine terminal (fun _ => line) with keyboardRead := flag } := by
  obtain ⟨nbytes, moved, stage⟩ := call
  cases stage with
  | waiting =>
      refine ⟨_, _, _, rfl, ?_, ?_⟩
      · simp only [readStep]
        split <;> rfl
      · simp only [readStep]
        split <;> exact keyboard_unread.symm
  | testing =>
      by_cases more : tty.keyReadBuffer terminal moved.length ≠ 0 ∧ (moved.length : Int) < nbytes
      · refine ⟨_, _, _, if_pos more, ?_, ?_⟩
        · simp only [readStep, if_pos more]
          rfl
        · simp only [readStep, if_pos more]
          exact keyboard_unread.symm
      · refine ⟨_, _, _, if_neg more, ?_, ?_⟩
        · simp only [readStep, if_neg more]
          rfl
        · simp only [readStep, if_neg more]
          exact keyboard_unread.symm
  | moving => exact ⟨_, _, _, rfl, rfl, keyboard_unread.symm⟩
  | clearing index =>
      by_cases inside : index < lineBuffer
      · refine ⟨_, _, _, if_pos inside, ?_, ?_⟩
        · simp only [readStep, if_pos inside]
          rfl
        · simp only [readStep, if_pos inside]
          exact keyboard_setLineBuffer _
      · refine ⟨_, _, _, if_neg inside, ?_, ?_⟩
        · simp only [readStep, if_neg inside]
          rfl
        · simp only [readStep, if_neg inside]
          exact keyboard_unread.symm
  | clearingPosition => exact ⟨_, _, _, rfl, rfl, keyboard_setPosition 0⟩
  | clearingSize => exact ⟨_, _, _, rfl, rfl, keyboard_setSize 0⟩
  | releasing =>
      have same : tty.keyboard.changeLine terminal (fun _ => tty.lineState terminal) =
        tty.keyboard := Keyboard.changeLine_self rfl
      refine ⟨_, _, _, rfl, rfl, ?_⟩
      rw [same]
      rfl

theorem readStep_bytes {terminal : TerminalId} {call : ReadCall} {tty tty' : Tty}
    {bytes : List UInt8} (taken : tty.readStep terminal call = .finished bytes tty') :
    bytes = call.moved := by
  obtain ⟨nbytes, moved, stage⟩ := call
  cases stage with
  | waiting =>
      simp only [readStep] at taken
      split at taken <;> cases taken
  | testing =>
      simp only [readStep] at taken
      split at taken <;> cases taken
  | clearing index =>
      simp only [readStep] at taken
      split at taken <;> cases taken
  | releasing =>
      cases taken
      rfl
  | moving => cases taken
  | clearingPosition => cases taken
  | clearingSize => cases taken

end Tty

namespace InputView

def key (terminal : TerminalId) (code : UInt8) (view : InputView) : InputView :=
  let modifiers := view.modifiers.key code
  { view with
    current := if modifiers.alt then (Tty.switchTarget code).getD view.current else view.current
    modifiers := modifiers
    line := if view.current = terminal then view.line.key modifiers code else view.line
    flag := view.flag || decide (code = enter) }

def advance (call : Tty.ReadCall) (view : InputView) : InputView :=
  match view.line.access call view.flag with
  | (some call, flag, line) => { view with reader := some call, flag := flag, line := line }
  | (none, flag, line) =>
      { view with
        reader := none
        flag := flag
        line := line
        returned := view.returned ++ [{ nbytes := call.nbytes, bytes := call.moved }] }

end InputView

namespace InputState

variable {terminal : TerminalId} {state : InputState}

theorem flagOf_pressed_here {code : UInt8} (here : state.current = terminal) :
    (state.pressed code).flagOf terminal = (state.flagOf terminal || decide (code = enter)) := by
  subst here
  have before : state.flagOf state.current = state.tty.keyboardRead := if_pos rfl
  rw [before, ← Tty.keyboardRead_afterKey]
  by_cases stays : (state.tty.afterKey code).currTerminal = state.current
  · exact if_pos stays
  · have leaves : (state.pressed code).current ≠ state.current := stays
    rw [flagOf, if_neg leaves, leftFlag_pressed, if_neg leaves, Function.update_self]
    rfl

theorem flagOf_pressed_away {code : UInt8} (away : state.current ≠ terminal)
    (resumes : ResumesFlag terminal state (.key code)) (ends : code ≠ enter) :
    (state.pressed code).flagOf terminal = state.flagOf terminal := by
  have before : state.flagOf terminal = state.leftFlag terminal := if_neg away
  rw [before]
  by_cases arrives : (state.tty.afterKey code).currTerminal = terminal
  · have kept : (state.tty.afterKey code).keyboardRead = state.leftFlag terminal := by
      rw [Tty.keyboardRead_afterKey, decide_eq_false ends, Bool.or_false]
      exact resumes away arrives
    exact (if_pos arrives).trans kept
  · have absent : (state.pressed code).current ≠ terminal := arrives
    rw [flagOf, if_neg absent, leftFlag_pressed]
    split
    · rfl
    · exact Function.update_of_ne (Ne.symm away) ..

theorem view_pressed_here {code : UInt8} (here : state.current = terminal) :
    (state.pressed code).view terminal = (state.view terminal).key terminal code := by
  have foreground : (state.view terminal).current = terminal := here
  apply InputView.ext
  · exact Tty.currTerminal_afterKey code
  · exact Tty.modifiers_afterKey code
  · exact (line_pressed here).trans (if_pos foreground).symm
  · rfl
  · rfl
  · exact flagOf_pressed_here here

theorem view_pressed_away {code : UInt8} (away : state.current ≠ terminal)
    (resumes : ResumesFlag terminal state (.key code)) (ends : code ≠ enter) :
    (state.pressed code).view terminal = (state.view terminal).key terminal code := by
  have background : (state.view terminal).current ≠ terminal := away
  apply InputView.ext
  · exact Tty.currTerminal_afterKey code
  · exact Tty.modifiers_afterKey code
  · exact (line_pressed_other away).trans (if_neg background).symm
  · rfl
  · rfl
  · have raised : ((state.view terminal).flag || decide (code = enter)) = state.flagOf terminal := by
      rw [decide_eq_false ends, Bool.or_false]
      rfl
    exact (flagOf_pressed_away away resumes ends).trans raised.symm

theorem view_advanced {call : Tty.ReadCall} (here : state.current = terminal) :
    (state.advanced call).view terminal = (state.view terminal).advance call := by
  subst here
  have flag : (state.view state.current).flag = state.tty.keyboardRead := if_pos rfl
  obtain ⟨next, raised, line, access, call', keyboard⟩ :=
    Tty.readStep_access state.current call state.tty
  have line' : (state.tty.readStep state.current call).tty.lineState state.current = line :=
    (congrFun (congrArg Keyboard.lines keyboard) state.current).trans (Function.update_self ..)
  have viewed : (state.view state.current).line.access call (state.view state.current).flag =
      (next, raised, line) := by
    rw [flag]
    exact access
  cases taken : state.tty.readStep state.current call with
  | running after tty' =>
      rw [taken] at call' keyboard line'
      cases call'
      rw [advanced_running taken, InputView.advance, viewed]
      apply InputView.ext
      · exact congrArg Keyboard.current keyboard
      · exact congrArg Keyboard.modifiers keyboard
      · exact line'
      · exact Function.update_self ..
      · rfl
      · have stays : tty'.currTerminal = state.current := congrArg Keyboard.current keyboard
        exact (if_pos stays).trans (congrArg Keyboard.keyboardRead keyboard)
  | finished bytes tty' =>
      rw [taken] at call' keyboard line'
      cases call'
      rw [advanced_finished taken, Tty.readStep_bytes taken, InputView.advance, viewed]
      apply InputView.ext
      · exact congrArg Keyboard.current keyboard
      · exact congrArg Keyboard.modifiers keyboard
      · exact line'
      · exact Function.update_self ..
      · exact Function.update_self ..
      · have stays : tty'.currTerminal = state.current := congrArg Keyboard.current keyboard
        exact (if_pos stays).trans (congrArg Keyboard.keyboardRead keyboard)

theorem view_advanced_other {call : Tty.ReadCall} (away : state.current ≠ terminal) :
    (state.advanced call).view terminal = state.view terminal := by
  obtain ⟨next, raised, line, _, _, keyboard⟩ := Tty.readStep_access state.current call state.tty
  have line' : (state.tty.readStep state.current call).tty.lineState terminal =
      state.line terminal :=
    (congrFun (congrArg Keyboard.lines keyboard) terminal).trans
      (Function.update_of_ne (Ne.symm away) ..)
  cases taken : state.tty.readStep state.current call with
  | running after tty' =>
      rw [taken] at keyboard line'
      rw [advanced_running taken]
      apply InputView.ext
      · exact congrArg Keyboard.current keyboard
      · exact congrArg Keyboard.modifiers keyboard
      · exact line'
      · exact Function.update_of_ne (Ne.symm away) ..
      · rfl
      · have stays : tty'.currTerminal ≠ terminal := by
          rw [show tty'.currTerminal = state.current from congrArg Keyboard.current keyboard]
          exact away
        exact (if_neg stays).trans (if_neg away).symm
  | finished bytes tty' =>
      rw [taken] at keyboard line'
      rw [advanced_finished taken]
      apply InputView.ext
      · exact congrArg Keyboard.current keyboard
      · exact congrArg Keyboard.modifiers keyboard
      · exact line'
      · exact Function.update_of_ne (Ne.symm away) ..
      · exact Function.update_of_ne (Ne.symm away) ..
      · have stays : tty'.currTerminal ≠ terminal := by
          rw [show tty'.currTerminal = state.current from congrArg Keyboard.current keyboard]
          exact away
        exact (if_neg stays).trans (if_neg away).symm

theorem view_screen {tty : Tty} (same : tty.keyboard = state.tty.keyboard) :
    ({ state with tty := tty } : InputState).view terminal = state.view terminal := by
  have current : tty.currTerminal = state.tty.currTerminal := congrArg Keyboard.current same
  apply InputView.ext
  · exact current
  · exact congrArg Keyboard.modifiers same
  · exact congrFun (congrArg Keyboard.lines same) terminal
  · rfl
  · rfl
  · simp only [flagOf, InputState.current, view, current,
      show tty.keyboardRead = state.tty.keyboardRead from congrArg Keyboard.keyboardRead same]
    rfl

end InputState

variable {terminal : TerminalId}

theorem hiddenInvisible :
    HiddenInvisible inputStep (ResumesFlag terminal) (hiddenFrom terminal)
      (InputState.view terminal) := by
  intro state event next resumes hidden taken
  cases event with
  | key code =>
      simp only [hiddenFrom, Bool.and_eq_true, decide_eq_true_eq, Bool.not_eq_true',
        Option.isNone_iff_eq_none] at hidden
      obtain ⟨⟨away, letter⟩, noTarget⟩ := hidden
      simp only [inputStep] at taken
      split at taken
      · cases taken
        have modifiers : state.tty.modifiers.key code = state.tty.modifiers := Modifiers.key_other letter
        -- neither Alt nor a function key is hidden, so the terminal stays away
        have stays : (state.tty.afterKey code).currTerminal = state.current := by
          rw [Tty.currTerminal_afterKey, noTarget, Option.getD_none, ite_self]
          rfl
        apply InputView.ext
        · exact stays
        · exact (Tty.modifiers_afterKey code).trans modifiers
        · exact InputState.line_pressed_other away
        · rfl
        · rfl
        · have absent : (state.pressed code).current ≠ terminal := fun here => away (stays ▸ here)
          have kept : (state.pressed code).leftFlag = state.leftFlag :=
            InputState.leftFlag_pressed.trans (if_pos stays)
          exact (if_neg absent).trans ((congrFun kept terminal).trans (if_neg away).symm)
      · cases taken
  | call nbytes =>
      have away : state.current ≠ terminal := of_decide_eq_true hidden
      simp only [inputStep] at taken
      split at taken
      · cases taken
      · cases taken
        apply InputView.ext
        · rfl
        · rfl
        · rfl
        · exact Function.update_of_ne (Ne.symm away) ..
        · rfl
        · rfl
  | step =>
      have away : state.current ≠ terminal := of_decide_eq_true hidden
      obtain ⟨call, _, rfl⟩ := Option.map_eq_some_iff.mp taken
      exact InputState.view_advanced_other away
  | write bytes =>
      simp only [inputStep] at taken
      split at taken
      · cases taken
      · cases taken
        exact InputState.view_screen (Tty.keyboard_terminalWrite bytes)
  | print bytes =>
      simp only [inputStep] at taken
      split at taken
      · cases taken
      · cases taken
        exact InputState.view_screen rfl

def InputView.after (terminal : TerminalId) (view : InputView) : InputEvent → InputView
  | .key code => view.key terminal code
  | .call nbytes => { view with reader := some (Tty.ReadCall.start nbytes) }
  | .step => (view.reader.map fun call => view.advance call).getD view
  | .write _ => view
  | .print _ => view

theorem InputView.after_step {view : InputView} {call : Tty.ReadCall}
    (reading : view.reader = some call) : view.after terminal .step = view.advance call := by
  simp only [InputView.after, reading, Option.map_some, Option.getD_some]

theorem view_visible {state next : InputState} {event : InputEvent}
    (resumes : ResumesFlag terminal state event) (shown : hiddenFrom terminal state event = false)
    (taken : inputStep state event = some next) :
    next.view terminal = (state.view terminal).after terminal event := by
  cases event with
  | key code =>
      simp only [inputStep] at taken
      split at taken
      · cases taken
        by_cases here : state.current = terminal
        · exact InputState.view_pressed_here here
        · refine InputState.view_pressed_away here resumes ?_
          rintro rfl
          simp only [hiddenFrom, decide_eq_true here] at shown
          cases shown
      · cases taken
  | call nbytes =>
      have here : state.current = terminal := by simpa [hiddenFrom] using shown
      subst here
      simp only [inputStep] at taken
      split at taken
      · cases taken
      · cases taken
        apply InputView.ext
        · rfl
        · rfl
        · rfl
        · exact Function.update_self ..
        · rfl
        · rfl
  | step =>
      have here : state.current = terminal := by simpa [hiddenFrom] using shown
      subst here
      obtain ⟨call, reading, rfl⟩ := Option.map_eq_some_iff.mp taken
      have reader : (state.view state.current).reader = some call := reading
      rw [InputView.after_step reader]
      exact InputState.view_advanced rfl
  | write bytes =>
      simp only [inputStep] at taken
      split at taken
      · cases taken
      · cases taken
        exact InputState.view_screen (Tty.keyboard_terminalWrite bytes)
  | print bytes =>
      simp only [inputStep] at taken
      split at taken
      · cases taken
      · cases taken
        exact InputState.view_screen rfl

theorem hiddenFrom_congr {state other : InputState} (same : state.current = other.current)
    (event : InputEvent) : hiddenFrom terminal state event = hiddenFrom terminal other event := by
  cases event <;> simp only [hiddenFrom, same]

theorem visibleDetermined :
    VisibleDetermined inputStep (ResumesFlag terminal) (hiddenFrom terminal)
      (InputState.view terminal) := by
  intro state other event next next' resumes resumes' shown same taken taken'
  have current : state.current = other.current := congrArg InputView.current same
  have shown' : hiddenFrom terminal other event = false := hiddenFrom_congr current event ▸ shown
  rw [view_visible resumes shown taken, view_visible resumes' shown' taken', same]

structure SameReads (terminal : TerminalId) (state other : InputState) : Prop where
  returned : state.returned terminal = other.returned terminal
  reader : state.readers terminal = other.readers terminal

/-- Two runs that a terminal sees alike, each resuming it with the flag it left and storing every
key in its row, give it the same reads: they block at the same places and return the same bytes. -/
theorem inputIsolation_resumed (terminal : TerminalId) (start start' finish finish' : InputState)
    (events events' : List InputEvent) (same : start.view terminal = start'.view terminal)
    (path : Path inputStep (Apart terminal) start events finish)
    (path' : Path inputStep (Apart terminal) start' events' finish')
    (shown : visible inputStep (hiddenFrom terminal) start events =
      visible inputStep (hiddenFrom terminal) start' events') :
    SameReads terminal finish finish' := by
  have views := view_unwinding hiddenInvisible visibleDetermined (path.mono fun _ _ => Apart.resumes)
    (path'.mono fun _ _ => Apart.resumes) same shown
  exact ⟨congrArg InputView.returned views, congrArg InputView.reader views⟩

instance (terminal : TerminalId) (state : InputState) :
    (event : InputEvent) → Decidable (ResumesFlag terminal state event)
  | .key _ => inferInstanceAs (Decidable (_ → _ → _))
  | .call _ => isTrue trivial
  | .step => isTrue trivial
  | .write _ => isTrue trivial
  | .print _ => isTrue trivial

instance (state : InputState) : (event : InputEvent) → Decidable (InRow state event)
  | .key code => inferInstanceAs (Decidable (state.tty.KeyInRow code))
  | .call _ => isTrue trivial
  | .step => isTrue trivial
  | .write _ => isTrue trivial
  | .print _ => isTrue trivial

instance (terminal : TerminalId) (state : InputState) (event : InputEvent) :
    Decidable (Apart terminal state event) :=
  decidable_of_iff (ResumesFlag terminal state event ∧ InRow state event)
    ⟨fun ⟨resumes, inRow⟩ => ⟨resumes, inRow⟩, fun apart => ⟨apart.resumes, apart.inRow⟩⟩

def readAround (typed : List UInt8) : List InputEvent :=
  [.call 10, .key alt, .key f2, .key (alt ||| keyReleasedMask)] ++ typed.map .key ++
    [.key alt, .key f1, .step]

/-- ENTER on terminal 1 releases the read that terminal 0 is blocked in. -/
theorem inputIsolation_released :
    ∃ state state',
      Path inputStep (fun _ _ => True) blankInput (readAround [0x1E, enter]) state ∧
      Path inputStep (fun _ _ => True) blankInput (readAround [0x1E]) state' ∧
      visible inputStep (hiddenFrom 0) blankInput (readAround [0x1E, enter]) =
        visible inputStep (hiddenFrom 0) blankInput (readAround [0x1E]) ∧
      ¬SameReads 0 state state' := by
  have ran : ((runWhere inputStep (fun _ _ => True) blankInput (readAround [0x1E, enter])).bind
      fun state => (runWhere inputStep (fun _ _ => True) blankInput (readAround [0x1E])).map
        fun state' => decide (state.readers 0 = state'.readers 0)) = some false := by
    decide +kernel
  have shown : visible inputStep (hiddenFrom 0) blankInput (readAround [0x1E, enter]) =
      visible inputStep (hiddenFrom 0) blankInput (readAround [0x1E]) := by
    decide +kernel
  obtain ⟨state, computed, found⟩ := Option.bind_eq_some_iff.mp ran
  obtain ⟨state', computed', different⟩ := Option.map_eq_some_iff.mp found
  exact ⟨state, state', runWhere_path computed, runWhere_path computed', shown,
    fun reads => of_decide_eq_false different reads.reader⟩

theorem inputIsolation_resumed_letters :
    ∃ state state',
      Path inputStep (Apart 0) blankInput (readAround [0x1E, 0x30]) state ∧
      Path inputStep (Apart 0) blankInput (readAround [backspace]) state' ∧
      SameReads 0 state state' := by
  have ran : (runWhere inputStep (Apart 0) blankInput (readAround [0x1E, 0x30])).isSome =
    true := by decide +kernel
  have ran' : (runWhere inputStep (Apart 0) blankInput (readAround [backspace])).isSome =
    true := by decide +kernel
  have shown : visible inputStep (hiddenFrom 0) blankInput (readAround [0x1E, 0x30]) =
      visible inputStep (hiddenFrom 0) blankInput (readAround [backspace]) := by
    decide +kernel
  obtain ⟨state, computed⟩ := Option.isSome_iff_exists.mp ran
  obtain ⟨state', computed'⟩ := Option.isSome_iff_exists.mp ran'
  have path := runWhere_path computed
  have path' := runWhere_path computed'
  exact ⟨state, state', path, path',
    inputIsolation_resumed 0 blankInput blankInput state state' _ _ rfl path path' shown⟩

end G29Os
