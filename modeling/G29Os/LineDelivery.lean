import G29Os.TypedLine
import Mathlib.Data.List.Forall2

/-!
Line delivery within one terminal: what a `terminal_read` returns against what was typed,
for every interleaving of keys and reader steps in which the terminal is never left.
-/

namespace G29Os

open StepRun

namespace Tty

def promised (nbytes : Int) (line : List UInt8) : List UInt8 := line.take nbytes.toNat

def Serving (line : List UInt8) (call : ReadCall) : Prop :=
  match call.stage with
  | .waiting => call.moved = []
  | .testing => call.moved <+: promised call.nbytes line
  | .moving => call.moved <+: promised call.nbytes line ∧
      call.moved.length < (promised call.nbytes line).length
  | _ => call.moved = promised call.nbytes line

def remaining (line : List UInt8) (call : ReadCall) : Nat :=
  let left := 2 * ((promised call.nbytes line).length - call.moved.length)
  match call.stage with
  | .waiting => left + lineBuffer + 7
  | .testing => left + lineBuffer + 6
  | .moving => left + lineBuffer + 5
  | .clearing index => lineBuffer - index + 5
  | .clearingPosition => 4
  | .clearingSize => 3
  | .releasing => 2

structure SameSource (terminal : TerminalId) (tty next : Tty) : Prop where
  current : next.currTerminal = tty.currTerminal
  readBuffer : (next.lineState terminal).readBuffer = (tty.lineState terminal).readBuffer
  flag : next.keyboardRead = tty.keyboardRead

theorem moved_byte {buffer : Nat → UInt8} {line moved : List UInt8} {nbytes : Int}
    (holds : HoldsString buffer line) (served : moved <+: promised nbytes line) :
    (buffer moved.length ≠ 0 ∧ (moved.length : Int) < nbytes) ↔
      moved.length < (promised nbytes line).length := by
  have short := served.length_le
  simp only [promised, List.length_take] at short ⊢
  constructor
  · rintro ⟨real, below⟩
    have inside : moved.length < line.length := by
      rcases Nat.lt_or_eq_of_le (Nat.le_trans short (Nat.min_le_right _ _)) with inside | whole
      · exact inside
      · rw [whole] at real
        exact absurd holds.ends real
    omega
  · intro below
    have inside : moved.length < line.length := by omega
    refine ⟨?_, by omega⟩
    rw [holds.bytes _ inside]
    exact holds.nonzero _ (List.getElem_mem inside)

theorem prefix_snoc {moved whole : List UInt8} (served : moved <+: whole)
    (more : moved.length < whole.length) : moved ++ [whole[moved.length]] <+: whole := by
  obtain ⟨rest, rfl⟩ := served
  cases rest with
  | nil => simp at more
  | cons byte rest => exact ⟨rest, by simp⟩

theorem prefix_whole {moved whole : List UInt8} (served : moved <+: whole)
    (all : ¬moved.length < whole.length) : moved = whole :=
  served.eq_of_length_le (Nat.le_of_not_lt all)

theorem readStep_serving {terminal : TerminalId} {line : List UInt8} {call : ReadCall} {tty : Tty}
    (ready : tty.keyboardRead = true)
    (holds : HoldsString (tty.lineState terminal).readBuffer line) (serving : Serving line call) :
    (∃ call' tty', tty.readStep terminal call = .running call' tty' ∧ Serving line call' ∧
      call'.nbytes = call.nbytes ∧ call'.stage ≠ .waiting ∧
      remaining line call' < remaining line call ∧ SameSource terminal tty tty') ∨
    (call.stage = .releasing ∧
      tty.readStep terminal call = .finished (promised call.nbytes line) (setKeyboardRead false tty)) := by
  obtain ⟨nbytes, moved, stage⟩ := call
  cases stage with
  | waiting =>
      refine Or.inl ⟨_, tty, if_pos ready, ?_, rfl, by simp, by simp [remaining], ⟨rfl, rfl, rfl⟩⟩
      have none : moved = [] := serving
      rw [none]
      exact List.nil_prefix
  | testing =>
      have served : moved <+: promised nbytes line := serving
      by_cases more : moved.length < (promised nbytes line).length
      · refine Or.inl ⟨_, tty, if_pos ((moved_byte holds served).mpr more), ⟨served, more⟩, rfl,
          by simp, by simp [remaining], ⟨rfl, rfl, rfl⟩⟩
      · refine Or.inl ⟨_, tty, if_neg (more ∘ (moved_byte holds served).mp),
          prefix_whole served more, rfl, by simp, ?_, ⟨rfl, rfl, rfl⟩⟩
        simp only [remaining]
        omega
  | moving =>
      obtain ⟨served, more⟩ : moved <+: promised nbytes line ∧
        moved.length < (promised nbytes line).length := serving
      have inside : moved.length < line.length := by
        simp only [promised, List.length_take] at more
        omega
      have byte : (tty.lineState terminal).readBuffer moved.length =
          (promised nbytes line)[moved.length] := by
        rw [holds.bytes _ inside]
        simp [promised]
      refine Or.inl ⟨_, tty, rfl, ?_, rfl, by simp, ?_, ⟨rfl, rfl, rfl⟩⟩
      · have next := prefix_snoc served more
        rw [← byte] at next
        exact next
      · simp only [remaining, List.length_append, List.length_singleton]
        omega
  | clearing index =>
      have whole : moved = promised nbytes line := serving
      by_cases inside : index < lineBuffer
      · refine Or.inl ⟨_, setLine terminal index 0 tty, if_pos inside, whole, rfl, by simp, ?_,
          ⟨rfl, rfl, rfl⟩⟩
        simp only [remaining]
        omega
      · refine Or.inl ⟨_, tty, if_neg inside, whole, rfl, by simp, ?_, ⟨rfl, rfl, rfl⟩⟩
        simp only [remaining]
        omega
  | clearingPosition =>
      exact Or.inl ⟨_, setPosition terminal 0 tty, rfl, serving, rfl, by simp, by simp [remaining],
        ⟨rfl, rfl, rfl⟩⟩
  | clearingSize =>
      exact Or.inl ⟨_, setSize terminal 0 tty, rfl, serving, rfl, by simp, by simp [remaining],
        ⟨rfl, rfl, rfl⟩⟩
  | releasing =>
      have whole : moved = promised nbytes line := serving
      refine Or.inr ⟨rfl, ?_⟩
      simp only [readStep, whole]

def ReadStage.clears : ReadStage → Bool
  | .clearing _ => true
  | .clearingPosition => true
  | .clearingSize => true
  | _ => false

def ReadStage.Untyped (size : Nat) : ReadStage → Prop
  | .clearing index => size ≤ index
  | .clearingPosition => size = 0
  | .clearingSize => size = 0
  | _ => True

theorem ReadStage.Untyped.ofEmpty {stage : ReadStage} {size : Nat}
    (empty : stage.clears = true → size = 0) : stage.Untyped size := by
  cases stage with
  | clearing index => exact (empty rfl).symm ▸ Nat.zero_le index
  | clearingPosition => exact empty rfl
  | clearingSize => exact empty rfl
  | _ => trivial

theorem readStep_line {terminal : TerminalId} {call call' : ReadCall} {tty tty' : Tty}
    (fine : LineOk (tty.lineState terminal))
    (untyped : call.stage.Untyped (tty.lineState terminal).size)
    (taken : tty.readStep terminal call = .running call' tty') : tty'.keyboard = tty.keyboard := by
  obtain ⟨nbytes, moved, stage⟩ := call
  cases stage with
  | waiting =>
      simp only [readStep] at taken
      split at taken <;> cases taken <;> rfl
  | testing =>
      simp only [readStep] at taken
      split at taken <;> cases taken <;> rfl
  | moving =>
      cases taken
      rfl
  | clearing index =>
      simp only [readStep] at taken
      split at taken
      · rename_i inside
        cases taken
        have blank : (tty.lineState terminal).line index = 0 :=
          fine.blank index untyped inside
        have same : Function.update (tty.lineState terminal).line index 0 =
            (tty.lineState terminal).line := by
          rw [← blank, Function.update_eq_self]
        rw [setLine_eq, keyboard_setLineBuffer]
        refine Keyboard.changeLine_self ?_
        exact congrArg (fun line => { tty.lineState terminal with line := line }) same
      · cases taken
        rfl
  | clearingPosition =>
      cases taken
      have zero : (tty.lineState terminal).position = 0 := fine.counters.trans untyped
      rw [keyboard_setPosition]
      refine Keyboard.changeLine_self ?_
      exact congrArg (fun position => { tty.lineState terminal with position := position }) zero.symm
  | clearingSize =>
      cases taken
      rw [keyboard_setSize]
      refine Keyboard.changeLine_self ?_
      exact congrArg (fun size => { tty.lineState terminal with size := size }) untyped.symm
  | releasing => cases taken

end Tty

def Answers (line : List UInt8) (reply : ReadReply) : Prop :=
  reply.bytes = line.take reply.nbytes.toNat

structure Fresh (terminal : TerminalId) (state : InputState) : Prop where
  current : state.current = terminal
  line : LineOk (state.line terminal)
  unread : state.tty.keyboardRead = false
  idle : state.readers terminal = none
  noneEntered : state.entered terminal = []
  noneReturned : state.returned terminal = []

/-- The lines entered so far, split into those answered and at most one still waiting. -/
structure Ledger (terminal : TerminalId) (state : InputState) (delivered : List (List UInt8))
    (waiting : Option (List UInt8)) : Prop where
  current : state.current = terminal
  line : LineOk (state.line terminal)
  entered : state.entered terminal = delivered ++ waiting.toList
  returned : List.Forall₂ Answers delivered (state.returned terminal)
  flag : state.tty.keyboardRead = waiting.isSome
  holds : ∀ line, waiting = some line → HoldsString (state.line terminal).readBuffer line
  serves : ∀ call line, state.readers terminal = some call → waiting = some line →
    Tty.Serving line call
  waits : ∀ call, state.readers terminal = some call → waiting = none →
    call.stage = .waiting ∧ call.moved = []

def StaysOn (state : InputState) : InputEvent → Prop
  | .key code => (state.tty.afterKey code).currTerminal = state.current
  | _ => True

instance (state : InputState) : (event : InputEvent) → Decidable (StaysOn state event)
  | .key _ => inferInstanceAs (Decidable (_ = _))
  | .call _ => isTrue trivial
  | .step => isTrue trivial
  | .write _ => isTrue trivial
  | .print _ => isTrue trivial

def Orderly (state : InputState) (event : InputEvent) : Prop :=
  StaysOn state event ∧
    match event with
    | .key code => code = enter → state.tty.keyboardRead = false
    | .step => ∀ call ∈ state.readers state.current, call.stage.clears = true →
        (state.line state.current).size = 0
    | _ => True

instance (state : InputState) : (event : InputEvent) → Decidable (Orderly state event)
  | .key _ => inferInstanceAs (Decidable (_ ∧ (_ → _)))
  | .call _ => inferInstanceAs (Decidable (_ ∧ True))
  | .step => inferInstanceAs (Decidable (_ ∧ ∀ call ∈ state.readers state.current, _))
  | .write _ => inferInstanceAs (Decidable (_ ∧ True))
  | .print _ => inferInstanceAs (Decidable (_ ∧ True))

namespace Ledger

variable {terminal : TerminalId} {state next : InputState} {delivered : List (List UInt8)}
  {waiting : Option (List UInt8)}

theorem enterKey (ledger : Ledger terminal state delivered waiting)
    (orderly : Orderly state (.key enter)) :
    waiting = none ∧
      Ledger terminal (state.pressed enter) delivered (some (state.typed terminal ++ [10])) := by
  have unread : state.tty.keyboardRead = false := orderly.2 rfl
  have none : waiting = none := by
    rw [← Option.not_isSome_iff_eq_none, ← ledger.flag, unread]
    exact Bool.false_ne_true
  have line : (state.pressed enter).line terminal = (state.line terminal).enter := by
    rw [InputState.line_pressed ledger.current, LineState.key_enter]
  refine ⟨none, ?_⟩
  subst none
  constructor
  · exact orderly.1.trans ledger.current
  · rw [line]
    exact LineOk.enter
  · have old := ledger.entered
    simp only [Option.toList_none, List.append_nil] at old
    simp [InputState.pressed, ledger.current, old]
  · exact ledger.returned
  · change (state.tty.afterKey enter).keyboardRead = true
    rw [Tty.keyboardRead_afterKey, decide_eq_true rfl, Bool.or_true]
  · intro typed same
    cases same
    rw [line]
    exact ledger.line.enter_holds
  · intro call typed reading same
    obtain ⟨nbytes, moved, stage⟩ := call
    obtain ⟨atWait, unmoved⟩ := ledger.waits _ reading rfl
    cases atWait
    exact unmoved
  · intro call _ absent
    cases absent

theorem otherKey {code : UInt8} (ledger : Ledger terminal state delivered waiting)
    (orderly : Orderly state (.key code)) (ends : code ≠ enter) :
    Ledger terminal (state.pressed code) delivered waiting := by
  have line : (state.pressed code).line terminal = _ :=
    InputState.line_pressed ledger.current
  constructor
  · exact orderly.1.trans ledger.current
  · rw [line]
    exact ledger.line.key
  · simpa [InputState.pressed, ends] using ledger.entered
  · exact ledger.returned
  · change (state.tty.afterKey code).keyboardRead = waiting.isSome
    rw [Tty.keyboardRead_afterKey, decide_eq_false ends, Bool.or_false, ledger.flag]
  · intro typed same
    rw [line, LineState.readBuffer_key ends]
    exact ledger.holds typed same
  · exact ledger.serves
  · exact ledger.waits

theorem spin {call : Tty.ReadCall} (ledger : Ledger terminal state delivered none)
    (reading : state.readers terminal = some call) : state.advanced call = state := by
  obtain ⟨nbytes, moved, stage⟩ := call
  obtain ⟨atWait, _⟩ := ledger.waits _ reading rfl
  cases atWait
  have unread : ¬state.tty.keyboardRead = true := by
    rw [ledger.flag]
    exact Bool.false_ne_true
  have taken : state.tty.readStep state.current ⟨nbytes, moved, .waiting⟩ =
      .running ⟨nbytes, moved, .waiting⟩ state.tty := if_neg unread
  rw [InputState.advanced_running taken, ledger.current, ← reading, Function.update_eq_self]

theorem serve {call : Tty.ReadCall} {line : List UInt8}
    (ledger : Ledger terminal state delivered (some line))
    (reading : state.readers terminal = some call)
    (untyped : call.stage.clears = true → (state.line terminal).size = 0) :
    (Ledger terminal (state.advanced call) delivered (some line) ∨
      Ledger terminal (state.advanced call) (delivered ++ [line]) none) ∧
      (state.advanced call).line terminal = state.line terminal := by
  have current := ledger.current
  subst current
  have ready : state.tty.keyboardRead = true := ledger.flag
  rcases Tty.readStep_serving ready (ledger.holds line rfl) (ledger.serves call line reading rfl) with
    ⟨call', tty', taken, serving, _, _, _, same⟩ | ⟨_, taken⟩
  · have kept := Tty.readStep_line ledger.line (Tty.ReadStage.Untyped.ofEmpty untyped) taken
    rw [InputState.advanced_running taken]
    have unchanged : tty'.lineState = state.tty.lineState := congrArg Keyboard.lines kept
    have line' : tty'.lineState state.current = state.line state.current :=
      congrFun unchanged state.current
    refine ⟨Or.inl ?_, line'⟩
    constructor
    · exact same.current
    · change LineOk (tty'.lineState state.current)
      exact line' ▸ ledger.line
    · exact ledger.entered
    · exact ledger.returned
    · exact same.flag.trans ledger.flag
    · intro typed eq
      change HoldsString (tty'.lineState state.current).readBuffer typed
      exact line' ▸ ledger.holds typed eq
    · intro reader typed reads eq
      simp only [Function.update_self, Option.some.injEq] at reads
      cases eq
      exact reads ▸ serving
    · intro reader _ absent
      cases absent
  · rw [InputState.advanced_finished taken]
    refine ⟨Or.inr ?_, rfl⟩
    constructor
    · rfl
    · exact ledger.line
    · simpa using ledger.entered
    · simp only [Function.update_self]
      exact List.rel_append ledger.returned (List.Forall₂.cons rfl List.Forall₂.nil)
    · rfl
    · intro typed absent
      cases absent
    · intro reader typed reads
      simp at reads
    · intro reader reads
      simp at reads

theorem screen {tty : Tty} (ledger : Ledger terminal state delivered waiting)
    (same : tty.keyboard = state.tty.keyboard) :
    Ledger terminal { state with tty := tty } delivered waiting := by
  have lines : tty.lineState = state.tty.lineState := congrArg Keyboard.lines same
  have line : ({ state with tty := tty } : InputState).line terminal = state.line terminal :=
    congrFun lines terminal
  constructor
  · exact (congrArg Keyboard.current same).trans ledger.current
  · rw [line]
    exact ledger.line
  · exact ledger.entered
  · exact ledger.returned
  · exact (congrArg Keyboard.keyboardRead same).trans ledger.flag
  · rw [line]
    exact ledger.holds
  · exact ledger.serves
  · exact ledger.waits

theorem call {nbytes : Int} (ledger : Ledger terminal state delivered waiting) :
    Ledger terminal { state with
      readers := Function.update state.readers terminal (some (Tty.ReadCall.start nbytes)) }
      delivered waiting := by
  constructor
  · exact ledger.current
  · exact ledger.line
  · exact ledger.entered
  · exact ledger.returned
  · exact ledger.flag
  · exact ledger.holds
  · intro reader line reads _
    simp only [Function.update_self, Option.some.injEq] at reads
    subst reads
    rfl
  · intro reader reads _
    simp only [Function.update_self, Option.some.injEq] at reads
    subst reads
    exact ⟨rfl, rfl⟩

theorem step {event : InputEvent} (ledger : Ledger terminal state delivered waiting)
    (orderly : Orderly state event) (taken : inputStep state event = some next) :
    (∃ delivered waiting, Ledger terminal next delivered waiting) ∧
      (event ≠ .key backspace → event ≠ .key enter →
        state.typed terminal <+: next.typed terminal) := by
  have current := ledger.current
  cases event with
  | key code =>
      simp only [inputStep] at taken
      split at taken
      · cases taken
        by_cases ends : code = enter
        -- the last line has been read when ENTER comes, so its buffer is free
        · subst ends
          exact ⟨⟨_, _, (ledger.enterKey orderly).2⟩, fun _ absent => absurd rfl absent⟩
        · refine ⟨⟨_, _, ledger.otherKey orderly ends⟩, fun erases _ => ?_⟩
          have letter : code ≠ backspace := fun same => erases (congrArg _ same)
          rw [InputState.typed, InputState.typed, InputState.line_pressed ledger.current]
          exact ledger.line.typed_key ends letter
      · cases taken
  | call nbytes =>
      simp only [inputStep, current] at taken
      split at taken
      · cases taken
      · cases taken
        exact ⟨⟨_, _, ledger.call⟩, fun _ _ => List.prefix_refl _⟩
  | step =>
      obtain ⟨call, reading, taken⟩ := Option.map_eq_some_iff.mp taken
      subst taken
      have untyped := orderly.2 call reading
      rw [current] at reading untyped
      cases waiting with
      | none =>
          rw [ledger.spin reading]
          exact ⟨⟨_, _, ledger⟩, fun _ _ => List.prefix_refl _⟩
      | some line =>
          obtain ⟨served, unmoved⟩ := ledger.serve reading untyped
          constructor
          · rcases served with running | finished
            · exact ⟨_, _, running⟩
            · exact ⟨_, _, finished⟩
          · intro _ _
            simp only [InputState.typed, unmoved, List.prefix_refl]
  | write bytes =>
      simp only [inputStep] at taken
      split at taken
      · cases taken
      · cases taken
        have same : (state.tty.terminalWrite bytes).keyboard = state.tty.keyboard :=
          Tty.keyboard_terminalWrite bytes
        refine ⟨⟨_, _, ledger.screen same⟩, fun _ _ => ?_⟩
        have line : (state.tty.terminalWrite bytes).lineState terminal = state.line terminal :=
          congrFun (congrArg Keyboard.lines same) terminal
        change state.typed terminal <+: ((state.tty.terminalWrite bytes).lineState terminal).typed
        simp only [line, InputState.typed, List.prefix_refl]
  | print bytes =>
      simp only [inputStep] at taken
      split at taken
      · cases taken
      · cases taken
        exact ⟨⟨_, _, ledger.screen rfl⟩, fun _ _ => List.prefix_refl _⟩

theorem run {start : InputState} {events : List InputEvent}
    (ledger : Ledger terminal start delivered waiting)
    (path : Path inputStep Orderly start events state) :
    ∃ delivered waiting, Ledger terminal state delivered waiting := by
  refine path.preserves (fun state => ∃ delivered waiting, Ledger terminal state delivered waiting)
    ?_ ⟨_, _, ledger⟩
  rintro state event next orderly ⟨delivered, waiting, ledger⟩ taken
  exact (ledger.step orderly taken).1

theorem ofFresh (fresh : Fresh terminal state) : Ledger terminal state [] none := by
  constructor
  · exact fresh.current
  · exact fresh.line
  · simpa using fresh.noneEntered
  · rw [fresh.noneReturned]
    exact List.Forall₂.nil
  · exact fresh.unread
  · intro line absent
    cases absent
  · intro call line reads
    rw [fresh.idle] at reads
    cases reads
  · intro call reads
    rw [fresh.idle] at reads
    cases reads

end Ledger

theorem inputStep_step {terminal : TerminalId} {state : InputState} {call : Tty.ReadCall}
    (current : state.current = terminal) (reading : state.readers terminal = some call) :
    inputStep state .step = some (state.advanced call) := by
  simp [inputStep, current, reading]

theorem remaining_pos {line : List UInt8} {call : Tty.ReadCall} : 0 < Tty.remaining line call := by
  obtain ⟨nbytes, moved, stage⟩ := call
  cases stage <;> simp [Tty.remaining]

theorem reader_finishes {terminal : TerminalId} {line : List UInt8} {call : Tty.ReadCall}
    {state : InputState} (current : state.current = terminal)
    (ready : state.tty.keyboardRead = true)
    (holds : HoldsString (state.line terminal).readBuffer line)
    (reading : state.readers terminal = some call) (serving : Tty.Serving line call) :
    ∃ steps finish, Path inputStep (fun _ _ => True) state (List.replicate steps .step) finish ∧
      finish.readers terminal = none ∧
      finish.returned terminal = state.returned terminal ++
        [{ nbytes := call.nbytes, bytes := line.take call.nbytes.toNat }] := by
  obtain ⟨budget, enough⟩ : ∃ budget, Tty.remaining line call ≤ budget := ⟨_, Nat.le_refl _⟩
  induction budget generalizing state call with
  | zero =>
      have positive : 0 < Tty.remaining line call := remaining_pos
      omega
  | succ budget ih =>
      have advances := inputStep_step current reading
      subst current
      rcases Tty.readStep_serving ready holds serving with
        ⟨call', tty', taken, serving', asked, _, nearer, same⟩ | ⟨_, taken⟩
      · rw [InputState.advanced_running taken] at advances
        let next : InputState := { state with
          tty := tty'
          readers := Function.update state.readers state.current (some call') }
        have here : next.current = state.current := same.current
        have held : HoldsString (next.line state.current).readBuffer line := same.readBuffer ▸ holds
        obtain ⟨steps, finish, path, idle, replied⟩ := ih here (same.flag.trans ready) held
          (Function.update_self ..) serving' (by omega)
        rw [asked] at replied
        exact ⟨steps + 1, finish, Path.cons trivial advances path, idle, replied⟩
      · rw [InputState.advanced_finished taken] at advances
        refine ⟨1, _, Path.cons trivial advances (Path.nil _), Function.update_self .., ?_⟩
        exact Function.update_self ..

/-- Every line entered is answered by one read, in order, but for a last one that waits. -/
def DeliversInOrder (terminal : TerminalId) (state : InputState) : Prop :=
  ∃ delivered waiting, state.entered terminal = delivered ++ waiting ∧ waiting.length ≤ 1 ∧
    List.Forall₂ Answers delivered (state.returned terminal)

def AnswersWaiting (terminal : TerminalId) (state : InputState) : Prop :=
  ∀ delivered line call, state.entered terminal = delivered ++ [line] →
    (state.returned terminal).length = delivered.length → state.readers terminal = some call →
    ∃ steps finish, Path inputStep (fun _ _ => True) state (List.replicate steps .step) finish ∧
      finish.readers terminal = none ∧
      finish.returned terminal = state.returned terminal ++
        [{ nbytes := call.nbytes, bytes := line.take call.nbytes.toNat }]

def KeepsTyped (terminal : TerminalId) (state : InputState) (event : InputEvent)
    (next : InputState) : Prop :=
  event ≠ .key backspace → event ≠ .key enter → state.typed terminal <+: next.typed terminal

/-- In every run that never leaves the terminal, in which each ENTER finds the last line read
and no `clear_buffer` finds characters typed, the lines are delivered as typed. -/
theorem lineDelivery_orderly (terminal : TerminalId) (start state : InputState)
    (events : List InputEvent) (fresh : Fresh terminal start)
    (path : Path inputStep Orderly start events state) :
    DeliversInOrder terminal state ∧ AnswersWaiting terminal state ∧
      ∀ event next, Orderly state event → inputStep state event = some next →
        KeepsTyped terminal state event next := by
  obtain ⟨delivered, waiting, ledger⟩ := (Ledger.ofFresh fresh).run path
  refine ⟨⟨delivered, waiting.toList, ledger.entered, ?_, ledger.returned⟩, ?_, ?_⟩
  · cases waiting <;> simp
  · intro answered line call entered counted reading
    have lengths : delivered.length = (state.returned terminal).length := ledger.returned.length_eq
    have split : delivered ++ waiting.toList = answered ++ [line] := ledger.entered.symm.trans entered
    have parts := List.append_inj split (lengths.trans counted)
    cases waiting with
    | none => simp at parts
    | some waiting =>
        have same : waiting = line := by simpa using parts.2
        subst same
        exact reader_finishes ledger.current ledger.flag (ledger.holds _ rfl) reading
          (ledger.serves call _ reading rfl)
  · intro event next orderly taken
    exact (ledger.step orderly taken).2

def typedAhead : List InputEvent :=
  [.key 0x1E, .key enter, .key 0x30, .call 10] ++ List.replicate 6 .step

theorem blankInput_fresh : Fresh 0 blankInput := by
  refine ⟨rfl, ⟨rfl, by decide, ?_, fun _ _ _ => rfl⟩, rfl, rfl, rfl, rfl⟩
  intro index bound
  exact absurd bound (Nat.not_lt_zero index)

/-- The first store of that `clear_buffer` erases the `b`. -/
theorem lineDelivery_erasesTyped :
    Fresh 0 blankInput ∧ ∃ state next, Path inputStep StaysOn blankInput typedAhead state ∧
      inputStep state .step = some next ∧ ¬KeepsTyped 0 state .step next := by
  refine ⟨blankInput_fresh, ?_⟩
  have ran : ((runWhere inputStep StaysOn blankInput typedAhead).bind fun state =>
      (inputStep state .step).map fun next => (state.typed 0, next.typed 0)) =
        some ([98], [0]) := by
    decide +kernel
  obtain ⟨state, computed, found⟩ := Option.bind_eq_some_iff.mp ran
  obtain ⟨next, taken, lines⟩ := Option.map_eq_some_iff.mp found
  refine ⟨state, next, runWhere_path computed, taken, fun keeps => ?_⟩
  have kept := keeps (by decide) (by decide)
  rw [(Prod.mk.inj lines).1, (Prod.mk.inj lines).2] at kept
  exact absurd kept (by decide)

def readAfterEnter : List InputEvent :=
  [.key 0x1E, .call 10, .key 0x30, .key backspace, .key enter, .step, .step, .step]

theorem lineDelivery_orderly_reading :
    ∃ state, Path inputStep Orderly blankInput readAfterEnter state ∧
      DeliversInOrder 0 state ∧ AnswersWaiting 0 state ∧
      ∀ event next, Orderly state event → inputStep state event = some next →
        KeepsTyped 0 state event next := by
  have ran : (runWhere inputStep Orderly blankInput readAfterEnter).isSome = true := by
    decide +kernel
  obtain ⟨state, computed⟩ := Option.isSome_iff_exists.mp ran
  have path := runWhere_path computed
  exact ⟨state, path, lineDelivery_orderly 0 blankInput state readAfterEnter blankInput_fresh path⟩

end G29Os
