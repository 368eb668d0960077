import G29Os.DriverSteps
import G29Os.InputIsolation
import G29Os.InterruptFlag
import G29Os.UserReads

/-!
What a read of a terminal can hear at most, however keys come between its accesses: the last
cell of each buffer holds its NUL always.
-/

namespace G29Os

open StepRun

namespace LineState

variable {state : LineState} {modifiers : Modifiers} {code : UInt8}

structure Capped (state : LineState) : Prop where
  line : state.line 127 = 0
  readBuffer : state.readBuffer 127 = 0

theorem Capped.enter (capped : state.Capped) (small : state.size < lineBuffer - 1) :
    state.enter.Capped := by
  refine ⟨by simp [LineState.enter, lineBuffer], ?_⟩
  rw [lineBuffer] at small
  have apart : 127 ≠ state.size := by omega
  have last : Function.update state.line state.size 10 127 = 0 := by
    rw [Function.update_of_ne apart]
    exact capped.line
  simp only [LineState.enter, Tty.strncpy, last]
  split
  · rfl
  · rw [if_pos (by decide)]

theorem Capped.backspace (capped : state.Capped)
    (inRow : state.position = 0 ∨ 0 < state.size ∧ state.size < lineBuffer - 1) :
    state.backspace.Capped := by
  rw [LineState.backspace]
  split
  · rename_i typed
    obtain ⟨-, small⟩ := inRow.resolve_left (Nat.pos_iff_ne_zero.mp typed)
    rw [lineBuffer] at small
    refine ⟨?_, capped.readBuffer⟩
    dsimp only
    rw [if_neg (by omega)]
    exact capped.line
  · exact capped

theorem Capped.insert {c : UInt8} (capped : state.Capped) (low : state.position < lineBuffer - 1)
    (small : state.size < lineBuffer - 2) : (state.insert c).Capped := by
  rw [lineBuffer] at low small
  refine ⟨?_, capped.readBuffer⟩
  simp only [LineState.insert]
  rw [if_neg (by omega), if_neg (by omega)]
  exact capped.line

theorem Capped.press (capped : state.Capped) (inRow : state.KeyInRow modifiers code) :
    (state.press code).Capped := by
  rw [LineState.press]
  split
  · exact capped.backspace (inRow.backspace ‹_›)
  · split
    · exact capped.enter (inRow.enter ‹_›)
    · exact capped

theorem type_press (edits : code = G29Os.backspace ∨ code = G29Os.enter) :
    state.type modifiers code = state := by
  have nul (table : List Char) (listed : table ∈
      [Tty.lowercaseChar, Tty.capsShiftChar, Tty.capsChar, Tty.uppercaseChar]) :
      UInt8.ofNat (table.getD code.toNat Tty.nul).toNat = 0 := by
    simp only [List.mem_cons, List.not_mem_nil, or_false] at listed
    rcases edits with rfl | rfl <;> rcases listed with rfl | rfl | rfl | rfl <;> decide
  have here : UInt8.ofNat (modifiers.table.getD code.toNat Tty.nul).toNat = 0 := by
    refine nul _ ?_
    rw [Modifiers.table]
    split
    · simp
    · split
      · simp
      · split <;> simp
  simp only [LineState.type, here, ne_eq, not_true_eq_false, if_false, ite_self]

theorem Capped.type (capped : state.Capped)
    (letter : state.Types modifiers code → state.position < lineBuffer - 1)
    (upper : modifiers.alt = false) (plain : ¬(modifiers.ctrl = true ∧ code = keyL)) :
    (state.type modifiers code).Capped := by
  rw [LineState.type]
  split
  · exact capped
  · rename_i full
    have small : state.size < lineBuffer - 2 := Nat.lt_of_not_le full
    split
    · dsimp only
      split
      · exact capped.insert (letter ⟨upper, plain, small, ‹_›, ‹_›⟩) small
      · exact capped
    · exact capped

theorem Capped.key (capped : state.Capped) (inRow : state.KeyInRow modifiers code) :
    (state.key modifiers code).Capped := by
  have pressed : (state.press code).Capped := capped.press inRow
  rw [LineState.key]
  split
  · exact pressed
  · split
    · exact pressed
    · rename_i upper plain
      by_cases edits : code = G29Os.backspace ∨ code = G29Os.enter
      · rw [type_press edits]
        exact pressed
      · obtain ⟨others, letters⟩ := not_or.mp edits
        rw [LineState.press, if_neg others, if_neg letters]
        exact capped.type inRow.letter (Bool.eq_false_iff.mpr upper) plain

end LineState

structure Tty.ReadCall.Short (call : Tty.ReadCall) : Prop where
  moved : call.moved.length < lineBuffer
  moving : call.stage = .moving → call.moved.length < 127

theorem LineState.Capped.access {state : LineState} {call : Tty.ReadCall} {flag : Bool}
    (capped : state.Capped) (short : call.Short) :
    (state.access call flag).2.2.Capped ∧
      ∀ next, (state.access call flag).1 = some next → next.Short := by
  obtain ⟨nbytes, moved, stage⟩ := call
  have still (stage : Tty.ReadStage) (other : stage ≠ .moving) :
      Tty.ReadCall.Short ⟨nbytes, moved, stage⟩ := ⟨short.moved, fun moving => absurd moving other⟩
  cases stage with
  | waiting =>
      refine ⟨capped, ?_⟩
      rintro next ⟨⟩
      dsimp only
      split
      · exact still _ (by simp)
      · exact short
  | testing =>
      rw [LineState.access]
      dsimp only
      split
      · rename_i more
        refine ⟨capped, ?_⟩
        rintro next ⟨⟩
        have room : moved.length < lineBuffer := short.moved
        have before : moved.length ≠ 127 := by
          intro last
          rw [last] at more
          exact more.1 capped.readBuffer
        simp only [lineBuffer] at room
        exact ⟨short.moved, fun _ => by dsimp only; omega⟩
      · refine ⟨capped, ?_⟩
        rintro next ⟨⟩
        exact still _ (by simp)
  | moving =>
      refine ⟨capped, ?_⟩
      rintro next ⟨⟩
      have room : moved.length < 127 := short.moving rfl
      refine ⟨?_, fun moving => by cases moving⟩
      simp only [List.length_append, List.length_singleton, lineBuffer]
      omega
  | clearing index =>
      rw [LineState.access]
      dsimp only
      split
      · refine ⟨⟨?_, capped.readBuffer⟩, ?_⟩
        · dsimp only
          rcases eq_or_ne 127 index with rfl | apart
          · exact Function.update_self ..
          · rw [Function.update_of_ne apart]
            exact capped.line
        · rintro next ⟨⟩
          exact still _ (by simp)
      · refine ⟨capped, ?_⟩
        rintro next ⟨⟩
        exact still _ (by simp)
  | clearingPosition =>
      refine ⟨⟨capped.line, capped.readBuffer⟩, ?_⟩
      rintro next ⟨⟩
      exact still _ (by simp)
  | clearingSize =>
      refine ⟨⟨capped.line, capped.readBuffer⟩, ?_⟩
      rintro next ⟨⟩
      exact still _ (by simp)
  | releasing =>
      refine ⟨capped, ?_⟩
      rintro next ⟨⟩

theorem Tty.readStep_nbytes {terminal : TerminalId} {call call' : Tty.ReadCall} {tty tty' : Tty}
    (taken : tty.readStep terminal call = .running call' tty') : call'.nbytes = call.nbytes := by
  obtain ⟨nbytes, moved, stage⟩ := call
  cases stage with
  | waiting =>
      simp only [Tty.readStep] at taken
      split at taken <;> cases taken <;> rfl
  | testing =>
      simp only [Tty.readStep] at taken
      split at taken <;> cases taken <;> rfl
  | clearing index =>
      simp only [Tty.readStep] at taken
      split at taken <;> cases taken <;> rfl
  | moving | clearingPosition | clearingSize =>
      cases taken
      rfl
  | releasing => cases taken

/-! ### The terminals -/

structure InputState.Capped (state : InputState) : Prop where
  lines : ∀ terminal, (state.line terminal).Capped
  readers : ∀ terminal call, state.readers terminal = some call → call.Short

theorem InputState.Capped.screen {state : InputState} (capped : state.Capped) {tty : Tty}
    (same : tty.keyboard = state.tty.keyboard) : InputState.Capped { state with tty := tty } where
  lines terminal := by
    have line : tty.lineState terminal = state.tty.lineState terminal :=
      congrArg (fun keyboard => Keyboard.lines keyboard terminal) same
    change (tty.lineState terminal).Capped
    rw [line]
    exact capped.lines terminal
  readers := capped.readers

theorem InputState.Capped.advanced {state : InputState} (capped : state.Capped) {call : Tty.ReadCall}
    (reading : state.readers state.current = some call) : (state.advanced call).Capped := by
  have short := capped.readers _ _ reading
  obtain ⟨next, flag, line, accessed, continues, keyboard⟩ :=
    Tty.readStep_access state.current call state.tty
  have kept := @LineState.Capped.access _ _ state.tty.keyboardRead (capped.lines state.current) short
  rw [show (state.line state.current) = state.tty.lineState state.current from rfl, accessed] at kept
  have lines (terminal : TerminalId) :
      ((state.tty.readStep state.current call).tty.lineState terminal).Capped := by
    have same : (state.tty.readStep state.current call).tty.lineState terminal =
        Function.update state.tty.lineState state.current line terminal :=
      congrArg (fun keyboard => Keyboard.lines keyboard terminal) keyboard
    rw [same]
    rcases eq_or_ne terminal state.current with rfl | away
    · rw [Function.update_self]
      exact kept.1
    · rw [Function.update_of_ne away]
      exact capped.lines terminal
  cases outcome : state.tty.readStep state.current call with
  | running call' tty =>
      rw [outcome] at lines continues
      rw [InputState.advanced_running outcome]
      refine ⟨lines, fun terminal other reads => ?_⟩
      dsimp only at reads
      rcases eq_or_ne terminal state.current with rfl | away
      · rw [Function.update_self] at reads
        cases reads
        exact kept.2 _ continues.symm
      · rw [Function.update_of_ne away] at reads
        exact capped.readers terminal other reads
  | finished bytes tty =>
      rw [outcome] at lines
      rw [InputState.advanced_finished outcome]
      refine ⟨lines, fun terminal other reads => ?_⟩
      dsimp only at reads
      rcases eq_or_ne terminal state.current with rfl | away
      · rw [Function.update_self] at reads
        cases reads
      · rw [Function.update_of_ne away] at reads
        exact capped.readers terminal other reads

theorem inputStep_capped {state next : InputState} {input : InputEvent} (capped : state.Capped)
    (taken : inputStep state input = some next) : next.Capped := by
  cases input with
  | key code =>
      rw [inputStep] at taken
      split at taken
      · rename_i inRow
        cases taken
        refine ⟨fun terminal => ?_, capped.readers⟩
        rcases eq_or_ne state.current terminal with here | away
        · rw [InputState.line_pressed here]
          subst here
          exact (capped.lines _).key inRow
        · rw [InputState.line_pressed_other away]
          exact capped.lines terminal
      · cases taken
  | call nbytes =>
      rw [inputStep] at taken
      split at taken
      · cases taken
      · cases taken
        refine ⟨capped.lines, fun terminal call reads => ?_⟩
        dsimp only at reads
        rcases eq_or_ne terminal state.current with rfl | away
        · rw [Function.update_self] at reads
          cases reads
          exact ⟨Nat.zero_lt_succ _, fun moving => by cases moving⟩
        · rw [Function.update_of_ne away] at reads
          exact capped.readers terminal call reads
  | step =>
      obtain ⟨call, reading, rfl⟩ := Option.map_eq_some_iff.mp taken
      exact capped.advanced reading
  | write bytes =>
      rw [inputStep] at taken
      split at taken <;> cases taken
      exact capped.screen (Tty.keyboard_terminalWrite bytes)
  | print bytes =>
      rw [inputStep] at taken
      split at taken <;> cases taken
      exact capped.screen rfl

namespace Kernel

variable {image : Image} {k next started last : Kernel} {terminal : TerminalId} {user : UserRead}

theorem step_capped {event : Event} (capped : k.inputs.Capped) (done : k.step image event = some next) :
    next.inputs.Capped := by
  obtain ⟨inputs, state, path, shows⟩ := step_followed done k.inputs ⟨rfl, fun _ => rfl⟩
  have kept := path.preserves InputState.Capped (fun _ _ _ _ capped taken => inputStep_capped capped taken) capped
  refine ⟨fun terminal => ?_, fun terminal call reads => ?_⟩
  · have line := kept.lines terminal
    rw [InputState.line, shows.tty] at line
    exact line
  · exact kept.readers terminal call ((shows.readers terminal).trans reads)

theorem capped_reachable (reached : Reachable (step image) (PoweredOn image) k) : k.inputs.Capped := by
  refine reached.invariant (fun k => k.inputs.Capped) ?_ fun _ _ _ capped done => step_capped capped done
  intro k poweredOn
  obtain ⟨booted, console, vbuffer, pic, tty⟩ := poweredOn
  refine ⟨fun terminal => ?_, fun terminal call reads => ?_⟩
  · change (k.tty.lineState terminal).Capped
    rw [tty]
    exact ⟨rfl, rfl⟩
  · simp only [inputs, booted.readers, Option.map_none] at reads
    cases reads

theorem step_asked {event : Event} (reads : k.readers terminal = some user)
    (done : k.step image event = some next) :
    next.readers terminal = none ∨
      ∃ later, next.readers terminal = some later ∧ later.call.nbytes = user.call.nbytes := by
  have same (readers : next.readers = k.readers) : next.readers terminal = none ∨
      ∃ later, next.readers terminal = some later ∧ later.call.nbytes = user.call.nbytes :=
    Or.inr ⟨user, readers ▸ reads, rfl⟩
  rcases eq_or_ne terminal k.current with rfl | away
  · have busy {process : Slot} (running : k.running = some process) : False := by
      have idle := running_idle running
      rw [reads] at idle
      cases idle
    cases step_occurs done with
    | key done => exact same (keyEvent_tty done).2.2
    | rtcTick => exact same rfl
    | firstShell done => exact same (executeStarted_silent done).readers
    | readAccess reading done =>
        cases reads.symm.trans reading
        rw [readAccess] at done
        cases outcome : k.tty.readStep k.current user.call with
        | finished bytes tty =>
            rw [outcome] at done
            cases done
            exact Or.inl (Function.update_self ..)
        | running call tty =>
            have asked := Tty.readStep_nbytes outcome
            rw [outcome] at done
            dsimp only at done
            refine Or.inr ⟨{ user with call := call }, ?_, asked⟩
            split at done
            · obtain ⟨⟨mem, rfl⟩, -⟩ := storeByte_stored done
              exact Function.update_self ..
            · cases done
              exact Function.update_self ..
    | executeFailed running => exact (busy running).elim
    | executeStarted running => exact (busy running).elim
    | halt running => exact (busy running).elim
    | read running => exact (busy running).elim
    | write running => exact (busy running).elim
    | opened running => exact (busy running).elim
    | closed running => exact (busy running).elim
    | stored running => exact (busy running).elim
  · rcases step_readers done with readers | others
    · exact same readers
    · exact Or.inr ⟨user, (others.others terminal away).trans reads, rfl⟩

theorem heard_bounded {events : List Event} {bytes : List UInt8} {tty : Tty}
    (reached : Reachable (step image) (PoweredOn image) started)
    (began : started.readers terminal = some user) (nonneg : 0 ≤ user.call.nbytes)
    (waits : Path (step image) (fun state _ => (state.readers terminal).isSome) started events last)
    {later : UserRead} (reading : last.readers terminal = some later)
    (copied : last.tty.readStep terminal later.call = .finished bytes tty) :
    (bytes.length : Int) ≤ user.call.nbytes ∧ bytes.length < lineBuffer := by
  have asked := waits.preserves
    (fun state => ∀ other, state.readers terminal = some other → other.call.nbytes = user.call.nbytes)
    (fun state event next still same done => by
      intro other reads
      obtain ⟨here, waiting⟩ := Option.isSome_iff_exists.mp still
      rcases step_asked waiting done with ended | ⟨again, goes, nbytes⟩
      · cases ended.symm.trans reads
      · cases goes.symm.trans reads
        exact nbytes.trans (same here waiting))
    (fun other reads => by cases began.symm.trans reads; rfl) later reading
  have ends := reached.path waits
  have shows : last.inputs.readers terminal = some later.call := by
    simp only [inputs, reading, Option.map_some]
  have bounded := readers_bounded (ends.mono fun _ poweredOn => poweredOn.1) terminal later.call shows
  have short := (capped_reachable ends).readers terminal later.call shows
  rw [Tty.readStep_bytes copied]
  exact ⟨asked ▸ (bounded (asked ▸ nonneg)).1, short.moved⟩

end Kernel

end G29Os
