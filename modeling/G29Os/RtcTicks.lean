import G29Os.Devices
import G29Os.StepRun

/-!
`rtc_read` one access after the other, with any number of callers and the interrupts of the clock
between any two accesses. A caller waits for a tick of its own exactly if `rtc_flag` is clear when it
comes.
-/

namespace G29Os

open StepRun

inductive RtcStage where
  | outside
  | enabling
  | testing (tempFlag : Bool)
  | loading
  | clearing
  | returning

def RtcStage.Seen : RtcStage → Prop
  | .testing true | .clearing | .returning => True
  | _ => False

inductive RtcEvent (ι : Type*) where
  | tick
  | call (reader : ι)
  | access (reader : ι)

/-- `ticks` and `returned` are history: the interrupts handled since a caller came, and how many
there were when each call came back. -/
structure RtcWait (ι : Type*) where
  rtc : Rtc
  stage : ι → RtcStage
  ticks : ι → Nat
  returned : List (ι × Nat)

namespace RtcWait

variable {ι : Type*} [DecidableEq ι] {s next finish : RtcWait ι} {reader : ι} {stage : RtcStage}
  {events : List (RtcEvent ι)}

def moveTo (reader : ι) (stage : RtcStage) (s : RtcWait ι) : RtcWait ι :=
  { s with stage := Function.update s.stage reader stage }

def tick (s : RtcWait ι) : RtcWait ι :=
  { s with rtc := rtcHandler s.rtc, ticks := fun reader => s.ticks reader + 1 }

def call (reader : ι) (s : RtcWait ι) : RtcWait ι :=
  { s.moveTo reader .enabling with ticks := Function.update s.ticks reader 0 }

/-- The next access of the call: `sti`, a test of `temp_flag`, a load or the store of `rtc_flag`. -/
def access (reader : ι) (s : RtcWait ι) : RtcStage → RtcWait ι
  | .outside => s
  | .enabling => s.moveTo reader (.testing false)
  | .testing tempFlag => s.moveTo reader (if tempFlag then .clearing else .loading)
  | .loading => s.moveTo reader (.testing s.rtc.rtcFlag)
  | .clearing => { s.moveTo reader .returning with rtc := { s.rtc with rtcFlag := false } }
  | .returning => { s.moveTo reader .outside with returned := (reader, s.ticks reader) :: s.returned }

def step (s : RtcWait ι) : RtcEvent ι → Option (RtcWait ι)
  | .tick => some s.tick
  | .call reader =>
      match s.stage reader with
      | .outside => some (s.call reader)
      | _ => none
  | .access reader =>
      match s.stage reader with
      | .outside => none
      | stage => some (s.access reader stage)

@[simp] theorem stage_moveTo : (s.moveTo reader stage).stage reader = stage := Function.update_self ..

theorem stage_moveTo_other {other : ι} (apart : other ≠ reader) :
    (s.moveTo reader stage).stage other = s.stage other := Function.update_of_ne apart ..

theorem step_call (away : s.stage reader = .outside) : s.step (.call reader) = some (s.call reader) := by
  simp only [step, away]

theorem step_access (here : s.stage reader = stage) (inside : stage ≠ .outside) :
    s.step (.access reader) = some (s.access reader stage) := by
  cases stage with
  | outside => exact absurd rfl inside
  | enabling => simp only [step, here]
  | testing tempFlag => simp only [step, here]
  | loading => simp only [step, here]
  | clearing => simp only [step, here]
  | returning => simp only [step, here]

inductive Stepped (s : RtcWait ι) : RtcEvent ι → RtcWait ι → Prop where
  | tick : Stepped s .tick s.tick
  | call {reader : ι} (away : s.stage reader = .outside) : Stepped s (.call reader) (s.call reader)
  | access {reader : ι} {stage : RtcStage} (here : s.stage reader = stage) (inside : stage ≠ .outside) :
      Stepped s (.access reader) (s.access reader stage)

theorem step_stepped {event : RtcEvent ι} (done : s.step event = some next) : Stepped s event next := by
  cases event with
  | tick =>
      cases done
      exact Stepped.tick
  | call reader =>
      cases away : s.stage reader with
      | outside =>
          rw [step_call away] at done
          cases done
          exact Stepped.call away
      | _ =>
          simp only [step, away] at done
          cases done
  | access reader =>
      by_cases inside : s.stage reader = .outside
      · simp only [step, inside] at done
        cases done
      · rw [step_access rfl inside] at done
        cases done
        exact Stepped.access rfl inside

/-! ### Fresh ticks -/

def Fresh (s : RtcWait ι) : Prop := ∀ served ∈ s.returned, 0 < served.2

def StartsClear (s : RtcWait ι) : RtcEvent ι → Prop
  | .call _ => s.rtc.rtcFlag = false
  | .tick | .access _ => True

instance (s : RtcWait ι) : (event : RtcEvent ι) → Decidable (StartsClear s event)
  | .call _ => inferInstanceAs (Decidable (_ = _))
  | .tick | .access _ => isTrue trivial

structure Ticking (s : RtcWait ι) : Prop where
  flagged : s.rtc.rtcFlag = true → ∀ reader, s.stage reader ≠ .outside → 0 < s.ticks reader
  seen : ∀ reader, (s.stage reader).Seen → 0 < s.ticks reader
  fresh : Fresh s

omit [DecidableEq ι] in
theorem Ticking.tick (ticking : Ticking s) : Ticking s.tick where
  flagged _ reader _ := Nat.succ_pos (s.ticks reader)
  seen reader _ := Nat.succ_pos (s.ticks reader)
  fresh := ticking.fresh

theorem Ticking.call (ticking : Ticking s) (clear : s.rtc.rtcFlag = false) : Ticking (s.call reader) := by
  refine ⟨fun set => ?_, fun other seen => ?_, ticking.fresh⟩
  · cases clear.symm.trans set
  · change (Function.update s.stage reader .enabling other).Seen at seen
    rcases eq_or_ne other reader with same | apart
    · rw [same, Function.update_self] at seen
      exact seen.elim
    · rw [Function.update_of_ne apart] at seen
      change 0 < Function.update s.ticks reader 0 other
      rw [Function.update_of_ne apart]
      exact ticking.seen other seen

theorem Ticking.moveTo (ticking : Ticking s) (inside : s.stage reader ≠ .outside)
    (sees : stage.Seen → 0 < s.ticks reader) : Ticking (s.moveTo reader stage) := by
  refine ⟨fun set other there => ?_, fun other seen => ?_, ticking.fresh⟩
  · rcases eq_or_ne other reader with rfl | apart
    · exact ticking.flagged set other inside
    · rw [stage_moveTo_other apart] at there
      exact ticking.flagged set other there
  · rcases eq_or_ne other reader with rfl | apart
    · rw [stage_moveTo] at seen
      exact sees seen
    · rw [stage_moveTo_other apart] at seen
      exact ticking.seen other seen

theorem Ticking.access (ticking : Ticking s) (here : s.stage reader = stage)
    (inside : stage ≠ .outside) : Ticking (s.access reader stage) := by
  have within : s.stage reader ≠ .outside := here ▸ inside
  cases stage with
  | outside => exact absurd rfl inside
  | enabling => exact ticking.moveTo within False.elim
  | testing tempFlag =>
      cases tempFlag with
      | false => exact ticking.moveTo within False.elim
      | true =>
          have seen := ticking.seen reader (here ▸ trivial)
          exact ticking.moveTo within fun _ => seen
  | loading =>
      refine ticking.moveTo within fun seen => ?_
      cases set : s.rtc.rtcFlag with
      | false =>
          rw [set] at seen
          exact seen.elim
      | true => exact ticking.flagged set reader within
  | clearing =>
      have seen := ticking.seen reader (here ▸ trivial)
      have moved := @Ticking.moveTo _ _ _ _ .returning ticking within fun _ => seen
      exact ⟨fun set => Bool.noConfusion set, moved.seen, moved.fresh⟩
  | returning =>
      have seen := ticking.seen reader (here ▸ trivial)
      have moved := @Ticking.moveTo _ _ _ _ .outside ticking within False.elim
      refine ⟨moved.flagged, moved.seen, fun served listed => ?_⟩
      rcases List.mem_cons.mp listed with same | earlier
      · rw [same]
        exact seen
      · exact ticking.fresh served earlier

theorem Ticking.step {event : RtcEvent ι} (ticking : Ticking s) (clear : StartsClear s event)
    (done : s.step event = some next) : Ticking next := by
  cases step_stepped done with
  | tick => exact ticking.tick
  | call away => exact ticking.call clear
  | access here inside => exact ticking.access here inside

theorem path_access (stage : RtcStage) (here : s.stage reader = stage) (inside : stage ≠ .outside)
    (rest : Path step (fun _ _ => True) (s.access reader stage) events finish) :
    Path step (fun _ _ => True) s (.access reader :: events) finish :=
  Path.cons trivial (step_access here inside) rest

theorem returns_alone (away : s.stage reader = .outside) (set : s.rtc.rtcFlag = true) :
    ∃ finish, Path step (fun _ _ => True) s (.call reader :: List.replicate 6 (.access reader)) finish ∧
      finish.returned = (reader, 0) :: s.returned ∧ rtcRead s.rtc = some finish.rtc := by
  let stages : List RtcStage :=
    [.enabling, .testing false, .loading, .testing true, .clearing, .returning]
  have enabling : (s.call reader).stage reader = .enabling := Function.update_self ..
  have ticks : (s.call reader).ticks reader = 0 := Function.update_self ..
  refine ⟨stages.foldl (fun s stage => s.access reader stage) (s.call reader),
    Path.cons trivial (step_call away) ?_, ?_, ?_⟩
  · refine path_access .enabling enabling nofun ?_
    refine path_access (.testing false) stage_moveTo nofun ?_
    refine path_access .loading stage_moveTo nofun ?_
    refine path_access (.testing true) (stage_moveTo.trans ?_) nofun ?_
    · exact congrArg RtcStage.testing set
    refine path_access .clearing stage_moveTo nofun ?_
    refine path_access .returning stage_moveTo nofun ?_
    exact Path.nil _
  · exact congrArg (fun count => (reader, count) :: s.returned) ticks
  · rw [rtcRead, if_pos set]
    rfl

/-- In every interleaving whose calls all start with the flag clear, each call that is back has seen
a tick of its own; and a call that starts with the flag set can come back without one. -/
theorem rtcRead_freshTick {start : RtcWait ι} (quiet : ∀ reader, start.stage reader = .outside)
    (none : start.returned = []) :
    (∀ events finish, Path step StartsClear start events finish → Fresh finish) ∧
      ∀ events middle reader, Path step (fun _ _ => True) start events middle →
        middle.stage reader = .outside → middle.rtc.rtcFlag = true →
          ∃ alone finish, Path step (fun _ _ => True) middle (.call reader :: alone) finish ∧
            finish.returned = (reader, 0) :: middle.returned := by
  constructor
  · intro events finish path
    have ticking : Ticking start := by
      refine ⟨fun _ reader inside => absurd (quiet reader) inside, fun reader seen => ?_, ?_⟩
      · rw [quiet reader] at seen
        exact seen.elim
      · rw [Fresh, none]
        exact fun served listed => absurd listed List.not_mem_nil
    exact (path.preserves Ticking (fun _ _ _ clear ticking done => ticking.step clear done) ticking).fresh
  · intro events middle reader path away set
    obtain ⟨finish, alone, stale, -⟩ := returns_alone away set
    exact ⟨_, finish, alone, stale⟩

def quietRtc : RtcWait Unit where
  rtc := { rtcFlag := false, rtcOpenFlag := false, registerA := 0x26 }
  stage _ := .outside
  ticks _ := 0
  returned := []

/-- The tick comes before the call does. -/
theorem rtcRead_staleTick : ∃ finish, Path step (fun _ _ => True) quietRtc
    (.tick :: .call () :: List.replicate 6 (.access ())) finish ∧ ¬Fresh finish := by
  obtain ⟨finish, path, stale, -⟩ := @returns_alone Unit _ quietRtc.tick () rfl rfl
  refine ⟨finish, Path.cons trivial rfl path, fun fresh => ?_⟩
  exact Nat.lt_irrefl 0 (fresh ((), 0) (stale ▸ List.mem_cons_self))

theorem rtcRead_ownTick : ∃ events finish, Path step StartsClear quietRtc events finish ∧
    finish.returned = [((), 1)] ∧ Fresh finish := by
  let events : List (RtcEvent Unit) :=
    [.call (), .access (), .access (), .access (), .tick, .access (), .access (), .access (),
      .access (), .access ()]
  have ran : (runWhere step StartsClear quietRtc events).map returned = some [((), 1)] := by decide
  obtain ⟨finish, computed, returned⟩ := Option.map_eq_some_iff.mp ran
  have path := runWhere_path computed
  exact ⟨events, finish, path, returned,
    (rtcRead_freshTick (fun _ => rfl) rfl).1 events finish path⟩

end RtcWait

end G29Os
