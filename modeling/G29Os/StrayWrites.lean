import G29Os.StepRun

/-!
A machine whose state lies in memory cells where others write too. A step may leave strays: bytes
that somebody put in a cell, which the state is then read back from. Runs whose steps leave none are
runs of the machine alone, and their cells hold what the machine stored.
-/

namespace StrayWrites

open StepRun

variable {σ ε α β : Type*}

/-- `cell` is what a state puts in a cell, `reads` the cells that a step looks at, `renews` those it
stores whatever they held, and `reload` the state as the cells show it. -/
structure Layout (σ ε α β : Type*) where
  step : σ → ε → Option σ
  cell : σ → α → β
  reads : σ → ε → α → Prop
  renews : σ → ε → σ → α → Bool
  reload : (α → Option β) → σ → σ
  reload_none : ∀ state, reload (fun _ => none) state = state

structure Strayed (σ α β : Type*) where
  state : σ
  stray : α → Option β

structure Move (ε α β : Type*) where
  event : ε
  writes : α → Option β

def Strayed.alone (state : σ) : Strayed σ α β := { state := state, stray := fun _ => none }

def Move.quiet (event : ε) : Move ε α β := { event := event, writes := fun _ => none }

def Move.Clear (move : Move ε α β) : Prop := ∀ a, move.writes a = none

namespace Layout

variable {layout : Layout σ ε α β} {s next : Strayed σ α β} {move : Move ε α β}

def memory (layout : Layout σ ε α β) (s : Strayed σ α β) (a : α) : β :=
  (s.stray a).getD (layout.cell s.state a)

def settled (layout : Layout σ ε α β) (s : Strayed σ α β) (move : Move ε α β) (state : σ) :
    Strayed σ α β :=
  let stray := fun a => (move.writes a).or
    (if layout.renews s.state move.event state a then none else s.stray a)
  { state := layout.reload stray state, stray := stray }

def run (layout : Layout σ ε α β) (s : Strayed σ α β) (move : Move ε α β) : Option (Strayed σ α β) :=
  (layout.step s.state move.event).map (layout.settled s move)

/-- What the step looks at is what the state has there, and stays so while it looks. -/
def Undisturbed (layout : Layout σ ε α β) (s : Strayed σ α β) (move : Move ε α β) : Prop :=
  ∀ a, layout.reads s.state move.event a →
    move.writes a = none ∧ layout.memory s a = layout.cell s.state a

theorem run_taken {after : σ} (taken : layout.step s.state move.event = some after) :
    layout.run s move = some (layout.settled s move after) := by
  rw [run, taken]
  rfl

theorem memory_written {state : σ} {a : α} {byte : β} (written : move.writes a = some byte) :
    layout.memory (layout.settled s move state) a = byte := by
  simp only [memory, settled, written, Option.some_or, Option.getD_some]

theorem settled_clear {state : σ} (clear : move.Clear) (before : s = Strayed.alone s.state) :
    layout.settled s move state = Strayed.alone state := by
  have absent (a : α) : s.stray a = none := by
    rw [before]
    rfl
  have stray : (fun a => (move.writes a).or
      (if layout.renews s.state move.event state a then none else s.stray a)) = fun _ => none := by
    funext a
    rw [clear a, absent a, ite_self]
    rfl
  simp only [settled, stray, layout.reload_none, Strayed.alone]

theorem run_clear (clear : move.Clear) (before : s = Strayed.alone s.state)
    (done : layout.run s move = some next) :
    layout.step s.state move.event = some next.state ∧ next = Strayed.alone next.state := by
  obtain ⟨state, taken, rfl⟩ := Option.map_eq_some_iff.mp done
  rw [settled_clear clear before]
  exact ⟨taken, rfl⟩

theorem path_clear {ok : Strayed σ α β → Move ε α β → Prop} {allowed : σ → ε → Prop}
    (clear : ∀ s move, ok s move → move.Clear ∧ allowed s.state move.event) {moves : List (Move ε α β)}
    (path : Path layout.run ok s moves next) (before : s = Strayed.alone s.state) :
    Path layout.step allowed s.state (moves.map Move.event) next.state ∧ next = Strayed.alone next.state := by
  induction path with
  | nil s => exact ⟨Path.nil s.state, before⟩
  | cons permitted taken _ ih =>
      obtain ⟨free, within⟩ := clear _ _ permitted
      obtain ⟨done, after⟩ := run_clear free before taken
      obtain ⟨later, last⟩ := ih after
      exact ⟨Path.cons within done later, last⟩

theorem run_quiet {state after : σ} {event : ε} (taken : layout.step state event = some after) :
    layout.run (Strayed.alone state) (Move.quiet event) = some (Strayed.alone after) := by
  rw [run_taken taken]
  exact congrArg some (settled_clear (fun _ => rfl) rfl)

theorem undisturbed_clear (clear : move.Clear) (before : s = Strayed.alone s.state) : layout.Undisturbed s move := by
  intro a _
  rw [before]
  exact ⟨clear a, rfl⟩

theorem path_quiet {ok : σ → ε → Prop} {allowed : Strayed σ α β → Move ε α β → Prop} {state last : σ}
    {events : List ε} (permits : ∀ state event, ok state event → allowed (Strayed.alone state) (Move.quiet event))
    (path : Path layout.step ok state events last) :
    Path layout.run allowed (Strayed.alone state) (events.map Move.quiet) (Strayed.alone last) := by
  induction path with
  | nil state => exact Path.nil _
  | cons within taken _ ih => exact Path.cons (permits _ _ within) (run_quiet taken) ih

end Layout

end StrayWrites
