import Mathlib.Tactic.Common

/-!
Runs of a machine whose step is a partial function: an event that cannot happen in a state
has no successor there. A path carries a condition on each state and event it takes.
-/

namespace StepRun

variable {σ ε ν : Type*} {step : σ → ε → Option σ} {ok : σ → ε → Prop}

inductive Path (step : σ → ε → Option σ) (ok : σ → ε → Prop) : σ → List ε → σ → Prop
  | nil (state : σ) : Path step ok state [] state
  | cons {state middle finish : σ} {event : ε} {events : List ε} (allowed : ok state event)
      (taken : step state event = some middle) (rest : Path step ok middle events finish) :
      Path step ok state (event :: events) finish

theorem Path.append {state middle finish : σ} {first second : List ε}
    (before : Path step ok state first middle) (after : Path step ok middle second finish) :
    Path step ok state (first ++ second) finish := by
  induction before with
  | nil => exact after
  | cons allowed taken _ ih => exact Path.cons allowed taken (ih after)

theorem Path.mono {weaker : σ → ε → Prop} {state finish : σ} {events : List ε}
    (implied : ∀ state event, ok state event → weaker state event)
    (path : Path step ok state events finish) : Path step weaker state events finish := by
  induction path with
  | nil => exact Path.nil _
  | cons allowed taken _ ih => exact Path.cons (implied _ _ allowed) taken ih

theorem Path.preserves (invariant : σ → Prop)
    (keeps : ∀ state event next, ok state event → invariant state →
      step state event = some next → invariant next)
    {state finish : σ} {events : List ε} (path : Path step ok state events finish)
    (initial : invariant state) : invariant finish := by
  induction path with
  | nil => exact initial
  | cons allowed taken _ ih => exact ih (keeps _ _ _ allowed initial taken)

theorem Path.withInvariant (invariant : σ → Prop)
    (keeps : ∀ state event next, ok state event → invariant state →
      step state event = some next → invariant next)
    {state finish : σ} {events : List ε} (path : Path step ok state events finish)
    (initial : invariant state) :
    Path step (fun state event => ok state event ∧ invariant state) state events finish := by
  induction path with
  | nil => exact Path.nil _
  | cons allowed taken _ ih =>
      exact Path.cons ⟨allowed, initial⟩ taken (ih (keeps _ _ _ allowed initial taken))

theorem Path.listed {state finish : σ} {events : List ε} (path : Path step ok state events finish) :
    Path step (fun state event => ok state event ∧ event ∈ events) state events finish := by
  induction path with
  | nil state => exact Path.nil state
  | cons allowed taken _ ih =>
      refine Path.cons ⟨allowed, List.mem_cons_self⟩ taken (ih.mono ?_)
      exact fun _ _ both => ⟨both.1, List.mem_cons_of_mem _ both.2⟩

def Reachable (step : σ → ε → Option σ) (start : σ → Prop) (state : σ) : Prop :=
  ∃ first events, start first ∧ Path step (fun _ _ => True) first events state

theorem Reachable.invariant {start : σ → Prop} (invariant : σ → Prop)
    (initially : ∀ state, start state → invariant state)
    (keeps : ∀ state event next, invariant state → step state event = some next → invariant next)
    {state : σ} (reached : Reachable step start state) : invariant state := by
  obtain ⟨first, events, started, path⟩ := reached
  exact path.preserves invariant (fun state event next _ => keeps state event next)
    (initially first started)

theorem Reachable.next {start : σ → Prop} {state later : σ} {event : ε} (reached : Reachable step start state)
    (taken : step state event = some later) : Reachable step start later := by
  obtain ⟨first, events, started, path⟩ := reached
  exact ⟨first, events ++ [event], started, path.append (Path.cons trivial taken (Path.nil later))⟩

theorem Reachable.path {start : σ → Prop} {state later : σ} {events : List ε}
    (reached : Reachable step start state) (path : Path step ok state events later) :
    Reachable step start later := by
  obtain ⟨first, before, started, reaches⟩ := reached
  exact ⟨first, before ++ events, started, reaches.append (path.mono fun _ _ _ => trivial)⟩

theorem Reachable.mono {start weaker : σ → Prop} {state : σ} (implied : ∀ first, start first → weaker first)
    (reached : Reachable step start state) : Reachable step weaker state := by
  obtain ⟨first, events, started, path⟩ := reached
  exact ⟨first, events, implied first started, path⟩

/-- Steps that another machine follows, in any number of its own steps, make runs that it
follows. -/
theorem Path.simulate {σ' ε' : Type*} {step' : σ' → ε' → Option σ'} {related : σ → σ' → Prop}
    (follows : ∀ state event next other, related state other → step state event = some next →
      ∃ events' other', Path step' (fun _ _ => True) other events' other' ∧ related next other')
    {state finish : σ} {events : List ε} {other : σ'} (path : Path step ok state events finish)
    (start : related state other) :
    ∃ events' other', Path step' (fun _ _ => True) other events' other' ∧ related finish other' := by
  induction path generalizing other with
  | nil => exact ⟨[], other, Path.nil other, start⟩
  | cons _ taken _ ih =>
      obtain ⟨first, middle, before, related'⟩ := follows _ _ _ _ start taken
      obtain ⟨later, finish', after, ends⟩ := ih related'
      exact ⟨first ++ later, finish', before.append after, ends⟩

theorem Path.restricted {step' : σ → ε → Option σ}
    (refines : ∀ state event next, step' state event = some next → step state event = some next)
    {state finish : σ} {events : List ε} (path : Path step' ok state events finish) :
    Path step ok state events finish := by
  induction path with
  | nil state => exact Path.nil state
  | cons allowed taken _ ih => exact Path.cons allowed (refines _ _ _ taken) ih

def runWhere (step : σ → ε → Option σ) (ok : σ → ε → Prop)
    [∀ state event, Decidable (ok state event)] : σ → List ε → Option σ
  | state, [] => some state
  | state, event :: events =>
      if ok state event then (step state event).bind fun next => runWhere step ok next events
      else none

theorem runWhere_path [∀ state event, Decidable (ok state event)] {state finish : σ} {events : List ε}
    (computed : runWhere step ok state events = some finish) :
    Path step ok state events finish := by
  induction events generalizing state with
  | nil =>
      cases computed
      exact Path.nil _
  | cons event events ih =>
      simp only [runWhere] at computed
      split at computed
      · rename_i allowed
        obtain ⟨next, taken, rest⟩ := Option.bind_eq_some_iff.mp computed
        exact Path.cons allowed taken (ih rest)
      · cases computed

def passes (step : σ → ε → Option σ) (seen : σ → Prop) : σ → List ε → Prop
  | state, [] => seen state
  | state, event :: events =>
      seen state ∨ ∃ next, step state event = some next ∧ passes step seen next events

theorem Path.flag_iff (invariant flag seen : σ → Prop)
    (keeps : ∀ state event next, invariant state → step state event = some next → invariant next)
    (raised : ∀ state, invariant state → seen state → flag state)
    (marks : ∀ state event next, invariant state → step state event = some next →
      (flag next ↔ flag state ∨ seen next))
    {state finish : σ} {events : List ε} (path : Path step ok state events finish)
    (initial : invariant state) : flag finish ↔ flag state ∨ passes step seen state events := by
  induction path with
  | nil state =>
      exact ⟨Or.inl, fun either => either.elim id (raised state initial)⟩
  | @cons state middle finish event events allowed taken rest ih =>
      have later : invariant middle := keeps state event middle initial taken
      have mark := marks state event middle initial taken
      have first : seen middle → passes step seen middle events := by
        intro here
        cases events with
        | nil => exact here
        | cons next events => exact Or.inl here
      rw [ih later, mark]
      constructor
      · rintro ((before | here) | after)
        · exact Or.inl before
        · exact Or.inr (Or.inr ⟨middle, taken, first here⟩)
        · exact Or.inr (Or.inr ⟨middle, taken, after⟩)
      · rintro (before | here | ⟨next, taken', after⟩)
        · exact Or.inl (Or.inl before)
        · exact Or.inl (Or.inl (raised state initial here))
        · cases taken.symm.trans taken'
          exact Or.inr after

/-! ### Records beside a run -/

section Records

variable {η : Type*} {note : σ → ε → σ → η → η}

def recorded (step : σ → ε → Option σ) (note : σ → ε → σ → η → η) : σ → List ε → η → η
  | _, [], record => record
  | state, event :: events, record =>
      match step state event with
      | none => record
      | some next => recorded step note next events (note state event next record)

theorem recorded_cons {state next : σ} {event : ε} {events : List ε} {record : η}
    (taken : step state event = some next) :
    recorded step note state (event :: events) record =
      recorded step note next events (note state event next record) := by
  rw [recorded, taken]

theorem Path.recorded_append {state middle finish : σ} {first second : List ε} {record : η}
    (before : Path step ok state first middle) (after : Path step ok middle second finish) :
    recorded step note state (first ++ second) record =
      recorded step note middle second (recorded step note state first record) := by
  induction before generalizing record with
  | nil => rfl
  | cons _ taken _ ih => rw [List.cons_append, recorded_cons taken, recorded_cons taken, ih after]

theorem Path.recorded_invariant (invariant : σ → η → Prop) {state finish : σ} {events : List ε}
    {record : η}
    (keeps : ∀ state event next record, ok state event → invariant state record →
      step state event = some next → invariant next (note state event next record))
    (path : Path step ok state events finish) (initial : invariant state record) :
    invariant finish (recorded step note state events record) := by
  induction path generalizing record with
  | nil => exact initial
  | cons allowed taken _ ih =>
      rw [recorded_cons taken]
      exact ih (keeps _ _ _ _ allowed initial taken)

theorem Path.recorded_restricted {step' : σ → ε → Option σ}
    (refines : ∀ state event next, step' state event = some next → step state event = some next)
    {state finish : σ} {events : List ε} {record : η} (path : Path step' ok state events finish) :
    recorded step' note state events record = recorded step note state events record := by
  induction path generalizing record with
  | nil => rfl
  | cons _ taken _ ih => rw [recorded_cons taken, recorded_cons (refines _ _ _ taken), ih]

end Records

def visible (step : σ → ε → Option σ) (hidden : σ → ε → Bool) : σ → List ε → List ε
  | _, [] => []
  | state, event :: events =>
      match step state event with
      | none => []
      | some next =>
          if hidden state event then visible step hidden next events
          else event :: visible step hidden next events

section Unwinding

variable {hidden : σ → ε → Bool} {view : σ → ν}

theorem visible_hidden {state next : σ} {event : ε} {events : List ε}
    (taken : step state event = some next) (unseen : hidden state event = true) :
    visible step hidden state (event :: events) = visible step hidden next events := by
  simp [visible, taken, unseen]

theorem visible_shown {state next : σ} {event : ε} {events : List ε}
    (taken : step state event = some next) (seen : hidden state event = false) :
    visible step hidden state (event :: events) = event :: visible step hidden next events := by
  simp [visible, taken, seen]

def HiddenInvisible (step : σ → ε → Option σ) (ok : σ → ε → Prop) (hidden : σ → ε → Bool)
    (view : σ → ν) : Prop :=
  ∀ state event next, ok state event → hidden state event = true →
    step state event = some next → view next = view state

def VisibleDetermined (step : σ → ε → Option σ) (ok : σ → ε → Prop) (hidden : σ → ε → Bool)
    (view : σ → ν) : Prop :=
  ∀ state other event next next', ok state event → ok other event →
    hidden state event = false → view state = view other →
    step state event = some next → step other event = some next' → view next = view next'

theorem view_of_noneVisible (invisible : HiddenInvisible step ok hidden view)
    {state finish : σ} {events : List ε} (path : Path step ok state events finish)
    (none : visible step hidden state events = []) : view finish = view state := by
  induction path with
  | nil => rfl
  | @cons state middle finish event events allowed taken rest ih =>
      cases seen : hidden state event with
      | true =>
          rw [visible_hidden taken seen] at none
          rw [ih none, invisible state event middle allowed seen taken]
      | false =>
          rw [visible_shown taken seen] at none
          cases none

theorem Path.view_fold {act : ν → ε → ν} (invisible : HiddenInvisible step ok hidden view)
    (acts : ∀ state event next, ok state event → hidden state event = false →
      step state event = some next → view next = act (view state) event)
    {state finish : σ} {events : List ε} (path : Path step ok state events finish) :
    view finish = (visible step hidden state events).foldl act (view state) := by
  induction path with
  | nil => rfl
  | @cons state middle finish event events allowed taken rest ih =>
      cases seen : hidden state event with
      | true =>
          rw [visible_hidden taken seen, ih, invisible state event middle allowed seen taken]
      | false =>
          rw [visible_shown taken seen, List.foldl_cons, ih,
            acts state event middle allowed seen taken]

theorem Path.splitVisible (invisible : HiddenInvisible step ok hidden view)
    {state finish : σ} {events : List ε} (path : Path step ok state events finish)
    {event : ε} {shown : List ε} (first : visible step hidden state events = event :: shown) :
    ∃ before after rest, view before = view state ∧ ok before event ∧
      hidden before event = false ∧ step before event = some after ∧
      Path step ok after rest finish ∧ visible step hidden after rest = shown := by
  induction path with
  | nil => cases first
  | @cons state middle finish head events allowed taken rest ih =>
      cases seen : hidden state head with
      | true =>
          rw [visible_hidden taken seen] at first
          obtain ⟨before, after, tail, same, found⟩ := ih first
          exact ⟨before, after, tail,
            same.trans (invisible state head middle allowed seen taken), found⟩
      | false =>
          rw [visible_shown taken seen] at first
          cases first
          exact ⟨state, middle, events, rfl, allowed, seen, taken, rest, rfl⟩

/-- Two paths that show the same events from equal views end in equal views. -/
theorem view_unwinding (invisible : HiddenInvisible step ok hidden view)
    (determined : VisibleDetermined step ok hidden view)
    {state other finish finish' : σ} {events events' : List ε}
    (path : Path step ok state events finish) (path' : Path step ok other events' finish')
    (same : view state = view other)
    (shown : visible step hidden state events = visible step hidden other events') :
    view finish = view finish' := by
  induction path generalizing other events' with
  | nil state =>
      rw [view_of_noneVisible invisible path' shown.symm, same]
  | @cons state middle finish event events allowed taken rest ih =>
      cases seen : hidden state event with
      | true =>
          rw [visible_hidden taken seen] at shown
          have unmoved := invisible state event middle allowed seen taken
          exact ih path' (unmoved.trans same) shown
      | false =>
          rw [visible_shown taken seen] at shown
          obtain ⟨before, after, tail, sameBefore, allowed', _, taken', rest', shown'⟩ :=
            path'.splitVisible invisible shown.symm
          have sameAfter := determined state before event middle after allowed allowed' seen
            (same.trans sameBefore.symm) taken taken'
          exact ih rest' sameAfter shown'.symm

end Unwinding

end StepRun
