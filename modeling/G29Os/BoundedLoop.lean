import Mathlib.Tactic.Common

/-! A `while` loop run on a step budget, and the rules that discharge the budget.
A loop whose variant fits the budget has left its test false. -/

namespace BoundedLoop

variable {σ : Type*} {test : σ → Bool} {body : σ → σ}

def whileLoop (test : σ → Bool) (body : σ → σ) : Nat → σ → σ
  | 0, state => state
  | fuel + 1, state => if test state then whileLoop test body fuel (body state) else state

theorem whileLoop_done {fuel : Nat} {state : σ} (stopped : test state = false) :
    whileLoop test body fuel state = state := by
  cases fuel <;> simp [whileLoop, stopped]

theorem whileLoop_step {fuel : Nat} {state : σ} (running : test state = true) :
    whileLoop test body (fuel + 1) state = whileLoop test body fuel (body state) := by
  simp [whileLoop, running]

/-- The total-correctness rule: an invariant kept by the body and a variant the body lowers. -/
theorem whileLoop_rule (test : σ → Bool) (body : σ → σ) (invariant : σ → Prop) (variant : σ → Nat)
    (keeps : ∀ state, invariant state → test state = true →
      invariant (body state) ∧ variant (body state) < variant state)
    (fuel : Nat) (state : σ) (initial : invariant state) (enough : variant state ≤ fuel) :
    invariant (whileLoop test body fuel state) ∧ test (whileLoop test body fuel state) = false := by
  induction fuel generalizing state with
  | zero =>
      refine ⟨initial, ?_⟩
      cases running : test state with
      | false => exact running
      | true =>
          have lowered := (keeps state initial running).2
          omega
  | succ fuel ih =>
      cases running : test state with
      | false =>
          rw [whileLoop_done running]
          exact ⟨initial, running⟩
      | true =>
          rw [whileLoop_step running]
          have next := keeps state initial running
          exact ih (body state) next.1 (by omega)

/-- The `while` loop itself, with no budget: from `state` it ends in `final`. -/
inductive Ends (test : σ → Bool) (body : σ → σ) : σ → σ → Prop
  | stop {state : σ} (stopped : test state = false) : Ends test body state state
  | round {state final : σ} (running : test state = true) (rest : Ends test body (body state) final) :
      Ends test body state final

theorem ends_whileLoop {fuel : Nat} {state : σ}
    (stopped : test (whileLoop test body fuel state) = false) :
    Ends test body state (whileLoop test body fuel state) := by
  induction fuel generalizing state with
  | zero => exact Ends.stop stopped
  | succ fuel ih =>
      cases running : test state with
      | false =>
          rw [whileLoop_done running]
          exact Ends.stop running
      | true =>
          rw [whileLoop_step running] at stopped ⊢
          exact Ends.round running (ih stopped)

end BoundedLoop
