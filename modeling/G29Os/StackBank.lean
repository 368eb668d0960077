import Mathlib.Data.Fintype.Pi
import Mathlib.Data.List.Infix
import Mathlib.Logic.Function.Basic

/-! Several stacks, one of which is in front. What lies below a cell stays until the cell is popped. -/

namespace StackBank

variable {ι α : Type*}

structure Bank (ι α : Type*) where
  front : ι
  stack : ι → List α

inductive Move (ι α : Type*)
  | stay
  | push (cell : α)
  | pop
  | replace (cell : α)
  | bring (target : ι)

namespace Bank

variable [DecidableEq ι] {bank next : Bank ι α} {move : Move ι α} {i : ι} {base : List α}

def put (bank : Bank ι α) (cells : List α) : Bank ι α :=
  { bank with stack := Function.update bank.stack bank.front cells }

@[simp] theorem put_stack (cells : List α) : (bank.put cells).stack bank.front = cells :=
  Function.update_self ..

theorem put_other {cells : List α} (away : i ≠ bank.front) : (bank.put cells).stack i = bank.stack i :=
  Function.update_of_ne away ..

/-- Only a cell with others below it is popped, and only a cell with none is replaced. A cell is
on one stack at most. -/
def apply [Fintype ι] [DecidableEq α] (bank : Bank ι α) : Move ι α → Option (Bank ι α)
  | .stay => some bank
  | .push cell =>
      if ∀ i, cell ∉ bank.stack i then some (bank.put (cell :: bank.stack bank.front)) else none
  | .pop =>
      match bank.stack bank.front with
      | _ :: below :: rest => some (bank.put (below :: rest))
      | _ => none
  | .replace cell =>
      match bank.stack bank.front with
      | [_] => if ∀ i, i ≠ bank.front → cell ∉ bank.stack i then some (bank.put [cell]) else none
      | _ => none
  | .bring target => if target ≠ bank.front then some { bank with front := target } else none

def taken (bank : Bank ι α) : Move ι α → Option α
  | .pop => (bank.stack bank.front).head?
  | .replace _ => (bank.stack bank.front).head?
  | _ => none

structure Apart (bank : Bank ι α) : Prop where
  once : ∀ i, (bank.stack i).Nodup
  one : ∀ i j, i ≠ j → ∀ cell ∈ bank.stack i, cell ∉ bank.stack j

variable [Fintype ι] [DecidableEq α]

theorem apply_pop (done : bank.apply .pop = some next) :
    ∃ cell below rest, bank.stack bank.front = cell :: below :: rest ∧ next = bank.put (below :: rest) := by
  rw [apply] at done
  split at done
  · rename_i cell below rest stack
    cases done
    exact ⟨cell, below, rest, stack, rfl⟩
  · cases done

theorem apply_replace {cell : α} (done : bank.apply (.replace cell) = some next) :
    ∃ old, bank.stack bank.front = [old] ∧ (∀ i, i ≠ bank.front → cell ∉ bank.stack i) ∧
      next = bank.put [cell] := by
  rw [apply] at done
  split at done
  · rename_i old stack
    split at done
    · rename_i free
      cases done
      exact ⟨old, stack, free, rfl⟩
    · cases done
  · cases done

theorem apply_push {cell : α} (done : bank.apply (.push cell) = some next) :
    (∀ i, cell ∉ bank.stack i) ∧ next = bank.put (cell :: bank.stack bank.front) := by
  rw [apply] at done
  split at done
  · rename_i fresh
    cases done
    exact ⟨fresh, rfl⟩
  · cases done

theorem apply_background (done : bank.apply move = some next) (away : i ≠ bank.front) :
    next.stack i = bank.stack i := by
  cases move with
  | stay =>
      cases done
      rfl
  | push cell =>
      obtain ⟨-, rfl⟩ := apply_push done
      exact put_other away
  | pop =>
      obtain ⟨cell, below, rest, -, rfl⟩ := apply_pop done
      exact put_other away
  | replace cell =>
      obtain ⟨old, -, -, rfl⟩ := apply_replace done
      exact put_other away
  | bring target =>
      rw [apply] at done
      split at done
      · cases done
        rfl
      · cases done

theorem apply_below {cell : α} {below : List α} (done : bank.apply move = some next)
    (listed : cell :: below <:+ bank.stack i) (other : i = bank.front → bank.taken move ≠ some cell) :
    cell :: below <:+ next.stack i := by
  by_cases here : i = bank.front
  · subst here
    have kept := other rfl
    cases move with
    | stay =>
        cases done
        exact listed
    | push fresh =>
        obtain ⟨-, rfl⟩ := apply_push done
        rw [put_stack]
        exact listed.trans (List.suffix_cons _ _)
    | pop =>
        obtain ⟨top, under, rest, stack, rfl⟩ := apply_pop done
        rw [stack] at listed
        rw [put_stack]
        rcases List.suffix_cons_iff.mp listed with same | lower
        · cases same
          exact absurd (by rw [taken, stack]; rfl) kept
        · exact lower
    | replace fresh =>
        obtain ⟨old, stack, -, rfl⟩ := apply_replace done
        rw [stack] at listed
        rcases List.suffix_cons_iff.mp listed with same | lower
        · cases same
          exact absurd (by rw [taken, stack]; rfl) kept
        · cases List.suffix_nil.mp lower
    | bring target =>
        rw [apply] at done
        split at done
        · cases done
          exact listed
        · cases done
  · rw [apply_background done here]
    exact listed

omit [DecidableEq ι] [Fintype ι] [DecidableEq α] in
theorem taken_top {cell : α} (taken : bank.taken move = some cell) :
    ∃ rest, bank.stack bank.front = cell :: rest := by
  have top : (bank.stack bank.front).head? = some cell := by
    cases move with
    | stay => cases taken
    | push => cases taken
    | pop => exact taken
    | replace => exact taken
    | bring => cases taken
  exact List.head?_eq_some_iff.mp top

omit [Fintype ι] [DecidableEq α] in
theorem taken_above {cell above : α} {below : List α} (apart : bank.Apart)
    (listed : above :: below <:+ bank.stack i) (taken : bank.taken move = some cell) : cell ∉ below := by
  intro under
  obtain ⟨rest, stack⟩ := taken_top taken
  have here : i = bank.front := by
    by_contra away
    have member : cell ∈ bank.stack i := listed.subset (List.mem_cons_of_mem above under)
    exact apart.one i bank.front away cell member (stack ▸ List.mem_cons_self)
  subst here
  have once := apart.once bank.front
  rw [stack] at once listed
  have fresh := (List.nodup_cons.mp once).1
  rcases List.suffix_cons_iff.mp listed with same | lower
  · cases same
    exact fresh under
  · exact fresh (lower.subset (List.mem_cons_of_mem above under))

end Bank

end StackBank
