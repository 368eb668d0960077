import Mathlib.Order.Bounds.Basic
import Mathlib.Order.Fin.Basic

/-! First-fit search of a table with finitely many places. -/

namespace FirstFit

variable {n : Nat} {fits : Fin n → Bool} {place : Fin n}

theorem find?_least (found : (List.finRange n).find? fits = some place) :
    IsLeast {place : Fin n | fits place = true} place := by
  refine ⟨List.find?_some found, fun other free => ?_⟩
  obtain ⟨-, before, after, split, skipped⟩ := List.find?_eq_some_iff_append.mp found
  have listed : other ∈ before ++ place :: after := split ▸ List.mem_finRange other
  have sorted : (before ++ place :: after).Pairwise (· < ·) := split ▸ List.pairwise_lt_finRange n
  rcases List.mem_append.mp listed with early | late
  · have taken := skipped other early
    rw [show fits other = true from free] at taken
    cases taken
  · rcases List.mem_cons.mp late with same | beyond
    · exact le_of_eq same.symm
    · have later := (List.pairwise_append.mp sorted).2.1
      exact le_of_lt ((List.pairwise_cons.mp later).1 other beyond)

theorem find?_none_iff : (List.finRange n).find? fits = none ↔ ∀ place, fits place = false := by
  rw [List.find?_eq_none]
  constructor
  · intro full place
    simpa using full place (List.mem_finRange place)
  · intro full place _
    simp [full place]

end FirstFit
