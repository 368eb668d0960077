import Mathlib.Data.List.Nodup

/-! Null-terminated chains of pointers, and what changing one cell leaves of them. -/

namespace PointerChain

variable {α : Type*} {next next' : α → Option α} {head : Option α} {cells rest : List α} {a : α}

/-- Following `next` from `head` visits exactly `cells` and ends in a null pointer. -/
inductive Chain (next : α → Option α) : Option α → List α → Prop
  | nil : Chain next none []
  | cons {a : α} {rest : List α} (tail : Chain next (next a) rest) : Chain next (some a) (a :: rest)

theorem Chain.unique {other : List α} (chain : Chain next head cells)
    (chain' : Chain next head other) : cells = other := by
  induction chain generalizing other with
  | nil => cases chain'; rfl
  | cons tail ih =>
      cases chain' with
      | cons tail' => rw [ih tail']

theorem Chain.congr (chain : Chain next head cells)
    (same : ∀ cell ∈ cells, next' cell = next cell) : Chain next' head cells := by
  induction chain with
  | nil => exact Chain.nil
  | @cons a rest tail ih =>
      have here : next' a = next a := same a List.mem_cons_self
      have later := ih fun cell member => same cell (List.mem_cons_of_mem a member)
      exact Chain.cons (here ▸ later)

theorem Chain.push (chain : Chain next head cells) (fresh : a ∉ cells) (link : next' a = head)
    (same : ∀ cell, cell ≠ a → next' cell = next cell) : Chain next' (some a) (a :: cells) := by
  have kept : Chain next' head cells := chain.congr fun cell member =>
    same cell fun eq => fresh (eq ▸ member)
  exact Chain.cons (link ▸ kept)

theorem Chain.pop (chain : Chain next (some a) cells) :
    ∃ rest, cells = a :: rest ∧ Chain next (next a) rest := by
  cases chain with
  | cons tail => exact ⟨_, rfl, tail⟩

theorem Chain.eq_nil (chain : Chain next none cells) : cells = [] := by
  cases chain
  rfl

theorem Chain.head_mem (chain : Chain next (some a) cells) : a ∈ cells := by
  obtain ⟨rest, rfl, _⟩ := chain.pop
  exact List.mem_cons_self

theorem Chain.last (chain : Chain next head [a]) : next a = none := by
  cases chain with
  | cons tail =>
      cases link : next a with
      | none => rfl
      | some below =>
          rw [link] at tail
          exact absurd tail.head_mem List.not_mem_nil

theorem Chain.drop {before : List α} (chain : Chain next head (before ++ a :: rest)) :
    Chain next (some a) (a :: rest) := by
  induction before generalizing head with
  | nil =>
      cases chain with
      | cons tail => exact Chain.cons tail
  | cons first before ih =>
      cases chain with
      | cons tail => exact ih tail

theorem Chain.nodup (chain : Chain next head cells) : cells.Nodup := by
  induction chain with
  | nil => exact List.nodup_nil
  | @cons a rest tail ih =>
      refine List.nodup_cons.mpr ⟨fun again => ?_, ih⟩
      -- a second visit would start a chain both as long as the first and shorter
      obtain ⟨before, after, split⟩ := List.append_of_mem again
      subst split
      have shorter : a :: after = a :: (before ++ a :: after) := tail.drop.unique (Chain.cons tail)
      have lengths := congrArg List.length shorter
      simp only [List.length_cons, List.length_append] at lengths
      omega

end PointerChain
