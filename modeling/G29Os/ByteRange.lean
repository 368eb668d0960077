import Mathlib.Logic.Function.Basic
import Mathlib.Tactic.Common

/-! Overwriting a run of consecutive cells of a memory, and how such writes compose. -/

namespace ByteRange

variable {α : Type*} {memory : Nat → α} {start count : Nat} {source : Nat → α}

def writeRange (memory : Nat → α) (start count : Nat) (source : Nat → α) : Nat → α :=
  fun address =>
    if start ≤ address ∧ address < start + count then source (address - start) else memory address

theorem writeRange_inside {index : Nat} (bound : index < count) :
    writeRange memory start count source (start + index) = source index := by
  have covered : start ≤ start + index ∧ start + index < start + count := by omega
  simp [writeRange, covered]

theorem writeRange_outside {address : Nat} (outside : address < start ∨ start + count ≤ address) :
    writeRange memory start count source address = memory address := by
  have uncovered : ¬(start ≤ address ∧ address < start + count) := by omega
  simp only [writeRange, uncovered, if_false]

@[simp] theorem writeRange_zero : writeRange memory start 0 source = memory := by
  funext address
  exact writeRange_outside (by omega)

theorem writeRange_append {later : Nat} {next combined : Nat → α}
    (first : ∀ index, index < count → combined index = source index)
    (second : ∀ index, index < later → combined (count + index) = next index) :
    writeRange (writeRange memory start count source) (start + count) later next =
      writeRange memory start (count + later) combined := by
  funext address
  by_cases below : address < start + count
  · rw [writeRange_outside (Or.inl below)]
    by_cases before : address < start
    · rw [writeRange_outside (Or.inl before), writeRange_outside (Or.inl before)]
    · obtain ⟨index, rfl⟩ : ∃ index, address = start + index := ⟨address - start, by omega⟩
      rw [writeRange_inside (by omega), writeRange_inside (by omega), first index (by omega)]
  · by_cases beyond : start + count + later ≤ address
    · rw [writeRange_outside (Or.inr beyond), writeRange_outside (Or.inr (by omega)),
        writeRange_outside (Or.inr (by omega))]
    · obtain ⟨index, rfl⟩ : ∃ index, address = start + count + index :=
        ⟨address - (start + count), by omega⟩
      rw [writeRange_inside (by omega), Nat.add_assoc, writeRange_inside (by omega),
        second index (by omega)]

theorem writeRange_congr {other : Nat → α}
    (same : ∀ index, index < count → source index = other index) :
    writeRange memory start count source = writeRange memory start count other := by
  funext address
  by_cases covered : start ≤ address ∧ address < start + count
  · simp only [writeRange, covered, and_self, if_true]
    exact same _ (by omega)
  · simp only [writeRange, covered, if_false]

theorem writeRange_eq_iff {other : Nat → α} :
    writeRange memory start count source = writeRange memory start count other ↔
      ∀ index, index < count → source index = other index := by
  constructor
  · intro same index bound
    have cell := congrFun same (start + index)
    rwa [writeRange_inside bound, writeRange_inside bound] at cell
  · exact writeRange_congr

/-- Seen through a window that holds it, a write is invisible exactly when what it writes
was there already. -/
theorem writeRange_invisible_iff {old : Nat → α} {low high : Nat} (above : low ≤ start)
    (below : start + count ≤ high)
    (same : ∀ address, low ≤ address → address < high → memory address = old address) :
    (∀ address, low ≤ address → address < high →
        writeRange memory start count source address = old address) ↔
      ∀ index, index < count → old (start + index) = source index := by
  constructor
  · intro seen index bound
    have cell := seen (start + index) (by omega) (by omega)
    rw [writeRange_inside bound] at cell
    exact cell.symm
  · intro held address lower upper
    by_cases covered : start ≤ address ∧ address < start + count
    · obtain ⟨index, rfl⟩ : ∃ index, address = start + index := ⟨address - start, by omega⟩
      rw [writeRange_inside (by omega), held index (by omega)]
    · rw [writeRange_outside (by omega), same address lower upper]

theorem update_eq_writeRange {address : Nat} {value : α} :
    Function.update memory address value = writeRange memory address 1 fun _ => value := by
  funext other
  rcases eq_or_ne other address with same | apart
  · subst same
    have inside : writeRange memory other 1 (fun _ => value) (other + 0) = value :=
      writeRange_inside (by omega)
    rw [Function.update_self]
    exact inside.symm
  · rw [Function.update_of_ne apart, writeRange_outside (by omega)]

theorem update_writeRange {value : α} {combined : Nat → α} (first : combined 0 = value)
    (rest : ∀ index, index < count → combined (index + 1) = source index) :
    Function.update (writeRange memory (start + 1) count source) start value =
      writeRange memory start (count + 1) combined := by
  funext address
  rcases Nat.lt_trichotomy address start with below | here | above
  · rw [Function.update_of_ne (Nat.ne_of_lt below), writeRange_outside (by omega),
      writeRange_outside (by omega)]
  · subst here
    have inside : writeRange memory address (count + 1) combined (address + 0) = combined 0 :=
      writeRange_inside (by omega)
    rw [Function.update_self, ← first]
    exact inside.symm
  · obtain ⟨index, rfl⟩ : ∃ index, address = start + 1 + index := ⟨address - (start + 1), by omega⟩
    rw [Function.update_of_ne (Nat.ne_of_gt above)]
    by_cases covered : index < count
    · rw [writeRange_inside covered, Nat.add_assoc, Nat.add_comm 1 index, writeRange_inside (by omega),
        rest index covered]
    · rw [writeRange_outside (by omega), writeRange_outside (by omega)]

end ByteRange
