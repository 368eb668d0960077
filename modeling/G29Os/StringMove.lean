import Mathlib.Tactic.Common

/-! `memmove` of `lib.c`: `rep movsb` upwards, or downwards with the direction flag set. -/

namespace G29Os

def movsb (down : Bool) : Nat → Int → Int → (Int → UInt8) → (Int → UInt8)
  | 0, _, _, mem => mem
  | n + 1, edi, esi, mem =>
      let move : Int := if down then -1 else 1
      movsb down n (edi + move) (esi + move) (Function.update mem edi (mem esi))

def memmove (dest src : Int) (n : Nat) (mem : Int → UInt8) : Int → UInt8 :=
  if src ≥ dest then movsb false n dest src mem
  else movsb true n (dest - 1 + n) (src - 1 + n) mem

theorem movsb_up {edi esi : Int} (n : Nat) (mem : Int → UInt8) (above : edi ≤ esi) :
    movsb false n edi esi mem = fun address =>
      if edi ≤ address ∧ address < edi + n then mem (address - edi + esi) else mem address := by
  induction n generalizing edi esi mem with
  | zero =>
      funext address
      have outside : ¬(edi ≤ address ∧ address < edi + (0 : Nat)) := by omega
      rw [if_neg outside]
      rfl
  | succ n ih =>
      simp only [movsb, Bool.false_eq_true, if_false]
      rw [ih _ (by omega)]
      funext address
      rcases Int.lt_trichotomy address edi with below | here | beyond
      · have outside : ¬(edi + 1 ≤ address ∧ address < edi + 1 + n) := by omega
        have outside' : ¬(edi ≤ address ∧ address < edi + (n + 1 : Nat)) := by omega
        rw [if_neg outside, if_neg outside', Function.update_of_ne (Int.ne_of_lt below)]
      · subst here
        have outside : ¬(address + 1 ≤ address ∧ address < address + 1 + n) := by omega
        have inside : address ≤ address ∧ address < address + (n + 1 : Nat) := by omega
        rw [if_neg outside, if_pos inside, Function.update_self]
        congr 1
        omega
      · by_cases inside : address < edi + 1 + n
        · have inside' : edi ≤ address ∧ address < edi + (n + 1 : Nat) := by omega
          -- the source of a later byte lies above the byte just written
          have unwritten : address - (edi + 1) + (esi + 1) ≠ edi := by omega
          rw [if_pos ⟨by omega, inside⟩, if_pos inside', Function.update_of_ne unwritten]
          congr 1
          omega
        · have outside : ¬(edi + 1 ≤ address ∧ address < edi + 1 + n) := by omega
          have outside' : ¬(edi ≤ address ∧ address < edi + (n + 1 : Nat)) := by omega
          rw [if_neg outside, if_neg outside', Function.update_of_ne (Int.ne_of_gt beyond)]

theorem movsb_down {edi esi : Int} (n : Nat) (mem : Int → UInt8) (below : esi < edi) :
    movsb true n edi esi mem = fun address =>
      if edi - n < address ∧ address ≤ edi then mem (address - edi + esi) else mem address := by
  induction n generalizing edi esi mem with
  | zero =>
      funext address
      have outside : ¬(edi - (0 : Nat) < address ∧ address ≤ edi) := by omega
      rw [if_neg outside]
      rfl
  | succ n ih =>
      simp only [movsb, if_true]
      rw [ih _ (by omega)]
      funext address
      by_cases here : address = edi
      · subst here
        have outside : ¬(address + -1 - n < address ∧ address ≤ address + -1) := by omega
        have inside : address - (n + 1 : Nat) < address ∧ address ≤ address := by omega
        rw [if_neg outside, if_pos inside, Function.update_self]
        congr 1
        omega
      · by_cases inside : edi + -1 - n < address ∧ address ≤ edi + -1
        · have inside' : edi - (n + 1 : Nat) < address ∧ address ≤ edi := by omega
          have unwritten : address - (edi + -1) + (esi + -1) ≠ edi := by omega
          rw [if_pos inside, if_pos inside', Function.update_of_ne unwritten]
          congr 1
          omega
        · have outside : ¬(edi - (n + 1 : Nat) < address ∧ address ≤ edi) := by omega
          rw [if_neg inside, if_neg outside, Function.update_of_ne here]

theorem memmove_moves (dest src : Int) (n : Nat) (mem : Int → UInt8) :
    memmove dest src n mem = fun address =>
      if dest ≤ address ∧ address < dest + n then mem (address - dest + src) else mem address := by
  rw [memmove]
  split
  · rename_i lower
    rw [movsb_up n mem lower]
  · rename_i higher
    rw [movsb_down n mem (by omega)]
    funext address
    have same : (dest - 1 + n - n < address ∧ address ≤ dest - 1 + n) ↔
        (dest ≤ address ∧ address < dest + n) := by omega
    have from_ : address - (dest - 1 + n) + (src - 1 + n) = address - dest + src := by omega
    simp only [same, from_]

end G29Os
