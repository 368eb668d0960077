import Mathlib.Data.Nat.Digits.Lemmas

/-!
Numerals over any alphabet: the digits of a number, the most significant first, and reading
them back.
-/

namespace Numerals

variable {α : Type*} {digit : Nat → α} {value : α → Option Nat} {radix : Nat}

def readFrom (value : α → Option Nat) (radix : Nat) : Nat → List α → Option Nat
  | n, [] => some n
  | n, c :: text =>
      (value c).bind fun d => if d < radix then readFrom value radix (n * radix + d) text else none

def parse (value : α → Option Nat) (radix : Nat) (text : List α) : Option Nat :=
  if text.isEmpty then none else readFrom value radix 0 text

def numeral (digit : Nat → α) (radix n : Nat) : List α :=
  if n = 0 then [digit 0] else ((Nat.digits radix n).map digit).reverse

def Reads (digit : Nat → α) (value : α → Option Nat) (radix : Nat) : Prop :=
  ∀ d, d < radix → value (digit d) = some d

theorem readFrom_append (n : Nat) (text later : List α) :
    readFrom value radix n (text ++ later) =
      (readFrom value radix n text).bind fun m => readFrom value radix m later := by
  induction text generalizing n with
  | nil => rfl
  | cons c text ih =>
      rw [List.cons_append, readFrom, readFrom]
      cases value c with
      | none => rfl
      | some d =>
          simp only [Option.bind_some]
          split
          · exact ih _
          · rfl

theorem readFrom_digits (reads : Reads digit value radix) (digits : List Nat)
    (small : ∀ d ∈ digits, d < radix) :
    readFrom value radix 0 (digits.map digit).reverse = some (Nat.ofDigits radix digits) := by
  induction digits with
  | nil => rfl
  | cons d digits ih =>
      have below := small d List.mem_cons_self
      rw [List.map_cons, List.reverse_cons, readFrom_append,
        ih fun other listed => small other (List.mem_cons_of_mem d listed), Option.bind_some, readFrom,
        reads d below, Option.bind_some, if_pos below, readFrom, Nat.ofDigits_cons, Nat.mul_comm,
        Nat.add_comm]

theorem readFrom_padded (reads : Reads digit value radix) (positive : 0 < radix) (zeros : Nat)
    (text : List α) :
    readFrom value radix 0 (List.replicate zeros (digit 0) ++ text) = readFrom value radix 0 text := by
  induction zeros with
  | zero => rfl
  | succ zeros ih =>
      rw [List.replicate_succ, List.cons_append, readFrom, reads 0 positive, Option.bind_some,
        if_pos positive, Nat.zero_mul, Nat.zero_add, ih]

theorem numeral_ne_nil (n : Nat) : numeral digit radix n ≠ [] := by
  rw [numeral]
  split
  · exact List.cons_ne_nil _ _
  · rename_i some_
    rw [ne_eq, List.reverse_eq_nil_iff, List.map_eq_nil_iff]
    exact Nat.digits_ne_nil_iff_ne_zero.mpr some_

theorem readFrom_numeral (reads : Reads digit value radix) (large : 1 < radix) (n : Nat) :
    readFrom value radix 0 (numeral digit radix n) = some n := by
  rw [numeral]
  split
  · rename_i zero
    rw [readFrom, reads 0 (by omega), Option.bind_some, if_pos (by omega), readFrom, zero, Nat.zero_mul]
  · rw [readFrom_digits reads _ fun d listed => Nat.digits_lt_base large listed, Nat.ofDigits_digits]

theorem parse_numeral (reads : Reads digit value radix) (large : 1 < radix) (n : Nat) :
    parse value radix (numeral digit radix n) = some n := by
  have some_ : (numeral digit radix n).isEmpty = false := by
    rw [List.isEmpty_eq_false_iff]
    exact numeral_ne_nil n
  rw [parse, some_, readFrom_numeral reads large]
  rfl

theorem head_numeral (reads : Reads digit value radix) (large : 1 < radix) {n : Nat}
    (zero : (numeral digit radix n).head? = some (digit 0)) : numeral digit radix n = [digit 0] := by
  rw [numeral] at zero ⊢
  split
  · rfl
  · rename_i some_
    have nonempty : radix.digits n ≠ [] := Nat.digits_ne_nil_iff_ne_zero.mpr some_
    have leading := Nat.getLast_digit_ne_zero radix some_
    have listed := List.getLast_mem nonempty
    rw [if_neg some_, List.head?_reverse, List.getLast?_map, List.getLast?_eq_some_getLast nonempty,
      Option.map_some] at zero
    have same := congrArg value (Option.some.inj zero)
    rw [reads _ (Nat.digits_lt_base large listed), reads 0 (by omega)] at same
    exact absurd (Option.some.inj same) leading

theorem length_numeral_le (large : 1 < radix) {n k : Nat} (positive : 0 < k) (fits : n < radix ^ k) :
    (numeral digit radix n).length ≤ k := by
  rw [numeral]
  split
  · exact positive
  · rw [List.length_reverse, List.length_map]
    exact (Nat.digits_length_le_iff large n).mpr fits

end Numerals
