import Mathlib.Data.List.GetD
import G29Os.BoundedLoop
import G29Os.ByteRange
import G29Os.CStrings
import G29Os.Numerals

/-!
`itoa`, `strrev` and the conversions of `printf`. Each conversion has a `conv_buf` of its own,
with unknown bytes in it.
-/

namespace G29Os

open BoundedLoop ByteRange Numerals

def lookup : List UInt8 := ascii "0123456789ABCDEFGHIJKLMNOPQRSTUVWXYZ".toList

def digitChar (digit : Nat) : UInt8 := lookup.getD digit 0

structure ItoaState where
  newval : UInt32
  newbuf : Nat
  buf : Nat → UInt8

def more (state : ItoaState) : Bool := decide (state.newval > 0)

def place (radix : UInt32) (state : ItoaState) : ItoaState where
  newval := state.newval / radix
  newbuf := state.newbuf + 1
  buf := Function.update state.buf state.newbuf (digitChar (state.newval % radix).toNat)

def strlen (size : Nat) (s : Nat → UInt8) : Nat :=
  whileLoop (fun len => decide (s len ≠ 0)) (fun len => len + 1) size 0

structure SwapState where
  beg : Nat
  last : Nat
  s : Nat → UInt8

def swap (state : SwapState) : SwapState where
  beg := state.beg + 1
  last := state.last - 1
  s := Function.update (Function.update state.s state.last (state.s state.beg)) state.beg
    (state.s state.last)

/-- `strrev`; `last` is its `end`, which the empty string makes -1 there. -/
def strrev (size : Nat) (s : Nat → UInt8) : Nat → UInt8 :=
  let start : SwapState := { beg := 0, last := strlen size s - 1, s := s }
  (whileLoop (fun state => decide (state.beg < state.last)) swap start.last start).s

/-- `itoa` on the memory from `buf` on. No numeral has more digits than the value counts. -/
def itoa (value : UInt32) (buf : Nat → UInt8) (radix : UInt32) : Nat → UInt8 :=
  if value = 0 then Function.update (Function.update buf 0 48) 1 0
  else
    let done := whileLoop more (place radix) value.toNat { newval := value, newbuf := 0, buf := buf }
    strrev value.toNat (Function.update done.buf done.newbuf 0)

/-! ### `itoa` -/

variable {value radix : UInt32} {buf s : Nat → UInt8} {text : List UInt8} {size : Nat}

def digitValue (c : UInt8) : Option Nat :=
  if 48 ≤ c ∧ c ≤ 57 then some (c.toNat - 48)
  else if 65 ≤ c ∧ c ≤ 90 then some (c.toNat - 55)
  else none

/-- A text that reads as `value` and begins with no zero, but for the text `0` itself. -/
structure Numeral (radix value : Nat) (text : List UInt8) : Prop where
  parses : parse digitValue radix text = some value
  unpadded : text.head? = some 48 → text = [48]

theorem digitChar_reads {radix : Nat} (small : radix ≤ 36) : Reads digitChar digitValue radix := by
  have table : ∀ d, d < 36 → digitValue (digitChar d) = some d := by decide
  intro d below
  exact table d (by omega)

theorem digitChar_ne_zero {d : Nat} (below : d < 36) : digitChar d ≠ 0 := by
  have table : ∀ d, d < 36 → digitChar d ≠ 0 := by decide
  exact table d below

theorem numeral_spec {radix : Nat} (large : 1 < radix) (small : radix ≤ 36) (n : Nat) :
    Numeral radix n (numeral digitChar radix n) where
  parses := parse_numeral (digitChar_reads small) large n
  unpadded := head_numeral (digitChar_reads small) large

theorem place_digits (large : 1 < radix.toNat) (fuel newbuf : Nat) (newval : UInt32)
    (budget : newval.toNat ≤ fuel) :
    whileLoop more (place radix) fuel { newval := newval, newbuf := newbuf, buf := buf } =
    { newval := 0
      newbuf := newbuf + (Nat.digits radix.toNat newval.toNat).length
      buf := writeRange buf newbuf (Nat.digits radix.toNat newval.toNat).length fun k =>
        digitChar ((Nat.digits radix.toNat newval.toNat).getD k 0) } := by
  induction fuel generalizing newval newbuf buf with
  | zero =>
      have none_ : newval = 0 := UInt32.toNat_inj.mp (Nat.le_zero.mp budget)
      subst none_
      have digits : Nat.digits radix.toNat (0 : UInt32).toNat = [] := Nat.digits_zero _
      rw [digits, List.length_nil, writeRange_zero, Nat.add_zero]
      rfl
  | succ fuel ih =>
      by_cases none_ : newval = 0
      · subst none_
        have digits : Nat.digits radix.toNat (0 : UInt32).toNat = [] := Nat.digits_zero _
        rw [whileLoop_done rfl, digits, List.length_nil, writeRange_zero, Nat.add_zero]
      · have positive : 0 < newval.toNat := Nat.pos_of_ne_zero fun zero =>
          none_ (UInt32.toNat_inj.mp zero)
        have running : more { newval := newval, newbuf := newbuf, buf := buf } = true :=
          decide_eq_true (UInt32.lt_iff_toNat_lt.mpr positive)
        have quotient : (newval / radix).toNat = newval.toNat / radix.toNat := UInt32.toNat_div ..
        have fewer : (newval / radix).toNat ≤ fuel := by
          have less := Nat.div_lt_self positive large
          omega
        have digits := Nat.digits_def' large positive
        rw [whileLoop_step running, place, ih (newbuf + 1) (newval / radix) fewer, quotient, digits,
          List.length_cons, UInt32.toNat_mod, update_eq_writeRange]
        congr 1
        · omega
        · rw [Nat.add_comm (Nat.digits _ _).length 1]
          refine writeRange_append (fun k first => ?_) (fun k _ => ?_)
          · rw [Nat.lt_one_iff.mp first]
            rfl
          · rw [Nat.add_comm 1 k]
            rfl

theorem strlen_eq (string : IsCString s text) (fits : text.length ≤ size) :
    strlen size s = text.length := by
  obtain ⟨inside, stopped⟩ := whileLoop_rule (fun len => decide (s len ≠ 0)) (fun len => len + 1)
    (fun len => len ≤ text.length) (fun len => text.length - len)
    (fun len inside running => by
      have some_ := mt (string.zero_iff inside).mpr (of_decide_eq_true running)
      omega)
    size 0 (Nat.zero_le _) fits
  exact (string.zero_iff inside).mp (not_not.mp (of_decide_eq_false stopped))

structure Swapped (text : List UInt8) (start : Nat → UInt8) (state : SwapState) : Prop where
  balanced : state.beg + state.last = text.length - 1
  outer : ∀ k, k < text.length → k < state.beg ∨ state.last < k →
    state.s k = start (text.length - 1 - k)
  inner : ∀ k, state.beg ≤ k → k ≤ state.last → state.s k = start k
  ends : state.s text.length = start text.length

theorem Swapped.swap {start : Nat → UInt8} {state : SwapState} (swapped : Swapped text start state)
    (running : state.beg < state.last) : Swapped text start (swap state) where
  balanced := by
    have balanced := swapped.balanced
    change state.beg + 1 + (state.last - 1) = _
    omega
  outer k inside outside := by
    have balanced := swapped.balanced
    change k < state.beg + 1 ∨ state.last - 1 < k at outside
    rw [G29Os.swap]
    dsimp only
    by_cases first : k = state.beg
    · subst first
      rw [Function.update_self, swapped.inner _ (by omega) (Nat.le_refl _)]
      congr 1
      omega
    · rw [Function.update_of_ne first]
      by_cases second : k = state.last
      · subst second
        rw [Function.update_self, swapped.inner _ (Nat.le_refl _) (by omega)]
        congr 1
        omega
      · rw [Function.update_of_ne second]
        exact swapped.outer k inside (by omega)
  inner k low high := by
    change state.beg + 1 ≤ k at low
    change k ≤ state.last - 1 at high
    rw [G29Os.swap]
    dsimp only
    rw [Function.update_of_ne (by omega), Function.update_of_ne (by omega)]
    exact swapped.inner k (by omega) (by omega)
  ends := by
    have balanced := swapped.balanced
    rw [G29Os.swap]
    dsimp only
    rw [Function.update_of_ne (by omega), Function.update_of_ne (by omega)]
    exact swapped.ends

theorem Swapped.reversed {start : Nat → UInt8} {state : SwapState} (swapped : Swapped text start state)
    (met : ¬state.beg < state.last) {k : Nat} (inside : k < text.length) :
    state.s k = start (text.length - 1 - k) := by
  have balanced := swapped.balanced
  by_cases outside : k < state.beg ∨ state.last < k
  · exact swapped.outer k inside outside
  · -- the two have met in the middle, which stays where it is
    have middle : text.length - 1 - k = k := by omega
    rw [middle]
    exact swapped.inner k (by omega) (by omega)

theorem strrev_string (string : IsCString s text) (fits : text.length ≤ size) :
    IsCString (strrev size s) text.reverse := by
  have started : Swapped text s { beg := 0, last := strlen size s - 1, s := s } := by
    rw [strlen_eq string fits]
    exact ⟨Nat.zero_add _, fun k inside outside => by dsimp only at outside; omega,
      fun _ _ _ => rfl, rfl⟩
  obtain ⟨swapped, stopped⟩ := whileLoop_rule
    (fun state : SwapState => decide (state.beg < state.last)) swap (Swapped text s)
    (fun state => state.last - state.beg)
    (fun state swapped running => by
      have apart := of_decide_eq_true running
      refine ⟨swapped.swap apart, ?_⟩
      change state.last - 1 - (state.beg + 1) < _
      omega)
    (strlen size s - 1) _ started (Nat.sub_le _ _)
  refine ⟨fun index bound => ?_, fun c listed => ?_, ?_⟩
  · rw [List.length_reverse] at bound
    have place : text.length - 1 - index < text.length := by omega
    rw [List.getElem_reverse, ← string.bytes _ place]
    exact swapped.reversed (of_decide_eq_false stopped) bound
  · exact string.nonzero c (List.mem_reverse.mp listed)
  · rw [List.length_reverse]
    exact swapped.ends.trans string.ends

theorem digits_string {radix n : Nat} (large : 1 < radix) (small : radix ≤ 36) :
    IsCString (Function.update
        (writeRange buf 0 (Nat.digits radix n).length fun k => digitChar ((Nat.digits radix n).getD k 0))
        (Nat.digits radix n).length 0)
      ((Nat.digits radix n).map digitChar) where
  bytes index bound := by
    rw [List.length_map] at bound
    have place := @writeRange_inside _ buf 0 (Nat.digits radix n).length
      (fun k => digitChar ((Nat.digits radix n).getD k 0)) index bound
    rw [Nat.zero_add] at place
    rw [Function.update_of_ne (Nat.ne_of_lt bound), place, List.getElem_map,
      List.getD_eq_getElem _ _ bound]
  nonzero c listed := by
    obtain ⟨d, digit, here⟩ := List.mem_map.mp listed
    have below := Nat.digits_lt_base large digit
    exact here ▸ digitChar_ne_zero (by omega)
  ends := by rw [List.length_map, Function.update_self]

theorem itoa_string (large : 1 < radix.toNat) (small : radix.toNat ≤ 36) :
    IsCString (itoa value buf radix) (numeral digitChar radix.toNat value.toNat) := by
  rw [itoa]
  by_cases zero : value = 0
  · subst zero
    rw [if_pos rfl]
    have single : numeral digitChar radix.toNat (0 : UInt32).toNat = [48] := rfl
    rw [single]
    refine IsCString.cons rfl (by decide) ⟨fun index bound => ?_, fun c listed => ?_, ?_⟩
    · cases bound
    · cases listed
    · exact Function.update_self ..
  · have some_ : value.toNat ≠ 0 := fun none_ => zero (UInt32.toNat_inj.mp none_)
    have placed := @place_digits radix buf large value.toNat 0 value (Nat.le_refl _)
    have fits : ((Nat.digits radix.toNat value.toNat).map digitChar).length ≤ value.toNat := by
      rw [List.length_map, Nat.digits_length_le_iff large]
      exact Nat.lt_pow_self large
    rw [if_neg zero, numeral, if_neg some_]
    dsimp only
    rw [placed, Nat.zero_add]
    exact strrev_string (digits_string large small) fits

end G29Os
