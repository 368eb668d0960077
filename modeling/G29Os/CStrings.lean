import Mathlib.Data.List.TakeWhile
import G29Os.Console

/-! Strings in memory, whose length is told by their first NUL. -/

namespace G29Os

/-- The bytes from index 0 on are `text` and a NUL. What stands behind the NUL is free. -/
structure IsCString (buffer : Nat → UInt8) (text : List UInt8) : Prop where
  bytes : ∀ index (bound : index < text.length), buffer index = text[index]
  nonzero : ∀ c ∈ text, c ≠ 0
  ends : buffer text.length = 0

theorem cString_succ (size : Nat) (buffer : Nat → UInt8) :
    cString (size + 1) buffer =
      if buffer 0 = 0 then [] else buffer 0 :: cString size fun index => buffer (index + 1) := by
  rw [cString, List.range_succ_eq_map, List.map_cons, List.takeWhile_cons]
  by_cases ends : buffer 0 = 0
  · simp [ends]
  · simp only [ends, ne_eq, not_false_eq_true, decide_true, if_true, if_false, List.map_map, cString,
      Function.comp_def]

@[simp] theorem cString_zero (buffer : Nat → UInt8) : cString 0 buffer = [] := rfl

theorem cString_congr {size : Nat} {first second : Nat → UInt8}
    (agree : ∀ index, index < size → first index = second index) :
    cString size first = cString size second := by
  have same : (List.range size).map first = (List.range size).map second := by
    apply List.map_congr_left
    intro index listed
    exact agree index (List.mem_range.mp listed)
  rw [cString, cString, same]

theorem IsCString.tail {buffer : Nat → UInt8} {c : UInt8} {text : List UInt8}
    (string : IsCString buffer (c :: text)) : IsCString (fun index => buffer (index + 1)) text where
  bytes index bound := string.bytes (index + 1) (Nat.succ_lt_succ bound)
  nonzero other listed := string.nonzero other (List.mem_cons_of_mem c listed)
  ends := string.ends

theorem IsCString.drop {buffer : Nat → UInt8} {text : List UInt8} (string : IsCString buffer text)
    {count : Nat} (inside : count ≤ text.length) :
    IsCString (fun k => buffer (count + k)) (text.drop count) where
  bytes index bound := by
    rw [List.getElem_drop]
    rw [List.length_drop] at bound
    exact string.bytes _ (by omega)
  nonzero c listed := string.nonzero c (List.mem_of_mem_drop listed)
  ends := by
    have ends := string.ends
    rw [List.length_drop]
    rwa [Nat.add_sub_cancel' inside]

theorem IsCString.zero_iff {buffer : Nat → UInt8} {text : List UInt8}
    (string : IsCString buffer text) {index : Nat} (inside : index ≤ text.length) :
    buffer index = 0 ↔ index = text.length := by
  refine ⟨fun zero => ?_, fun last => last ▸ string.ends⟩
  by_contra before
  have bound : index < text.length := by omega
  exact string.nonzero _ (List.getElem_mem bound) ((string.bytes index bound).symm.trans zero)

theorem IsCString.cons {buffer : Nat → UInt8} {c : UInt8} {text : List UInt8} (first : buffer 0 = c)
    (nonzero : c ≠ 0) (rest : IsCString (fun index => buffer (index + 1)) text) :
    IsCString buffer (c :: text) where
  bytes index bound := by
    cases index with
    | zero => exact first
    | succ index => exact rest.bytes index (Nat.lt_of_succ_lt_succ bound)
  nonzero other listed := by
    rcases List.mem_cons.mp listed with here | later
    · exact here ▸ nonzero
    · exact rest.nonzero other later
  ends := rest.ends

theorem IsCString.cString_take {buffer : Nat → UInt8} {text : List UInt8}
    (string : IsCString buffer text) (size : Nat) : cString size buffer = text.take size := by
  induction size generalizing buffer text with
  | zero => simp
  | succ size ih =>
      rw [cString_succ]
      cases text with
      | nil =>
          have ends : buffer 0 = 0 := string.ends
          simp [ends]
      | cons c text =>
          have first : buffer 0 = c := string.bytes 0 (Nat.succ_pos _)
          have nonzero : c ≠ 0 := string.nonzero c List.mem_cons_self
          rw [first, if_neg nonzero, ih string.tail, List.take_succ_cons]

theorem IsCString.cString_eq {buffer : Nat → UInt8} {text : List UInt8} {size : Nat}
    (string : IsCString buffer text) (fits : text.length ≤ size) : cString size buffer = text := by
  rw [string.cString_take, List.take_of_length_le fits]

theorem mem_cString {size : Nat} {buffer : Nat → UInt8} {c : UInt8} (listed : c ∈ cString size buffer) :
    c ≠ 0 := by
  have taken := List.mem_takeWhile_imp listed
  simpa using taken

theorem IsCString.unique {buffer : Nat → UInt8} {text other : List UInt8}
    (string : IsCString buffer text) (string' : IsCString buffer other) : text = other := by
  exact (string.cString_eq (Nat.le_max_left _ other.length)).symm.trans
    (string'.cString_eq (Nat.le_max_right text.length _))

theorem cString_take {size count : Nat} (fewer : count ≤ size) (buffer : Nat → UInt8) :
    (cString size buffer).take count = cString count buffer := by
  induction count generalizing size buffer with
  | zero => simp
  | succ count ih =>
      obtain ⟨size, rfl⟩ := Nat.exists_eq_add_of_lt fewer
      rw [cString_succ, cString_succ count]
      split
      · simp
      · rw [List.take_succ_cons, ih (by omega)]

end G29Os
