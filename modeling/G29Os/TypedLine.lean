import G29Os.InputMachine

/-!
A line buffer whose counters agree holds a list of typed characters; BACKSPACE drops the
last, a letter adds one, ENTER hands the whole list over with its newline.
-/

namespace G29Os

theorem cString_eq {size length : Nat} {buffer : Nat → UInt8} (fits : length < size)
    (text : ∀ index, index < length → buffer index ≠ 0) (ends : buffer length = 0) :
    cString size buffer = (List.range length).map buffer := by
  obtain ⟨rest, rfl⟩ : ∃ rest, size = length + (rest + 1) := ⟨size - length - 1, by omega⟩
  rw [cString, List.range_add, List.map_append, List.takeWhile_append_of_pos]
  · have stop : (List.map buffer (List.map (fun x => length + x) (List.range (rest + 1)))).takeWhile
        (fun c => decide (c ≠ 0)) = [] := by
      rw [List.range_succ_eq_map]
      simp [ends]
    rw [stop, List.append_nil]
  · intro c found
    obtain ⟨index, bound, rfl⟩ := List.mem_map.mp found
    simpa using text index (List.mem_range.mp bound)

structure HoldsString (buffer : Nat → UInt8) (text : List UInt8) : Prop where
  fits : text.length < lineBuffer
  bytes : ∀ index (bound : index < text.length), buffer index = text[index]
  nonzero : ∀ c ∈ text, c ≠ 0
  ends : buffer text.length = 0

structure LineOk (state : LineState) : Prop where
  counters : state.position = state.size
  short : state.size ≤ 126
  text : ∀ index, index < state.size → state.line index ≠ 0
  blank : ∀ index, state.size ≤ index → index < lineBuffer → state.line index = 0

namespace LineState

variable {state : LineState}

@[simp] theorem typed_length : state.typed.length = state.size := by simp [typed]

theorem typed_getElem {index : Nat} (bound : index < state.typed.length) :
    state.typed[index] = state.line index := by simp [typed]

end LineState

namespace LineOk

variable {state : LineState}

theorem typed_nonzero (fine : LineOk state) {c : UInt8} (member : c ∈ state.typed) : c ≠ 0 := by
  obtain ⟨index, bound, rfl⟩ := List.mem_map.mp member
  exact fine.text index (List.mem_range.mp bound)

theorem enter : LineOk state.enter where
  counters := rfl
  short := Nat.zero_le _
  text index bound := absurd bound (Nat.not_lt_zero index)
  blank index _ inside := by simp [LineState.enter, inside]

theorem readBuffer_enter (fine : LineOk state) (index : Nat) :
    state.enter.readBuffer index =
      if index < state.size + 1 then Function.update state.line state.size 10 index
      else if index < lineBuffer then 0 else state.readBuffer index := by
  let source := Function.update state.line state.size 10
  have short := fine.short
  have text : ∀ index, index < state.size + 1 → source index ≠ 0 := by
    intro index bound
    rcases Nat.lt_or_eq_of_le (Nat.le_of_lt_succ bound) with before | last
    · simpa [source, Function.update_of_ne (Nat.ne_of_lt before)] using fine.text index before
    · simp [source, last]
  have stop : source (state.size + 1) = 0 := by
    have other : state.size + 1 ≠ state.size := by omega
    simpa [source, Function.update_of_ne other] using
      fine.blank (state.size + 1) (by omega) (by simp only [lineBuffer]; omega)
  have copied : (cString lineBuffer source).length = state.size + 1 := by
    rw [cString_eq (by simp only [lineBuffer]; omega) text stop]
    simp
  simp only [LineState.enter, Tty.strncpy]
  rw [copied]

theorem enter_holds (fine : LineOk state) :
    HoldsString state.enter.readBuffer (state.typed ++ [10]) := by
  have length : (state.typed ++ [10]).length = state.size + 1 := by simp
  have short := fine.short
  constructor
  · rw [length]
    simp only [lineBuffer]
    omega
  · intro index bound
    rw [length] at bound
    rw [fine.readBuffer_enter, if_pos bound]
    rcases Nat.lt_or_eq_of_le (Nat.le_of_lt_succ bound) with before | last
    · rw [List.getElem_append_left (by simpa using before), LineState.typed_getElem]
      simp [Function.update_of_ne (Nat.ne_of_lt before)]
    · subst last
      simp
  · intro c member
    rcases List.mem_append.mp member with inside | last
    · exact fine.typed_nonzero inside
    · rw [List.mem_singleton.mp last]
      decide
  · have beyond : ¬state.size + 1 < state.size + 1 := Nat.lt_irrefl _
    have inside : state.size + 1 < lineBuffer := by simp only [lineBuffer]; omega
    rw [length, fine.readBuffer_enter, if_neg beyond, if_pos inside]

theorem backspace (fine : LineOk state) : LineOk state.backspace := by
  by_cases moved : state.position > 0
  · have counters := fine.counters
    have short := fine.short
    rw [LineState.backspace, if_pos moved]
    constructor
    · simp only
      omega
    · simp only
      omega
    · intro index bound
      simp only at bound ⊢
      have kept : ¬(state.position - 1 ≤ index ∧ index ≤ state.size - 1 + 1) := by omega
      rw [if_neg kept]
      exact fine.text index (by omega)
    · intro index beyond inside
      simp only [lineBuffer] at beyond inside ⊢
      split
      · exact fine.blank (index + 1) (by omega) (by simp only [lineBuffer]; omega)
      · exact fine.blank index (by omega) (by simp only [lineBuffer]; omega)
  · rwa [LineState.backspace, if_neg moved]

theorem typed_backspace (fine : LineOk state) : state.backspace.typed = state.typed.dropLast := by
  rw [LineState.typed, LineState.typed, ← List.map_dropLast, LineState.backspace]
  split
  · rename_i moved
    have counters := fine.counters
    obtain ⟨size, last⟩ : ∃ size, state.size = size + 1 := ⟨state.size - 1, by omega⟩
    simp only [last, Nat.add_sub_cancel, List.range_succ, List.dropLast_concat]
    apply List.map_congr_left
    intro index member
    have bound := List.mem_range.mp member
    have kept : ¬(state.position - 1 ≤ index ∧ index ≤ size + 1) := by omega
    rw [if_neg kept]
  · rename_i start
    have zero : state.size = 0 := by
      have counters := fine.counters
      omega
    rw [zero]
    rfl

theorem insert (fine : LineOk state) {c : UInt8} (room : state.size ≤ 125) (real : c ≠ 0) :
    LineOk (state.insert c) := by
  have counters := fine.counters
  constructor
  · simp only [LineState.insert]
    omega
  · simp only [LineState.insert]
    omega
  · intro index bound
    simp only [LineState.insert] at bound ⊢
    split
    · exact real
    · have kept : ¬(state.position < index ∧ index ≤ state.size) := by omega
      rw [if_neg kept]
      exact fine.text index (by omega)
  · intro index beyond inside
    simp only [LineState.insert] at beyond ⊢
    have new : index ≠ state.position := by omega
    have kept : ¬(state.position < index ∧ index ≤ state.size) := by omega
    rw [if_neg new, if_neg kept]
    exact fine.blank index (by omega) inside

theorem typed_insert (fine : LineOk state) {c : UInt8} :
    (state.insert c).typed = state.typed ++ [c] := by
  have counters := fine.counters
  have same : List.map (state.insert c).line (List.range state.size) = state.typed := by
    apply List.map_congr_left
    intro index member
    have bound := List.mem_range.mp member
    have new : index ≠ state.position := by omega
    have kept : ¬(state.position < index ∧ index ≤ state.size) := by omega
    simp only [LineState.insert]
    rw [if_neg new, if_neg kept]
  have last : (state.insert c).line state.size = c := by simp [LineState.insert, counters]
  have size : (state.insert c).size = state.size + 1 := rfl
  rw [LineState.typed, size, List.range_succ, List.map_append, same, List.map_singleton, last]

end LineOk

namespace LineState

variable {state : LineState} {modifiers : Modifiers}

theorem table_unprinted {code : UInt8} (unprinted : code = G29Os.enter ∨ code = G29Os.backspace) :
    modifiers.table.getD code.toNat Tty.nul = Tty.nul := by
  rcases unprinted with rfl | rfl <;> rw [Modifiers.table] <;> split_ifs <;> rfl

theorem type_unprinted {code : UInt8} (unprinted : code = G29Os.enter ∨ code = G29Os.backspace) :
    state.type modifiers code = state := by
  rw [type]
  split
  · rfl
  · rw [table_unprinted unprinted]
    split <;> rfl

theorem key_enter : state.key modifiers G29Os.enter = state.enter := by
  rw [key]
  split_ifs
  · rfl
  · rfl
  · exact type_unprinted (Or.inl rfl)

theorem key_backspace : state.key modifiers G29Os.backspace = state.backspace := by
  rw [key]
  split_ifs
  · rfl
  · rfl
  · exact type_unprinted (Or.inr rfl)

theorem key_letter {code : UInt8} (ends : code ≠ G29Os.enter) (erases : code ≠ G29Os.backspace) :
    state.key modifiers code = state ∨
      state.size ≤ 125 ∧ ∃ c, c ≠ 0 ∧ state.key modifiers code = state.insert c := by
  have unpressed : state.press code = state := by simp [press, ends, erases]
  rw [key, unpressed]
  split_ifs
  · exact Or.inl rfl
  · exact Or.inl rfl
  · rw [type]
    split_ifs with full printable
    · exact Or.inl rfl
    · by_cases real : UInt8.ofNat (modifiers.table.getD code.toNat Tty.nul).toNat ≠ 0
      · simp only [lineBuffer] at full
        exact Or.inr ⟨by omega, _, real, if_pos real⟩
      · exact Or.inl (if_neg real)
    · exact Or.inl rfl

end LineState

namespace LineOk

variable {state : LineState} {modifiers : Modifiers} {code : UInt8}

theorem key (fine : LineOk state) : LineOk (state.key modifiers code) := by
  by_cases ends : code = G29Os.enter
  · rw [ends, LineState.key_enter]
    exact LineOk.enter
  · by_cases erases : code = G29Os.backspace
    · rw [erases, LineState.key_backspace]
      exact fine.backspace
    · rcases LineState.key_letter ends erases with same | ⟨room, c, real, typed⟩
      · rwa [same]
      · rw [typed]
        exact fine.insert room real

theorem typed_key (fine : LineOk state) (ends : code ≠ G29Os.enter)
    (erases : code ≠ G29Os.backspace) : state.typed <+: (state.key modifiers code).typed := by
  rcases LineState.key_letter ends erases with same | ⟨_, c, _, typed⟩
  · exact same.symm ▸ List.prefix_refl _
  · have longer : state.typed <+: (state.insert c).typed :=
      fine.typed_insert.symm ▸ List.prefix_append _ _
    exact typed.symm ▸ longer

end LineOk

theorem LineState.readBuffer_key {state : LineState} {modifiers : Modifiers} {code : UInt8}
    (ends : code ≠ G29Os.enter) : (state.key modifiers code).readBuffer = state.readBuffer := by
  by_cases erases : code = G29Os.backspace
  · rw [erases, LineState.key_backspace, LineState.backspace]
    split <;> rfl
  · rcases LineState.key_letter ends erases with same | ⟨_, c, _, typed⟩
    · rw [same]
    · rw [typed]
      rfl

end G29Os
