import G29Os.ConsoleText

/-!
Text written from a cell of the screen on, counted row by row, while it stays above the end
of the screen; and a text that is drawn again from some character on.
-/

namespace G29Os

open BoundedLoop

theorem normalizePosition_inside {x y : Int} (left : 0 ≤ x) (right : x < 80) (top : 0 ≤ y)
    (bottom : y < 25) : normalizePosition x y = (x, y) := by
  have raised : decide (x < 0) = false := decide_eq_false (Int.not_lt.mpr left)
  have wrapped : decide (x ≥ numCols) = false := decide_eq_false (Int.not_le.mpr right)
  have lowered : decide (y < 0) = false := decide_eq_false (Int.not_lt.mpr top)
  have last : decide (y ≥ numRows) = false := decide_eq_false (Int.not_le.mpr bottom)
  rw [normalizePosition]
  simp only [whileLoop_done, raised, wrapped, lowered, last]

namespace Console

variable {console : Console} {c : UInt8} {cell : Nat}

structure AtCell (cell : Nat) (console : Console) : Prop extends OnScreen console where
  here : 80 * console.screenY + console.screenX = cell

namespace AtCell

theorem inside (at_ : AtCell cell console) : cell < 2000 := by
  obtain ⟨⟨left, right, top, bottom⟩, here⟩ := at_
  omega

theorem column (at_ : AtCell cell console) : console.screenX = (cell % 80 : Nat) := by
  obtain ⟨⟨left, right, top, bottom⟩, here⟩ := at_
  omega

theorem row (at_ : AtCell cell console) : console.screenY = (cell / 80 : Nat) := by
  obtain ⟨⟨left, right, top, bottom⟩, here⟩ := at_
  omega

theorem putc (at_ : AtCell cell console) (printed : ¬(c = 10 ∨ c = 13)) (room : cell + 1 < 2000) :
    AtCell (cell + 1) (putc c console) ∧
      ∀ other, (G29Os.putc c console).charAt other = if other = cell then c else console.charAt other := by
  obtain ⟨⟨left, right, top, bottom⟩, here⟩ := at_
  have chars (other : Nat) :
      (console.write c).charAt other = if other = cell then c else console.charAt other := by
    rw [charAt_write, here]
    simp only [Int.ofNat_inj]
  rw [putc_eq ⟨left, right, top, bottom⟩, if_neg printed]
  split
  · rename_i last
    have high : (console.write c).screenY ≠ 24 := by
      have still : (console.write c).screenY = console.screenY := rfl
      omega
    have column := @screenX_newLine (console.write c)
    have row := @screenY_newLine (console.write c)
    rw [if_neg high] at row
    have still : (console.write c).screenY = console.screenY := rfl
    refine ⟨⟨⟨by omega, by omega, by omega, by omega⟩, by omega⟩, fun other => ?_⟩
    rw [← chars, charAt, videoMem_newLine high, charAt]
  · rename_i short
    have next : (console.write c).screenX = console.screenX + 1 := rfl
    have still : (console.write c).screenY = console.screenY := rfl
    exact ⟨⟨⟨by omega, by omega, by omega, by omega⟩, by omega⟩, chars⟩

theorem puts {bytes : List UInt8} (at_ : AtCell cell console)
    (printed : ∀ c ∈ bytes, ¬(c = 10 ∨ c = 13)) (room : cell + bytes.length < 2000) :
    AtCell (cell + bytes.length) (puts bytes console) ∧
      (∀ index (bound : index < bytes.length),
        (G29Os.puts bytes console).charAt (cell + index) = bytes[index]) ∧
      ∀ other, other < cell ∨ cell + bytes.length ≤ other →
        (G29Os.puts bytes console).charAt other = console.charAt other := by
  induction bytes generalizing cell console with
  | nil => exact ⟨at_, fun index bound => absurd bound (Nat.not_lt_zero index), fun _ _ => rfl⟩
  | cons c bytes ih =>
      simp only [List.length_cons] at room ⊢
      obtain ⟨next, first⟩ := at_.putc (printed c List.mem_cons_self) (by omega)
      obtain ⟨finish, written, kept⟩ := ih next
        (fun later member => printed later (List.mem_cons_of_mem c member)) (by omega)
      refine ⟨?_, fun index bound => ?_, fun other outside => ?_⟩
      · rw [show cell + (bytes.length + 1) = cell + 1 + bytes.length by omega]
        exact finish
      · cases index with
        | zero =>
            refine (kept cell (Or.inl (Nat.lt_succ_self cell))).trans ?_
            rw [first, if_pos rfl]
            rfl
        | succ index =>
            have later := written index (by omega)
            rw [show cell + 1 + index = cell + (index + 1) by omega] at later
            exact later
      · refine (kept other (by omega)).trans ?_
        rw [first, if_neg (by omega)]

end AtCell

theorem setNewPosition_atCell {x y : Nat} (column : x < 80) (row : y < 25) :
    AtCell (80 * y + x) (setNewPosition x y console) := by
  have inside := @normalizePosition_inside x y (by omega) (by omega) (by omega) (by omega)
  have screenX : (setNewPosition x y console).screenX = x := congrArg Prod.fst inside
  have screenY : (setNewPosition x y console).screenY = y := congrArg Prod.snd inside
  exact ⟨⟨by omega, by omega, by omega, by omega⟩, by omega⟩

/-! ### A text with a place on the screen -/

structure Shown (base : Nat) (text : List UInt8) (start console : Console) : Prop where
  cursor : AtCell (base + text.length) console
  holds : ∀ index (bound : index < text.length), console.charAt (base + index) = text[index]
  blank : ∀ cell, base + text.length ≤ cell → cell ≤ base + 126 → cell < 2000 →
    console.charAt cell = 32
  before : ∀ cell, cell < base → console.charAt cell = start.charAt cell

namespace Shown

variable {base offset : Nat} {text text' : List UInt8} {start moved : Console}

theorem congr (shown : Shown base text start console) (cursor : AtCell (base + text.length) moved)
    (same : ∀ cell, moved.charAt cell = console.charAt cell) : Shown base text start moved where
  cursor := cursor
  holds index bound := (same _).trans (shown.holds index bound)
  blank cell lower upper inside := (same cell).trans (shown.blank cell lower upper inside)
  before cell early := (same cell).trans (shown.before cell early)

theorem redraw (shown : Shown base text start console) (same : text'.take offset = text.take offset)
    (low : offset ≤ text'.length) (low' : offset ≤ text.length)
    (printed : ∀ c ∈ text', ¬(c = 10 ∨ c = 13)) (room : base + text'.length < 2000)
    (at_ : AtCell (base + offset) moved) (kept : ∀ cell, moved.charAt cell = console.charAt cell) :
    AtCell (base + text'.length) (puts (text'.drop offset) moved) ∧
      (∀ index (bound : index < text'.length),
        (puts (text'.drop offset) moved).charAt (base + index) = text'[index]) ∧
      ∀ cell, cell < base ∨ base + text'.length ≤ cell →
        (puts (text'.drop offset) moved).charAt cell = console.charAt cell := by
  have length : (text'.drop offset).length = text'.length - offset := List.length_drop
  obtain ⟨finish, written, others⟩ := at_.puts
    (fun c member => printed c (List.mem_of_mem_drop member)) (by rw [length]; omega)
  refine ⟨?_, fun index bound => ?_, fun cell outside => ?_⟩
  · rw [length] at finish
    rwa [show base + text'.length = base + offset + (text'.length - offset) by omega]
  · by_cases early : index < offset
    · have old := congrArg (fun chars => chars[index]?) same
      simp only [List.getElem?_take, early, if_true] at old
      rw [List.getElem?_eq_getElem bound, List.getElem?_eq_getElem (by omega)] at old
      rw [others _ (by omega), kept, shown.holds index (by omega), Option.some.inj old]
    · have later : index - offset < (text'.drop offset).length := by omega
      have place : base + index = base + offset + (index - offset) := by omega
      have same : (text'.drop offset)[index - offset] = text'[index] := by
        rw [List.getElem_drop]
        congr 1
        omega
      rw [place, written (index - offset) later, same]
  · rw [others cell (by omega), kept]

theorem append (shown : Shown base text start console)
    (printed : ∀ d ∈ text ++ [c], ¬(d = 10 ∨ d = 13)) (room : base + text.length + 1 < 2000)
    (low : offset ≤ text.length) (at_ : AtCell (base + offset) moved)
    (kept : ∀ cell, moved.charAt cell = console.charAt cell) :
    Shown base (text ++ [c]) start (puts ((text ++ [c]).drop offset) moved) := by
  have length : (text ++ [c]).length = text.length + 1 := by simp
  obtain ⟨finish, written, others⟩ := shown.redraw (List.take_append_of_le_length low)
    (by omega) low printed (by omega) at_ kept
  rw [length] at others
  refine ⟨finish, written, fun cell lower upper inside => ?_, fun cell early => ?_⟩
  · rw [length] at lower
    rw [others cell (by omega)]
    exact shown.blank cell (by omega) upper inside
  · rw [others cell (Or.inl early)]
    exact shown.before cell early

theorem dropLast {last : Console} (shown : Shown base text start console) (low : offset < text.length)
    (short : text.length ≤ 126) (printed : ∀ d ∈ text, ¬(d = 10 ∨ d = 13))
    (at_ : AtCell (base + offset) moved) (kept : ∀ cell, moved.charAt cell = console.charAt cell)
    (back : AtCell (base + (text.length - 1)) last)
    (same : ∀ cell, last.charAt cell =
      (putc 32 (puts (text.dropLast.drop offset) moved)).charAt cell) :
    Shown base text.dropLast start last := by
  have inside := shown.cursor.inside
  have length : text.dropLast.length = text.length - 1 := List.length_dropLast
  have shorter : text.dropLast.take offset = text.take offset := by
    rw [List.dropLast_eq_take, List.take_take, Nat.min_eq_left (by omega)]
  obtain ⟨finish, written, others⟩ := shown.redraw shorter (by omega) (by omega)
    (fun d member => printed d ((List.dropLast_subset text) member)) (by omega) at_ kept
  have space : ¬((32 : UInt8) = 10 ∨ (32 : UInt8) = 13) := by decide
  obtain ⟨-, erased⟩ := finish.putc space (by omega)
  rw [length] at erased others
  refine ⟨length.symm ▸ back, fun index bound => ?_, fun cell lower upper bottom => ?_,
    fun cell early => ?_⟩
  · rw [same, erased, if_neg (by omega)]
    exact written index bound
  · rw [length] at lower
    rw [same, erased]
    split
    · rfl
    · rw [others cell (by omega)]
      exact shown.blank cell (by omega) upper bottom
  · rw [same, erased, if_neg (by omega), others cell (Or.inl early)]
    exact shown.before cell early

end Shown

end Console

end G29Os
