import Mathlib.Tactic.Common

/-!
Text laid out in rows of a fixed width, and the last rows of it that a window of a fixed
height shows. The row being written is kept apart from the rows above it.
-/

namespace TextRows

variable {α : Type*}

structure Text (α : Type*) where
  above : List (List α)
  row : List α

namespace Text

variable {ends : α → Bool} {width height : Nat} {text : Text α} {blank c : α}

def empty : Text α := { above := [], row := [] }

def rows (text : Text α) : List (List α) := text.above ++ [text.row]

def newRow (text : Text α) : Text α := { above := text.above ++ [text.row], row := [] }

def append (c : α) (text : Text α) : Text α := { text with row := text.row ++ [c] }

/-- A character that ends the row starts a new one, and so does one that fills it. -/
def put (ends : α → Bool) (width : Nat) (c : α) (text : Text α) : Text α :=
  if ends c then text.newRow
  else if text.row.length + 1 = width then (text.append c).newRow
  else text.append c

def layout (ends : α → Bool) (width : Nat) (cs : List α) : Text α :=
  cs.foldl (fun text c => text.put ends width c) empty

def window (height : Nat) (text : Text α) : Text α :=
  { text with above := text.above.drop (text.rows.length - height) }

def scroll (height : Nat) (text : Text α) : Text α :=
  if text.above.length = height then { text with above := text.above.drop 1 } else text

def cell (blank : α) (text : Text α) (y x : Nat) : α :=
  (((text.rows[y]?).getD [])[x]?).getD blank

@[simp] theorem length_rows : text.rows.length = text.above.length + 1 := by simp [rows]

theorem rows_window (positive : 0 < height) :
    (text.window height).rows = text.rows.drop (text.rows.length - height) := by
  have inside : text.rows.length - height ≤ text.above.length := by
    rw [length_rows]
    omega
  simp only [window]
  generalize text.rows.length - height = count at inside ⊢
  rw [rows, rows, List.drop_append_of_le_length inside]

theorem length_above_window (positive : 0 < height) : (text.window height).above.length < height := by
  rw [window, length_rows, List.length_drop]
  omega

theorem window_append : (text.append c).window height = (text.window height).append c := by
  simp only [window, append, length_rows]

theorem window_newRow (positive : 0 < height) :
    text.newRow.window height = (text.window height).newRow.scroll height := by
  simp only [window, newRow, scroll, length_rows, List.length_append, List.length_drop,
    List.length_singleton]
  by_cases room : text.above.length + 1 < height
  · have short : ¬text.above.length - (text.above.length + 1 - height) + 1 = height := by omega
    have none : text.above.length + 1 + 1 - height = 0 := by omega
    have none' : text.above.length + 1 - height = 0 := by omega
    rw [if_neg short, none, none', List.drop_zero, List.drop_zero]
  · have full : text.above.length - (text.above.length + 1 - height) + 1 = height := by omega
    have more : text.above.length + 1 + 1 - height = text.above.length + 1 - height + 1 := by omega
    have kept : text.above.length + 1 - height ≤ text.above.length := by omega
    rw [if_pos full, more, ← List.drop_drop, List.drop_append_of_le_length kept]

theorem window_put (positive : 0 < height) :
    (text.put ends width c).window height =
      ((text.window height).put ends width c).scroll height := by
  have unscrolled (short : (text.window height).above.length < height) :
      ((text.window height).append c).scroll height = (text.window height).append c :=
    if_neg (Nat.ne_of_lt short)
  rw [put, put]
  split
  · exact window_newRow positive
  · rw [show (text.window height).row = text.row from rfl]
    split
    · rw [window_newRow positive, window_append]
    · rw [window_append, unscrolled (length_above_window positive)]

theorem length_put (short : text.row.length < width) :
    (text.put ends width c).row.length < width := by
  rw [put]
  split
  · exact Nat.zero_lt_of_lt short
  · split
    · exact Nat.zero_lt_of_lt short
    · simp only [append, List.length_append, List.length_singleton]
      omega

theorem cell_empty (y x : Nat) : (empty : Text α).cell blank y x = blank := by
  rcases y with _ | y <;> simp [cell, rows, empty]

theorem cell_newRow (y x : Nat) : text.newRow.cell blank y x = text.cell blank y x := by
  have same : (text.newRow.rows[y]?).getD [] = (text.rows[y]?).getD [] := by
    have rows' : text.newRow.rows = text.rows ++ [[]] := rfl
    rw [rows']
    rcases Nat.lt_trichotomy y text.rows.length with inside | last | beyond
    · rw [List.getElem?_append_left inside]
    · subst last
      simp
    · rw [List.getElem?_eq_none (by simp only [List.length_append, List.length_singleton]; omega),
        List.getElem?_eq_none (by omega)]
  rw [cell, cell, same]

theorem cell_scrolled (y x : Nat) (some_ : text.above ≠ []) :
    ({ text with above := text.above.drop 1 } : Text α).cell blank y x =
      text.cell blank (y + 1) x := by
  have rows' : ({ text with above := text.above.drop 1 } : Text α).rows = text.rows.drop 1 := by
    rw [rows, rows, List.drop_append_of_le_length (List.length_pos_iff.mpr some_)]
  rw [cell, cell, rows', List.getElem?_drop, Nat.add_comm 1 y]

theorem cell_append_self :
    (text.append c).cell blank text.above.length text.row.length = c := by
  simp [cell, rows, append]

theorem cell_append_other {y x : Nat} (other : y = text.above.length → x ≠ text.row.length) :
    (text.append c).cell blank y x = text.cell blank y x := by
  rcases Nat.lt_trichotomy y text.above.length with inside | last | beyond
  · rw [cell, cell, rows, rows, List.getElem?_append_left inside, List.getElem?_append_left]
    · rfl
    · exact inside
  · subst last
    have away : x ≠ text.row.length := other rfl
    simp only [cell, rows, append, List.getElem?_concat_length, Option.getD_some]
    rcases Nat.lt_or_gt_of_ne away with before | after
    · rw [List.getElem?_append_left before]
    · rw [List.getElem?_eq_none (by simp only [List.length_append, List.length_singleton]; omega),
        List.getElem?_eq_none (by omega)]
  · have past : (text.append c).rows[y]? = none :=
      List.getElem?_eq_none (by rw [length_rows]; exact beyond)
    have past' : text.rows[y]? = none := List.getElem?_eq_none (by rw [length_rows]; exact beyond)
    rw [cell, cell, past, past']

end Text

end TextRows
