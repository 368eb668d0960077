import G29Os.Console
import G29Os.StringMove
import G29Os.TextRows

/-!
What `putc` does to the screen: a byte is written or a new line begins, and the screen
is the last 25 rows of the text written on it.
-/

namespace G29Os

open TextRows

namespace Console

variable {console : Console} {c : UInt8}

def charAt (console : Console) (cell : Nat) : UInt8 := console.videoMem (2 * cell)

def attributeAt (console : Console) (cell : Nat) : UInt8 := console.videoMem (2 * cell + 1)

@[simp] theorem charAt_moved (x y : Int) (cell : Nat) :
    ({ console with screenX := x, screenY := y } : Console).charAt cell = console.charAt cell := rfl

@[simp] theorem attributeAt_moved (x y : Int) (cell : Nat) :
    ({ console with screenX := x, screenY := y } : Console).attributeAt cell =
      console.attributeAt cell := rfl

structure OnScreen (console : Console) : Prop where
  left : 0 ≤ console.screenX
  right : console.screenX < 80
  top : 0 ≤ console.screenY
  bottom : console.screenY < 25

def write (c : UInt8) (console : Console) : Console :=
  let address := 2 * (numCols * console.screenY + console.screenX)
  { console with
    screenX := console.screenX + 1
    videoMem :=
      Function.update (Function.update console.videoMem address c) (address + 1) attrib }

def newLine (console : Console) : Console :=
  scrollscreen { console with screenX := 0, screenY := console.screenY + 1 }

theorem scrollscreen_memmove :
    scrollscreen console =
      if console.screenY ≠ numRows then console
      else { console with
        screenY := console.screenY - 1
        videoMem := blankCells (memmove 0 (2 * numCols) 3840 console.videoMem)
          (numCols * (numRows - 1)) (numCols * numRows) } := by
  rw [scrollscreen, memmove_moves 0 (2 * numCols) 3840 console.videoMem]
  simp only [numCols, numRows, Int.sub_zero, Int.zero_add]
  rfl

theorem scrollscreen_of_ne (room : console.screenY ≠ 25) : scrollscreen console = console :=
  if_pos room

theorem scrollscreen_column (x : Int) :
    scrollscreen { console with screenX := x } = { scrollscreen console with screenX := x } := by
  rw [scrollscreen, scrollscreen]
  split <;> rfl

theorem screenY_scrollscreen :
    (scrollscreen console).screenY = if console.screenY = 25 then 24 else console.screenY := by
  by_cases full : console.screenY = 25
  · have last : ¬console.screenY ≠ numRows := not_not.mpr full
    rw [scrollscreen, if_neg last, if_pos full]
    simp only [full]
    rfl
  · rw [scrollscreen_of_ne full, if_neg full]

theorem screenX_newLine : console.newLine.screenX = 0 := by
  rw [newLine, scrollscreen]
  split <;> rfl

theorem screenY_newLine :
    console.newLine.screenY = if console.screenY = 24 then 24 else console.screenY + 1 := by
  rw [newLine, screenY_scrollscreen]
  simp only
  split_ifs <;> omega

theorem newLine_onScreen (onScreen : OnScreen console) : OnScreen console.newLine := by
  obtain ⟨left, right, top, bottom⟩ := onScreen
  have column := @screenX_newLine console
  have row := @screenY_newLine console
  split_ifs at row <;> constructor <;> omega

theorem putc_printed (printed : ¬(c = 10 ∨ c = 13)) :
    putc c console =
      let scrolled := scrollscreen { console.write c with
        screenY := if console.screenX + 1 = numCols then console.screenY + 1 else console.screenY }
      { scrolled with
        screenX := scrolled.screenX.tmod numCols
        screenY := (scrolled.screenY + (scrolled.screenX.tmod numCols).tdiv numCols).tmod numRows } := by
  rw [putc, if_neg printed]
  rfl

theorem putc_eq (onScreen : OnScreen console) :
    putc c console =
      if c = 10 ∨ c = 13 then console.newLine
      else if console.screenX = 79 then (console.write c).newLine else console.write c := by
  obtain ⟨left, right, top, bottom⟩ := onScreen
  by_cases printed : c = 10 ∨ c = 13
  · rw [putc, if_pos printed, if_pos printed]
    rfl
  · rw [putc_printed printed, if_neg printed]
    by_cases last : console.screenX = 79
    · have full : console.screenX + 1 = numCols := by rw [last]; rfl
      have moved : scrollscreen { console.write c with screenY := console.screenY + 1 } =
          { (console.write c).newLine with screenX := numCols } := by
        rw [newLine, ← scrollscreen_column, ← full]
        rfl
      have row := @screenY_newLine (console.write c)
      have still : (console.write c).screenY = console.screenY := rfl
      have kept : (console.write c).newLine.screenY.tmod numRows =
          (console.write c).newLine.screenY := by
        split_ifs at row <;> exact Int.tmod_eq_of_lt (by omega) (by simp only [numRows]; omega)
      have column : Int.tmod numCols numCols = 0 := rfl
      have none : Int.tdiv 0 numCols = 0 := rfl
      simp only [full, if_true, if_pos last, moved, column, none, Int.add_zero, kept]
      rw [← @screenX_newLine (console.write c)]
    · have short : ¬console.screenX + 1 = numCols := by
        simp only [numCols]
        omega
      have room : (console.write c).screenY ≠ 25 := Int.ne_of_lt bottom
      have unscrolled : scrollscreen { console.write c with screenY := console.screenY } =
          console.write c := scrollscreen_of_ne room
      have column : (console.write c).screenX.tmod numCols = (console.write c).screenX :=
        Int.tmod_eq_of_lt (by simp only [write]; omega) (by simp only [write, numCols]; omega)
      have none : (console.write c).screenX.tdiv numCols = 0 :=
        Int.tdiv_eq_zero_of_lt (by simp only [write]; omega) (by simp only [write, numCols]; omega)
      have row : (console.write c).screenY.tmod numRows = (console.write c).screenY :=
        Int.tmod_eq_of_lt top (by simp only [write, numRows]; omega)
      simp only [short, if_false, if_neg last, unscrolled, column, none, Int.add_zero, row]

theorem putc_onScreen (onScreen : OnScreen console) : OnScreen (putc c console) := by
  obtain ⟨left, right, top, bottom⟩ := onScreen
  have first := @newLine_onScreen console ⟨left, right, top, bottom⟩
  rw [putc_eq ⟨left, right, top, bottom⟩]
  split_ifs with ends last
  · exact first
  · have column := @screenX_newLine (console.write c)
    have row := @screenY_newLine (console.write c)
    have still : (console.write c).screenY = console.screenY := rfl
    split_ifs at row <;> constructor <;> omega
  · have next : (console.write c).screenX = console.screenX + 1 := rfl
    constructor
    · omega
    · omega
    · exact top
    · exact bottom

/-! ### Cells -/

theorem charAt_write {cell : Nat} :
    (console.write c).charAt cell =
      if (cell : Int) = 80 * console.screenY + console.screenX then c else console.charAt cell := by
  have character : (2 * (cell : Int)) ≠ 2 * (numCols * console.screenY + console.screenX) + 1 := by
    omega
  rw [charAt, write]
  dsimp only
  rw [Function.update_of_ne character]
  split
  · rename_i here
    have address : 2 * (cell : Int) = 2 * (numCols * console.screenY + console.screenX) := by
      rw [here, numCols]
    rw [address, Function.update_self]
  · rename_i away
    have address : 2 * (cell : Int) ≠ 2 * (numCols * console.screenY + console.screenX) := by
      simp only [numCols]
      omega
    rw [Function.update_of_ne address]
    rfl

theorem attributeAt_write {cell : Nat} :
    (console.write c).attributeAt cell =
      if (cell : Int) = 80 * console.screenY + console.screenX then attrib
      else console.attributeAt cell := by
  have character : 2 * (cell : Int) + 1 ≠ 2 * (numCols * console.screenY + console.screenX) := by
    omega
  rw [attributeAt, write]
  dsimp only
  split
  · rename_i here
    have address : 2 * (cell : Int) + 1 = 2 * (numCols * console.screenY + console.screenX) + 1 := by
      rw [here, numCols]
    rw [address, Function.update_self]
  · rename_i away
    have address : 2 * (cell : Int) + 1 ≠ 2 * (numCols * console.screenY + console.screenX) + 1 := by
      simp only [numCols]
      omega
    rw [Function.update_of_ne address, Function.update_of_ne character]
    rfl

theorem videoMem_newLine (room : console.screenY ≠ 24) :
    console.newLine.videoMem = console.videoMem := by
  have below : console.screenY + 1 ≠ 25 := by omega
  rw [newLine, scrollscreen_of_ne below]

theorem charAt_setNewPosition {x y : Int} {cell : Nat} :
    (setNewPosition x y console).charAt cell = console.charAt cell := by
  have other : (2 * cell : Int) ≠ (numCols * console.screenY + console.screenX) * 2 + 1 := by omega
  simp only [charAt, setNewPosition, setAttribute, Function.update_of_ne other]

theorem blankCells_even {videoMem : Int → UInt8} {first last cell : Int} :
    blankCells videoMem first last (2 * cell) =
      if first ≤ cell ∧ cell < last then 32 else videoMem (2 * cell) := by
  have even : 2 * cell % 2 = 0 := by omega
  rw [blankCells, if_pos even]
  congr 1
  simp only [eq_iff_iff]
  omega

theorem blankCells_odd {videoMem : Int → UInt8} {first last cell : Int} :
    blankCells videoMem first last (2 * cell + 1) =
      if first ≤ cell ∧ cell < last then attrib else videoMem (2 * cell + 1) := by
  have odd : ¬(2 * cell + 1) % 2 = 0 := by omega
  rw [blankCells, if_neg odd]
  congr 1
  simp only [eq_iff_iff]
  omega

theorem videoMem_scrolled (last : console.screenY = 24) :
    console.newLine.videoMem =
      blankCells (fun address => if 0 ≤ address ∧ address < 3840 then
        console.videoMem (address + 160) else console.videoMem address) 1920 2000 := by
  have full : ¬console.screenY + 1 ≠ numRows := by simp [last, numRows]
  rw [newLine, scrollscreen, if_neg full]
  rfl

theorem charAt_scrolled {cell : Nat} (last : console.screenY = 24) (inside : cell < 2000) :
    console.newLine.charAt cell = if cell < 1920 then console.charAt (cell + 80) else 32 := by
  rw [charAt, videoMem_scrolled last, blankCells_even]
  split_ifs
  · omega
  · rfl
  · rw [charAt]
    congr 1
  · omega
  · omega
  · omega

theorem attributeAt_scrolled {cell : Nat} (last : console.screenY = 24) (inside : cell < 2000) :
    console.newLine.attributeAt cell =
      if cell < 1920 then console.attributeAt (cell + 80) else attrib := by
  rw [attributeAt, videoMem_scrolled last, blankCells_odd]
  split_ifs
  · omega
  · rfl
  · rw [attributeAt]
    congr 1
  · omega
  · omega
  · omega

theorem charAt_clear {cell : Nat} (inside : cell < 2000) : (clear console).charAt cell = 32 := by
  have here : (0 : Int) ≤ cell ∧ (cell : Int) < numRows * numCols := by
    simp only [numRows, numCols]
    omega
  rw [charAt, clear]
  dsimp only
  rw [blankCells_even, if_pos here]

theorem attributeAt_clear {cell : Nat} (inside : cell < 2000) :
    (clear console).attributeAt cell = attrib := by
  have here : (0 : Int) ≤ cell ∧ (cell : Int) < numRows * numCols := by
    simp only [numRows, numCols]
    omega
  rw [attributeAt, clear]
  dsimp only
  rw [blankCells_odd, if_pos here]

/-! ### The text on the screen -/

structure Shows (text : Text UInt8) (console : Console) : Prop where
  column : console.screenX = text.row.length
  row : console.screenY = text.above.length
  chars : ∀ y x, y < 25 → x < 80 → console.charAt (80 * y + x) = text.cell 32 y x
  attributes : ∀ cell, cell < 2000 → console.attributeAt cell = attrib

variable {text : Text UInt8}

theorem Shows.write (shows : Shows text console) (room : text.row.length < 80) :
    Shows (text.append c) (console.write c) := by
  have place : 80 * console.screenY + console.screenX =
      (80 * text.above.length + text.row.length : Nat) := by
    rw [shows.column, shows.row]
    omega
  constructor
  · simp only [Console.write, Text.append, shows.column, List.length_append, List.length_singleton]
    omega
  · exact shows.row
  · intro y x low short
    rw [charAt_write, place]
    by_cases here : y = text.above.length ∧ x = text.row.length
    · rw [here.1, here.2, if_pos rfl, Text.cell_append_self]
    · have away : ((80 * y + x : Nat) : Int) ≠ (80 * text.above.length + text.row.length : Nat) := by
        omega
      rw [if_neg away, shows.chars y x low short]
      exact (Text.cell_append_other fun same again => here ⟨same, again⟩).symm
  · intro cell inside
    rw [attributeAt_write]
    split
    · rfl
    · exact shows.attributes cell inside

theorem Shows.newLine (shows : Shows text console) :
    Shows (text.newRow.scroll 25) console.newLine := by
  have above : text.newRow.above.length = text.above.length + 1 := by
    simp [Text.newRow]
  by_cases last : text.above.length = 24
  · have full : text.newRow.above.length = 25 := by rw [above, last]
    have bottom : console.screenY = 24 := by rw [shows.row, last]; rfl
    have some_ : text.newRow.above ≠ [] := by
      rw [← List.length_pos_iff, full]
      decide
    rw [Text.scroll, if_pos full]
    constructor
    · rw [screenX_newLine]
      rfl
    · rw [screenY_newLine, if_pos bottom, List.length_drop, full]
      rfl
    · intro y x inside short
      rw [charAt_scrolled bottom (by omega), Text.cell_scrolled y x some_, Text.cell_newRow]
      by_cases kept : y < 24
      · rw [if_pos (by omega), ← shows.chars (y + 1) x (by omega) short]
        congr 1
        omega
      · have beyond : text.rows[y + 1]? = none :=
          List.getElem?_eq_none (by rw [Text.length_rows]; omega)
        rw [if_neg (by omega), Text.cell, beyond]
        rfl
    · intro cell inside
      rw [attributeAt_scrolled bottom inside]
      split
      · exact shows.attributes (cell + 80) (by omega)
      · rfl
  · have room : text.newRow.above.length ≠ 25 := by omega
    have above_ : console.screenY ≠ 24 := by
      rw [shows.row]
      omega
    have same := videoMem_newLine above_
    rw [Text.scroll, if_neg room]
    constructor
    · rw [screenX_newLine]
      rfl
    · rw [screenY_newLine, if_neg above_, shows.row, above]
      rfl
    · intro y x inside short
      rw [charAt, same, Text.cell_newRow]
      exact shows.chars y x inside short
    · intro cell inside
      rw [attributeAt, same]
      exact shows.attributes cell inside

def breaksRow (c : UInt8) : Bool := decide (c = 10 ∨ c = 13)

theorem Shows.putc (shows : Shows text console) (low : text.above.length < 25)
    (short : text.row.length < 80) :
    Shows ((text.put breaksRow 80 c).scroll 25) (putc c console) := by
  have column := shows.column
  have row := shows.row
  have onScreen : OnScreen console := by
    constructor <;> omega
  rw [putc_eq onScreen, Text.put]
  by_cases ends : c = 10 ∨ c = 13
  · have breaks : breaksRow c = true := decide_eq_true ends
    rw [if_pos ends, if_pos breaks]
    exact shows.newLine
  · have stays : ¬breaksRow c = true := by simpa [breaksRow] using ends
    have written := shows.write (c := c) short
    rw [if_neg ends, if_neg stays]
    by_cases last : text.row.length + 1 = 80
    · rw [if_pos last, if_pos (by omega)]
      exact written.newLine
    · have room : ¬(text.append c).above.length = 25 := Nat.ne_of_lt low
      rw [if_neg last, if_neg (by omega), Text.scroll, if_neg room]
      exact written

theorem Shows.puts {bytes : List UInt8} {written : Text UInt8}
    (shows : Shows (written.window 25) console) (short : written.row.length < 80) :
    Shows ((bytes.foldl (fun text c => text.put breaksRow 80 c) written).window 25)
      (puts bytes console) := by
  induction bytes generalizing written console with
  | nil => exact shows
  | cons c bytes ih =>
      have low : (written.window 25).above.length < 25 := Text.length_above_window (by decide)
      have next := Shows.putc (c := c) shows low short
      rw [← Text.window_put (by decide)] at next
      exact ih next (Text.length_put short)

theorem shows_clear :
    Shows (Text.empty : Text UInt8) { clear console with screenX := 0, screenY := 0 } := by
  constructor
  · rfl
  · rfl
  · intro y x low short
    rw [Text.cell_empty, charAt_moved, charAt_clear (by omega)]
  · intro cell inside
    rw [attributeAt_moved, attributeAt_clear inside]

/-- From a cleared screen, the screen holds the last 25 rows of the text written. -/
theorem console_showsText (console : Console) (bytes : List UInt8) :
    let text := Text.layout breaksRow 80 bytes
    let shown := text.rows.drop (text.rows.length - 25)
    let final := puts bytes { clear console with screenX := 0, screenY := 0 }
    (∀ y x, y < 25 → x < 80 →
      final.charAt (80 * y + x) = (((shown[y]?).getD [])[x]?).getD 32) ∧
    (∀ cell, cell < 2000 → final.attributeAt cell = attrib) ∧
    final.screenX = text.row.length ∧ final.screenY + 1 = shown.length := by
  have shows := @Shows.puts { clear console with screenX := 0, screenY := 0 } bytes Text.empty
    shows_clear (by decide)
  have shown := @Text.rows_window _ 25 (Text.layout breaksRow 80 bytes) (by decide)
  refine ⟨fun y x low short => ?_, shows.attributes, shows.column, ?_⟩
  · rw [← shown]
    exact shows.chars y x low short
  · rw [← shown, Text.length_rows, shows.row]
    rfl

end Console

end G29Os
