import G29Os.CursorText
import G29Os.ScreenWrites

/-! Where the cursor is after the routines of `lib.c`, also where rows scroll away. -/

namespace G29Os

theorem normalizePosition_row {x : Int} (left : 0 ≤ x) (right : x < 80) (y : Int) :
    normalizePosition x y = (x, if y < 0 then y % 25 else min y 24) := by
  have column : x % 80 = x := by omega
  have row : y + x / 80 = y := by omega
  rw [(Screen.settles_normalizePosition x y).2, column, row]

namespace Console

variable {console : Console} {c : UInt8} {bytes : List UInt8}

theorem setNewPosition_row {x : Nat} (column : x < 80) (y : Nat) :
    (setNewPosition x y console).screenX = x ∧
      (setNewPosition x y console).screenY = min (y : Int) 24 := by
  have row := @normalizePosition_row x (by omega) (by omega) y
  rw [if_neg (by omega)] at row
  exact ⟨congrArg Prod.fst row, congrArg Prod.snd row⟩

theorem setNewPosition_onScreen {x : Int} (left : 0 ≤ x) (right : x < 80) (y : Int) :
    OnScreen (setNewPosition x y console) := by
  have row := normalizePosition_row left right y
  have screenX : (setNewPosition x y console).screenX = x := congrArg Prod.fst row
  have screenY : (setNewPosition x y console).screenY = if y < 0 then y % 25 else min y 24 :=
    congrArg Prod.snd row
  split_ifs at screenY <;> constructor <;> omega

theorem position_putc (onScreen : OnScreen console) :
    ((putc c console).screenX, (putc c console).screenY) =
      if c = 10 ∨ c = 13 ∨ console.screenX = 79 then (0, min (console.screenY + 1) 24)
      else (console.screenX + 1, console.screenY) := by
  have bottom := onScreen.bottom
  have ends (console : Console) (bottom : console.screenY < 25) :
      (console.newLine.screenX, console.newLine.screenY) = (0, min (console.screenY + 1) 24) := by
    rw [screenX_newLine, screenY_newLine]
    congr 1
    split_ifs <;> omega
  rw [putc_eq onScreen]
  by_cases feeds : c = 10 ∨ c = 13
  · rw [if_pos feeds, if_pos (or_assoc.mp (Or.inl feeds))]
    exact ends console bottom
  · rw [if_neg feeds]
    by_cases last : console.screenX = 79
    · rw [if_pos last, if_pos (Or.inr (Or.inr last))]
      exact ends (console.write c) bottom
    · have short : ¬(c = 10 ∨ c = 13 ∨ console.screenX = 79) := fun either =>
        (or_assoc.mpr either).elim feeds last
      rw [if_neg last, if_neg short]
      rfl

theorem puts_onScreen (onScreen : OnScreen console) (bytes : List UInt8) :
    OnScreen (puts bytes console) := by
  induction bytes generalizing console with
  | nil => exact onScreen
  | cons c bytes ih => exact ih (putc_onScreen onScreen)

theorem position_puts (onScreen : OnScreen console) (printed : ∀ c ∈ bytes, ¬(c = 10 ∨ c = 13)) :
    (puts bytes console).screenX = (console.screenX + bytes.length) % 80 ∧
      (puts bytes console).screenY =
        min (console.screenY + (console.screenX + bytes.length) / 80) 24 := by
  induction bytes generalizing console with
  | nil =>
      obtain ⟨left, right, top, bottom⟩ := onScreen
      simp only [puts, List.foldl_nil, List.length_nil]
      omega
  | cons c bytes ih =>
      have moved := @position_putc console c onScreen
      have stays : ¬(c = 10 ∨ c = 13) := printed c List.mem_cons_self
      obtain ⟨column, row⟩ := ih (putc_onScreen onScreen : OnScreen (putc c console))
        (fun later member => printed later (List.mem_cons_of_mem c member))
      obtain ⟨left, right, top, bottom⟩ := onScreen
      have next : puts (c :: bytes) console = puts bytes (putc c console) := rfl
      rw [next, column, row, List.length_cons]
      by_cases last : console.screenX = 79
      · rw [if_pos (Or.inr (Or.inr last)), Prod.mk.injEq] at moved
        omega
      · have short : ¬(c = 10 ∨ c = 13 ∨ console.screenX = 79) := fun either =>
          (or_assoc.mpr either).elim stays last
        rw [if_neg short, Prod.mk.injEq] at moved
        omega

theorem position_puts_newline (onScreen : OnScreen console)
    (printed : ∀ c ∈ bytes, ¬(c = 10 ∨ c = 13)) :
    ((puts (bytes ++ [10]) console).screenX, (puts (bytes ++ [10]) console).screenY) =
      (0, min (console.screenY + (console.screenX + bytes.length) / 80 + 1) 24) := by
  have text : puts (bytes ++ [10]) console = putc 10 (puts bytes console) := by
    rw [puts, List.foldl_append]
    rfl
  obtain ⟨-, row⟩ := position_puts onScreen printed
  rw [text, position_putc (puts_onScreen onScreen bytes), if_pos (Or.inl rfl), row]
  congr 1
  omega

theorem getCurPosition_onScreen (onScreen : OnScreen console) :
    ((getCurPosition console).xCoord.toNat : Int) = console.screenX ∧
      ((getCurPosition console).yCoord.toNat : Int) = console.screenY := by
  obtain ⟨left, right, top, bottom⟩ := onScreen
  have column : (getCurPosition console).xCoord.toNat = (console.screenX % 256).toNat :=
    UInt8.toNat_ofNat_of_lt' (by change _ < 2 ^ 8; omega)
  have row : (getCurPosition console).yCoord.toNat = (console.screenY % 256).toNat :=
    UInt8.toNat_ofNat_of_lt' (by change _ < 2 ^ 8; omega)
  rw [column, row]
  omega

end Console

end G29Os
