import G29Os.ConsoleText
import G29Os.Terminal

/-!
The screen routines of `lib.c` store by store: `memmove`, the blanking loops and the calls that
print keep a record of every address they have written to.
-/

namespace G29Os

open BoundedLoop

structure Screen where
  tty : Tty
  stored : List Int

namespace Screen

def mapConsole (change : Console → Console) (screen : Screen) : Screen :=
  { screen with tty := screen.tty.mapConsole change }

def store (address : Int) (value : UInt8) (screen : Screen) : Screen where
  tty := screen.tty.mapConsole fun console =>
    { console with videoMem := Function.update console.videoMem address value }
  stored := address :: screen.stored

def movsb (down : Bool) : Nat → Int → Int → Screen → Screen
  | 0, _, _, screen => screen
  | n + 1, edi, esi, screen =>
      let move : Int := if down then -1 else 1
      movsb down n (edi + move) (esi + move) (screen.store edi (screen.tty.console.videoMem esi))

def memmove (dest src : Int) (n : Nat) (screen : Screen) : Screen :=
  if src ≥ dest then movsb false n dest src screen
  else movsb true n (dest - 1 + n) (src - 1 + n) screen

def blankLoop : Nat → Int → Screen → Screen
  | 0, _, screen => screen
  | count + 1, i, screen => blankLoop count (i + 1) ((screen.store (i * 2) 32).store (i * 2 + 1) attrib)

def scrollscreen (screen : Screen) : Screen :=
  if screen.tty.console.screenY ≠ numRows then screen
  else
    let screen := screen.memmove 0 (2 * numCols) 3840
    let screen := screen.mapConsole fun console => { console with screenY := console.screenY - 1 }
    screen.blankLoop 80 (numCols * (numRows - 1))

def setAttribute (x y : Int) (attr : UInt8) (screen : Screen) : Screen :=
  screen.store ((numCols * y + x) * 2 + 1) attr

def setNewPosition (newX newY : Int) (screen : Screen) : Screen :=
  let position := normalizePosition newX newY
  let screen := screen.setAttribute screen.tty.console.screenX screen.tty.console.screenY attrib
  screen.mapConsole fun console => { console with screenX := position.1, screenY := position.2 }

def clear (screen : Screen) : Screen := screen.blankLoop 2000 0

def putc (c : UInt8) (screen : Screen) : Screen :=
  if c = 10 ∨ c = 13 then
    scrollscreen (screen.mapConsole fun console =>
      { console with screenY := console.screenY + 1, screenX := 0 })
  else
    let address := 2 * (numCols * screen.tty.console.screenY + screen.tty.console.screenX)
    let screen := (screen.store address c).store (address + 1) attrib
    let screen := screen.mapConsole fun console => { console with screenX := console.screenX + 1 }
    let screen := screen.mapConsole fun console =>
      if console.screenX = numCols then { console with screenY := console.screenY + 1 } else console
    let screen := screen.scrollscreen
    let screen := screen.mapConsole fun console =>
      { console with screenX := console.screenX.tmod numCols }
    screen.mapConsole fun console =>
      { console with screenY := (console.screenY + console.screenX.tdiv numCols).tmod numRows }

def puts (bytes : List UInt8) (screen : Screen) : Screen :=
  bytes.foldl (fun current c => current.putc c) screen

def writeByte (terminal : TerminalId) (screen : Screen) (c : UInt8) : Screen :=
  let screen := screen.putc c
  let start := screen.tty.startPosition terminal
  let moved : Position := { start with xCoord := start.xCoord + 1 }
  if moved.xCoord = 80 ∨ c = 10 then
    let row := moved.yCoord + 1
    let start : Position := { xCoord := 0, yCoord := if row ≥ 25 then 24 else row }
    { screen with tty := screen.tty.setStart terminal start }
  else { screen with tty := screen.tty.setStart terminal moved }

def terminalWrite (bytes : List UInt8) (screen : Screen) : Screen :=
  bytes.foldl (writeByte screen.tty.currTerminal) screen

/-! ### The screens that they leave are those of `Console` -/

variable {screen : Screen}

theorem tty_movsb (down : Bool) (n : Nat) (edi esi : Int) :
    (movsb down n edi esi screen).tty = screen.tty.mapConsole fun console =>
      { console with videoMem := G29Os.movsb down n edi esi console.videoMem } := by
  induction n generalizing edi esi screen with
  | zero => rfl
  | succ n ih =>
      rw [movsb, ih]
      rfl

theorem tty_memmove (dest src : Int) (n : Nat) :
    (memmove dest src n screen).tty = screen.tty.mapConsole fun console =>
      { console with videoMem := G29Os.memmove dest src n console.videoMem } := by
  rw [memmove]
  unfold G29Os.memmove
  split
  · exact tty_movsb ..
  · exact tty_movsb ..

theorem blankCells_store (videoMem : Int → UInt8) {first last : Int} (some_ : first < last) :
    blankCells (Function.update (Function.update videoMem (first * 2) 32) (first * 2 + 1) attrib)
        (first + 1) last =
      blankCells videoMem first last := by
  funext address
  rw [blankCells, blankCells]
  by_cases later : 2 * (first + 1) ≤ address ∧ address < 2 * last
  · have covered : 2 * first ≤ address ∧ address < 2 * last := ⟨by omega, later.2⟩
    rw [if_pos later, if_pos covered]
  · rw [if_neg later]
    by_cases character : address = first * 2
    · have covered : 2 * first ≤ address ∧ address < 2 * last := by omega
      have even : address % 2 = 0 := by omega
      have apart : address ≠ first * 2 + 1 := by omega
      rw [if_pos covered, if_pos even, Function.update_of_ne apart, character, Function.update_self]
    · by_cases color : address = first * 2 + 1
      · have covered : 2 * first ≤ address ∧ address < 2 * last := by omega
        have odd : ¬address % 2 = 0 := by omega
        rw [if_pos covered, if_neg odd, color, Function.update_self]
      · have outside : ¬(2 * first ≤ address ∧ address < 2 * last) := by omega
        rw [if_neg outside, Function.update_of_ne color, Function.update_of_ne character]

theorem tty_blankLoop (count : Nat) (i : Int) :
    (blankLoop count i screen).tty = screen.tty.mapConsole fun console =>
      { console with videoMem := blankCells console.videoMem i (i + count) } := by
  induction count generalizing i screen with
  | zero =>
      have none : (fun console : Console =>
          { console with videoMem := blankCells console.videoMem i (i + (0 : Nat)) }) = id := by
        funext console
        have same : blankCells console.videoMem i (i + (0 : Nat)) = console.videoMem := by
          funext address
          have outside : ¬(2 * i ≤ address ∧ address < 2 * (i + (0 : Nat))) := by omega
          rw [blankCells, if_neg outside]
        rw [same]
        rfl
      rw [none]
      rfl
  | succ count ih =>
      have next : i + 1 + (count : Int) = i + (count + 1 : Nat) := by omega
      rw [blankLoop, ih, next]
      simp only [store, Tty.mapConsole]
      rw [blankCells_store _ (by omega)]

theorem tty_scrollscreen :
    (scrollscreen screen).tty = screen.tty.mapConsole G29Os.scrollscreen := by
  rw [scrollscreen]
  by_cases full : screen.tty.console.screenY = numRows
  · have last : ¬screen.tty.console.screenY ≠ numRows := not_not.mpr full
    rw [if_neg last]
    simp only [tty_blankLoop, mapConsole, tty_memmove, Tty.mapConsole]
    rw [Console.scrollscreen_memmove, if_neg last]
    rfl
  · rw [if_pos full, Tty.mapConsole, G29Os.scrollscreen, if_pos full]

theorem tty_setNewPosition (newX newY : Int) :
    (setNewPosition newX newY screen).tty = screen.tty.mapConsole (G29Os.setNewPosition newX newY) := rfl

theorem tty_clear : (clear screen).tty = screen.tty.mapConsole G29Os.clear := tty_blankLoop 2000 0

theorem tty_putc (c : UInt8) : (putc c screen).tty = screen.tty.mapConsole (G29Os.putc c) := by
  rw [putc]
  split
  · rename_i ends
    rw [tty_scrollscreen, Tty.mapConsole, Tty.mapConsole, G29Os.putc, if_pos ends]
    rfl
  · rename_i printed
    simp only [mapConsole, tty_scrollscreen, store, Tty.mapConsole]
    rw [G29Os.putc, if_neg printed]
    by_cases full : screen.tty.console.screenX + 1 = numCols
    · simp only [full, if_true]
    · simp only [full, if_false]

theorem tty_puts (bytes : List UInt8) :
    (puts bytes screen).tty = screen.tty.mapConsole (G29Os.puts bytes) := by
  induction bytes generalizing screen with
  | nil => rfl
  | cons c bytes ih =>
      change (puts bytes (putc c screen)).tty = _
      rw [ih, tty_putc]
      rfl

theorem tty_writeByte (terminal : TerminalId) (c : UInt8) :
    (writeByte terminal screen c).tty = screen.tty.writeByte terminal c := by
  rw [writeByte, Tty.writeByte]
  simp only [tty_putc]
  split <;> rfl

theorem tty_terminalWrite (bytes : List UInt8) :
    (terminalWrite bytes screen).tty = screen.tty.terminalWrite bytes := by
  rw [terminalWrite, Tty.terminalWrite]
  generalize screen.tty.currTerminal = terminal
  induction bytes generalizing screen with
  | nil => rfl
  | cons c bytes ih =>
      rw [List.foldl_cons, List.foldl_cons, ih, tty_writeByte]

/-! ### Where they store -/

def PageOnly (screen : Screen) : Prop := ∀ address ∈ screen.stored, 0 ≤ address ∧ address < 4000

variable {address i edi esi : Int} {count n : Nat}

theorem PageOnly.mapConsole {change : Console → Console} (pageOnly : PageOnly screen) :
    PageOnly (screen.mapConsole change) := pageOnly

theorem PageOnly.store {value : UInt8} (pageOnly : PageOnly screen) (low : 0 ≤ address)
    (high : address < 4000) : PageOnly (screen.store address value) := by
  intro other listed
  rcases List.mem_cons.mp listed with here | before
  · exact here ▸ ⟨low, high⟩
  · exact pageOnly other before

theorem PageOnly.movsb_up (pageOnly : PageOnly screen) (low : 0 ≤ edi) (high : edi + n ≤ 4000) :
    PageOnly (movsb false n edi esi screen) := by
  induction n generalizing edi esi screen with
  | zero => exact pageOnly
  | succ n ih => exact ih (pageOnly.store low (by omega)) (Int.le_add_one low) (by omega)

theorem PageOnly.blankLoop (pageOnly : PageOnly screen) (low : 0 ≤ i) (high : i + count ≤ 2000) :
    PageOnly (blankLoop count i screen) := by
  induction count generalizing i screen with
  | zero => exact pageOnly
  | succ count ih =>
      have character := @PageOnly.store screen (i * 2) 32 pageOnly (by omega) (by omega)
      exact ih (character.store (by omega) (by omega)) (by omega) (by omega)

theorem PageOnly.scrollscreen (pageOnly : PageOnly screen) : PageOnly screen.scrollscreen := by
  rw [Screen.scrollscreen]
  split
  · exact pageOnly
  · have upwards : 2 * numCols ≥ 0 := by decide
    have moved : PageOnly (screen.memmove 0 (2 * numCols) 3840) := by
      rw [memmove, if_pos upwards]
      exact pageOnly.movsb_up (Int.le_refl 0) (by omega)
    exact moved.mapConsole.blankLoop (by decide) (by decide)

structure InPage (screen : Screen) : Prop where
  onScreen : screen.tty.console.OnScreen
  stored : PageOnly screen

namespace InPage

theorem scrollscreen (inPage : InPage screen) : InPage screen.scrollscreen where
  onScreen := by
    have room : screen.tty.console.screenY ≠ 25 := Int.ne_of_lt inPage.onScreen.bottom
    rw [tty_scrollscreen, Tty.mapConsole, Console.scrollscreen_of_ne room]
    exact inPage.onScreen
  stored := inPage.stored.scrollscreen

theorem clear (inPage : InPage screen) : InPage screen.clear where
  onScreen := by
    obtain ⟨left, right, top, bottom⟩ := inPage.onScreen
    rw [tty_clear]
    exact ⟨left, right, top, bottom⟩
  stored := inPage.stored.blankLoop (Int.le_refl 0) (by decide)

theorem putc (inPage : InPage screen) (c : UInt8) : InPage (screen.putc c) where
  onScreen := by
    rw [tty_putc]
    exact Console.putc_onScreen inPage.onScreen
  stored := by
    obtain ⟨left, right, top, bottom⟩ := inPage.onScreen
    rw [Screen.putc]
    split
    · exact inPage.stored.mapConsole.scrollscreen
    · have low : 0 ≤ numCols * screen.tty.console.screenY + screen.tty.console.screenX := by
        simp only [numCols]
        omega
      have high : numCols * screen.tty.console.screenY + screen.tty.console.screenX < 2000 := by
        simp only [numCols]
        omega
      have character := @PageOnly.store screen
        (2 * (numCols * screen.tty.console.screenY + screen.tty.console.screenX)) c inPage.stored
        (by omega) (by omega)
      have cell := @PageOnly.store _
        (2 * (numCols * screen.tty.console.screenY + screen.tty.console.screenX) + 1) attrib character
        (by omega) (by omega)
      exact cell.mapConsole.mapConsole.scrollscreen.mapConsole.mapConsole

theorem puts (inPage : InPage screen) (bytes : List UInt8) : InPage (screen.puts bytes) := by
  induction bytes generalizing screen with
  | nil => exact inPage
  | cons c bytes ih => exact ih (inPage.putc c)

theorem writeByte (inPage : InPage screen) (terminal : TerminalId) (c : UInt8) :
    InPage (screen.writeByte terminal c) := by
  have written := inPage.putc c
  rw [Screen.writeByte]
  split <;> exact ⟨written.onScreen, written.stored⟩

theorem terminalWrite (inPage : InPage screen) (bytes : List UInt8) :
    InPage (screen.terminalWrite bytes) := by
  rw [Screen.terminalWrite]
  generalize screen.tty.currTerminal = terminal
  induction bytes generalizing screen with
  | nil => exact inPage
  | cons c bytes ih => exact ih (inPage.writeByte terminal c)

end InPage

/-! ### The four loops of `set_new_position` -/

def Settles (newX newY : Int) (final : Int × Int) : Prop :=
  ∃ raised wrapped lowered : Int × Int,
    Ends (fun at_ : Int × Int => decide (at_.1 < 0)) (fun at_ => (at_.1 + numCols, at_.2 - 1))
      (newX, newY) raised ∧
    Ends (fun at_ : Int × Int => decide (at_.1 ≥ numCols)) (fun at_ => (at_.1 - numCols, at_.2 + 1))
      raised wrapped ∧
    Ends (fun at_ : Int × Int => decide (at_.2 < 0)) (fun at_ => (at_.1, at_.2 + numRows))
      wrapped lowered ∧
    Ends (fun at_ : Int × Int => decide (at_.2 ≥ numRows)) (fun at_ => (at_.1, at_.2 - 1))
      lowered final

structure Settled (newX newY : Int) (final : Int × Int) : Prop where
  left : 0 ≤ final.1
  right : final.1 < 80
  top : 0 ≤ final.2
  bottom : final.2 < 25
  exact : 0 ≤ 80 * newY + newX → 80 * newY + newX < 2000 → 80 * final.2 + final.1 = 80 * newY + newX

theorem raise_ends (start : Int × Int) :
    ∃ raised, whileLoop (fun at_ : Int × Int => decide (at_.1 < 0))
        (fun at_ => (at_.1 + numCols, at_.2 - 1)) (-start.1).toNat start = raised ∧
      Ends (fun at_ : Int × Int => decide (at_.1 < 0)) (fun at_ => (at_.1 + numCols, at_.2 - 1))
        start raised ∧
      0 ≤ raised.1 ∧ 80 * raised.2 + raised.1 = 80 * start.2 + start.1 := by
  have ended := whileLoop_rule (fun at_ : Int × Int => decide (at_.1 < 0))
    (fun at_ => (at_.1 + numCols, at_.2 - 1))
    (fun at_ => 80 * at_.2 + at_.1 = 80 * start.2 + start.1) (fun at_ => (-at_.1).toNat) ?_
    (-start.1).toNat start rfl (Nat.le_refl _)
  · obtain ⟨linear, stopped⟩ := ended
    exact ⟨_, rfl, ends_whileLoop stopped, Int.not_lt.mp (of_decide_eq_false stopped), linear⟩
  · intro at_ linear running
    have negative := of_decide_eq_true running
    simp only [numCols]
    omega

theorem wrap_ends (start : Int × Int) (left : 0 ≤ start.1) :
    ∃ wrapped, whileLoop (fun at_ : Int × Int => decide (at_.1 ≥ numCols))
        (fun at_ => (at_.1 - numCols, at_.2 + 1)) start.1.toNat start = wrapped ∧
      Ends (fun at_ : Int × Int => decide (at_.1 ≥ numCols)) (fun at_ => (at_.1 - numCols, at_.2 + 1))
        start wrapped ∧
      0 ≤ wrapped.1 ∧ wrapped.1 < 80 ∧ 80 * wrapped.2 + wrapped.1 = 80 * start.2 + start.1 := by
  have ended := whileLoop_rule (fun at_ : Int × Int => decide (at_.1 ≥ numCols))
    (fun at_ => (at_.1 - numCols, at_.2 + 1))
    (fun at_ => 80 * at_.2 + at_.1 = 80 * start.2 + start.1 ∧ 0 ≤ at_.1) (fun at_ => at_.1.toNat) ?_
    start.1.toNat start ⟨rfl, left⟩ (Nat.le_refl _)
  · obtain ⟨⟨linear, left⟩, stopped⟩ := ended
    exact ⟨_, rfl, ends_whileLoop stopped, left, Int.not_le.mp (of_decide_eq_false stopped), linear⟩
  · intro at_ kept running
    have wide := of_decide_eq_true running
    simp only [numCols] at wide ⊢
    omega

theorem lower_ends (start : Int × Int) :
    ∃ lowered, whileLoop (fun at_ : Int × Int => decide (at_.2 < 0))
        (fun at_ => (at_.1, at_.2 + numRows)) (-start.2).toNat start = lowered ∧
      Ends (fun at_ : Int × Int => decide (at_.2 < 0)) (fun at_ => (at_.1, at_.2 + numRows))
        start lowered ∧
      lowered.1 = start.1 ∧ lowered.2 = if start.2 < 0 then start.2 % 25 else start.2 := by
  have ended := whileLoop_rule (fun at_ : Int × Int => decide (at_.2 < 0))
    (fun at_ => (at_.1, at_.2 + numRows))
    (fun at_ => at_.1 = start.1 ∧ at_.2 % 25 = start.2 % 25 ∧ (0 ≤ start.2 → at_.2 = start.2) ∧
      (start.2 < 0 → at_.2 < 25))
    (fun at_ => (-at_.2).toNat) ?_ (-start.2).toNat start
    ⟨rfl, rfl, fun _ => rfl, fun negative => Int.lt_trans negative (by decide)⟩ (Nat.le_refl _)
  · obtain ⟨⟨column, row, same, low⟩, stopped⟩ := ended
    have top := Int.not_lt.mp (of_decide_eq_false stopped)
    refine ⟨_, rfl, ends_whileLoop stopped, column, ?_⟩
    split_ifs <;> omega
  · intro at_ kept running
    have negative := of_decide_eq_true running
    simp only [numRows]
    omega

theorem cap_ends (start : Int × Int) :
    ∃ final, whileLoop (fun at_ : Int × Int => decide (at_.2 ≥ numRows))
        (fun at_ => (at_.1, at_.2 - 1)) start.2.toNat start = final ∧
      Ends (fun at_ : Int × Int => decide (at_.2 ≥ numRows)) (fun at_ => (at_.1, at_.2 - 1))
        start final ∧
      final.1 = start.1 ∧ final.2 = min start.2 24 := by
  have ended := whileLoop_rule
    (fun at_ : Int × Int => decide (at_.2 ≥ numRows)) (fun at_ => (at_.1, at_.2 - 1))
    (fun at_ => at_.1 = start.1 ∧ min at_.2 24 = min start.2 24)
    (fun at_ => at_.2.toNat) ?_ start.2.toNat start ⟨rfl, rfl⟩ (Nat.le_refl _)
  · obtain ⟨⟨column, row⟩, stopped⟩ := ended
    have bottom : _ < (25 : Int) := Int.not_le.mp (of_decide_eq_false stopped)
    refine ⟨_, rfl, ends_whileLoop stopped, column, ?_⟩
    omega
  · intro at_ kept running
    have low := of_decide_eq_true running
    simp only [numRows] at low ⊢
    omega

theorem settles_normalizePosition (newX newY : Int) :
    Settles newX newY (normalizePosition newX newY) ∧
      normalizePosition newX newY = (newX % 80,
        if newY + newX / 80 < 0 then (newY + newX / 80) % 25 else min (newY + newX / 80) 24) := by
  obtain ⟨raised, raisedEq, raises, raisedLeft, raisedLinear⟩ := raise_ends (newX, newY)
  obtain ⟨wrapped, wrappedEq, wraps, left, right, linear⟩ := wrap_ends raised raisedLeft
  obtain ⟨lowered, loweredEq, lowers, loweredColumn, loweredRow⟩ := lower_ends wrapped
  obtain ⟨final, finalEq, caps, column, row⟩ := cap_ends lowered
  have whole : normalizePosition newX newY = final := by
    rw [normalizePosition]
    change whileLoop _ _ (-newX).toNat (newX, newY) = raised at raisedEq
    simp only [raisedEq, wrappedEq, loweredEq, finalEq]
  rw [whole]
  refine ⟨⟨raised, wrapped, lowered, raises, wraps, lowers, caps⟩, Prod.ext ?_ ?_⟩
  · simp only at raisedLinear ⊢
    omega
  · simp only at raisedLinear ⊢
    have above : wrapped.2 = newY + newX / 80 := by omega
    rw [above] at loweredRow
    rw [row, loweredRow]
    split_ifs <;> omega

theorem settled_normalizePosition (newX newY : Int) : Settled newX newY (normalizePosition newX newY) := by
  rw [(settles_normalizePosition newX newY).2]
  constructor
  · dsimp only
    omega
  · dsimp only
    omega
  · dsimp only
    split_ifs <;> omega
  · dsimp only
    split_ifs <;> omega
  · dsimp only
    split_ifs <;> omega

theorem InPage.setNewPosition (inPage : InPage screen) (newX newY : Int) :
    InPage (screen.setNewPosition newX newY) where
  onScreen := by
    have settled := settled_normalizePosition newX newY
    exact ⟨settled.left, settled.right, settled.top, settled.bottom⟩
  stored := by
    obtain ⟨left, right, top, bottom⟩ := inPage.onScreen
    have low : 0 ≤ (numCols * screen.tty.console.screenY + screen.tty.console.screenX) * 2 + 1 := by
      simp only [numCols]
      omega
    have high : (numCols * screen.tty.console.screenY + screen.tty.console.screenX) * 2 + 1 < 4000 := by
      simp only [numCols]
      omega
    exact (inPage.stored.store low high).mapConsole

/-! ### Calls one after the other -/

inductive Call where
  | putc (c : UInt8)
  | puts (s : List UInt8)
  | setNewPosition (newX newY : Int)
  | scrollscreen
  | clear
  | terminalWrite (buf : List UInt8)

def run (screen : Screen) : Call → Screen
  | .putc c => screen.putc c
  | .puts s => screen.puts s
  | .setNewPosition newX newY => screen.setNewPosition newX newY
  | .scrollscreen => screen.scrollscreen
  | .clear => screen.clear
  | .terminalWrite buf => screen.terminalWrite buf

def runTty (tty : Tty) : Call → Tty
  | .putc c => tty.mapConsole (G29Os.putc c)
  | .puts s => tty.mapConsole (G29Os.puts s)
  | .setNewPosition newX newY => tty.mapConsole (G29Os.setNewPosition newX newY)
  | .scrollscreen => tty.mapConsole G29Os.scrollscreen
  | .clear => tty.mapConsole G29Os.clear
  | .terminalWrite buf => tty.terminalWrite buf

theorem tty_run (call : Call) : (screen.run call).tty = runTty screen.tty call := by
  cases call with
  | putc c => exact tty_putc c
  | puts s => exact tty_puts s
  | setNewPosition newX newY => exact tty_setNewPosition newX newY
  | scrollscreen => exact tty_scrollscreen
  | clear => exact tty_clear
  | terminalWrite buf => exact tty_terminalWrite buf

theorem tty_runs (calls : List Call) : (calls.foldl run screen).tty = calls.foldl runTty screen.tty := by
  induction calls generalizing screen with
  | nil => rfl
  | cons call calls ih => rw [List.foldl_cons, List.foldl_cons, ih, tty_run]

theorem InPage.run (inPage : InPage screen) (call : Call) : InPage (screen.run call) := by
  cases call with
  | putc c => exact inPage.putc c
  | puts s => exact inPage.puts s
  | setNewPosition newX newY => exact inPage.setNewPosition newX newY
  | scrollscreen => exact inPage.scrollscreen
  | clear => exact inPage.clear
  | terminalWrite buf => exact inPage.terminalWrite buf

theorem InPage.runs (inPage : InPage screen) (calls : List Call) : InPage (calls.foldl Screen.run screen) := by
  induction calls generalizing screen with
  | nil => exact inPage
  | cons call calls ih => exact ih (inPage.run call)

def atOrigin (tty : Tty) : Screen where
  tty := tty.mapConsole fun console => { console with screenX := 0, screenY := 0 }
  stored := []

theorem atOrigin_inPage (tty : Tty) : InPage (atOrigin tty) where
  onScreen := by
    have columns : (0 : Int) < 80 := by decide
    have rows : (0 : Int) < 25 := by decide
    exact ⟨Int.le_refl 0, columns, Int.le_refl 0, rows⟩
  stored _ listed := absurd listed List.not_mem_nil

/-- Every list of calls is followed here by one more `set_new_position`. -/
theorem calls_inPage (tty : Tty) (calls : List Call) :
    InPage (calls.foldl run (atOrigin tty)) ∧
    ∀ newX newY : Int, ∃ final,
      Settles newX newY final ∧
      (setNewPosition newX newY (calls.foldl run (atOrigin tty))).tty.console.screenX = final.1 ∧
      (setNewPosition newX newY (calls.foldl run (atOrigin tty))).tty.console.screenY = final.2 ∧
      (0 ≤ 80 * newY + newX → 80 * newY + newX < 2000 →
        80 * final.2 + final.1 = 80 * newY + newX) := by
  refine ⟨(atOrigin_inPage tty).runs calls, fun newX newY => ?_⟩
  exact ⟨_, (settles_normalizePosition newX newY).1, rfl, rfl,
    (settled_normalizePosition newX newY).exact⟩

end Screen

end G29Os
