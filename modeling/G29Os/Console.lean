import G29Os.BoundedLoop

/-!
The text screen of `lib.c`. Addresses are taken relative to `video_mem`, and a C integer
that the code keeps in range stays an `Int`.
-/

namespace G29Os

open BoundedLoop

def numCols : Int := 80

def numRows : Int := 25

def attrib : UInt8 := 7

structure Position where
  xCoord : UInt8
  yCoord : UInt8
  deriving DecidableEq

structure Console where
  screenX : Int
  screenY : Int
  videoMem : Int → UInt8

def blankCells (videoMem : Int → UInt8) (first last : Int) : Int → UInt8 :=
  fun address =>
    if 2 * first ≤ address ∧ address < 2 * last then (if address % 2 = 0 then 32 else attrib)
    else videoMem address

def scrollscreen (console : Console) : Console :=
  if console.screenY ≠ numRows then console
  else
    let moved (address : Int) : UInt8 :=
      if 0 ≤ address ∧ address < 2 * numCols * (numRows - 1) then
        console.videoMem (address + 2 * numCols)
      else console.videoMem address
    { console with
      screenY := console.screenY - 1
      videoMem := blankCells moved (numCols * (numRows - 1)) (numCols * numRows) }

/-- The coordinates are narrowed to `uint8_t`. -/
def getCurPosition (console : Console) : Position where
  xCoord := UInt8.ofNat (console.screenX % 256).toNat
  yCoord := UInt8.ofNat (console.screenY % 256).toNat

def setAttribute (x y : Int) (attr : UInt8) (console : Console) : Console :=
  { console with videoMem := Function.update console.videoMem ((numCols * y + x) * 2 + 1) attr }

/-- The four `while` loops of `set_new_position` on `(new_x, new_y)`. -/
def normalizePosition (newX newY : Int) : Int × Int :=
  let raised := whileLoop (fun at_ : Int × Int => decide (at_.1 < 0))
    (fun at_ => (at_.1 + numCols, at_.2 - 1)) (-newX).toNat (newX, newY)
  let wrapped := whileLoop (fun at_ : Int × Int => decide (at_.1 ≥ numCols))
    (fun at_ => (at_.1 - numCols, at_.2 + 1)) raised.1.toNat raised
  let lowered := whileLoop (fun at_ : Int × Int => decide (at_.2 < 0))
    (fun at_ => (at_.1, at_.2 + numRows)) (-wrapped.2).toNat wrapped
  whileLoop (fun at_ : Int × Int => decide (at_.2 ≥ numRows))
    (fun at_ => (at_.1, at_.2 - 1)) lowered.2.toNat lowered

def setNewPosition (newX newY : Int) (console : Console) : Console :=
  let position := normalizePosition newX newY
  { setAttribute console.screenX console.screenY attrib console with
    screenX := position.1
    screenY := position.2 }

def clear (console : Console) : Console :=
  { console with videoMem := blankCells console.videoMem 0 (numRows * numCols) }

def putc (c : UInt8) (console : Console) : Console :=
  if c = 10 ∨ c = 13 then
    scrollscreen { console with screenY := console.screenY + 1, screenX := 0 }
  else
    let address := 2 * (numCols * console.screenY + console.screenX)
    let videoMem := Function.update (Function.update console.videoMem address c) (address + 1) attrib
    let screenX := console.screenX + 1
    let screenY := if screenX = numCols then console.screenY + 1 else console.screenY
    let scrolled := scrollscreen { screenX := screenX, screenY := screenY, videoMem := videoMem }
    let column := scrolled.screenX.tmod numCols
    { scrolled with
      screenX := column
      screenY := (scrolled.screenY + column.tdiv numCols).tmod numRows }

def puts (bytes : List UInt8) (console : Console) : Console :=
  bytes.foldl (fun current c => putc c current) console

def cString (size : Nat) (buffer : Nat → UInt8) : List UInt8 :=
  ((List.range size).map buffer).takeWhile (fun c => decide (c ≠ 0))

def ascii (text : List Char) : List UInt8 := text.map fun c => UInt8.ofNat c.toNat

end G29Os
