import G29Os.BoundedLoop
import G29Os.ByteRange

/-!
The file-system image of `fs.h` and `types.h` where the boot loader left it, and
`read_data` of `fs.c`, in the 32-bit unsigned arithmetic of the source.
-/

namespace G29Os

open BoundedLoop ByteRange

def kb4 : UInt32 := 4096

def block : UInt32 := 4096

def inodeBlocks : UInt32 := 1023

structure Image where
  mem : UInt32 → UInt8
  boot : UInt32

namespace Image

def word (image : Image) (address : UInt32) : UInt32 :=
  (image.mem address).toUInt32 ||| ((image.mem (address + 1)).toUInt32 <<< 8) |||
    ((image.mem (address + 2)).toUInt32 <<< 16) ||| ((image.mem (address + 3)).toUInt32 <<< 24)

def numDirectoryEntry (image : Image) : UInt32 := image.word image.boot

def numInodes (image : Image) : UInt32 := image.word (image.boot + 4)

/-- `data` as `setup_fs` leaves it: past the boot block and one block for each inode. -/
def data (image : Image) : UInt32 := image.boot + block + image.numInodes * block

/-- `&inodes[inode + 1]`, the inode table being indexed from the boot block. -/
def inodePtr (image : Image) (inode : UInt32) : UInt32 := image.boot + block * (inode + 1)

def inodeLength (image : Image) (inode : UInt32) : UInt32 := image.word (image.inodePtr inode)

/-- `inode_ptr->blocks[i]`, without the bounds check that C does not make either. -/
def inodeBlock (image : Image) (inode : UInt32) (i : Nat) : UInt32 :=
  image.word (image.inodePtr inode + 4 + 4 * UInt32.ofNat i)

/-- The byte `k` after `&data[number]`, which runs into the following blocks for `k` past 4095. -/
def dataByte (image : Image) (number : UInt32) (k : Nat) : UInt8 :=
  image.mem (image.data + kb4 * number + UInt32.ofNat k)

def fileByte (image : Image) (inode : UInt32) (k : Nat) : UInt8 :=
  image.dataByte (image.inodeBlock inode (k / 4096)) (k % 4096)

end Image

/-- The locals of `read_data`; `written` and `used` record what its `memcpy` calls did. -/
structure CopyState where
  i : Nat
  blockCount : Int
  offset : UInt32
  bytesToRead : UInt32
  bufStart : Nat
  buf : Nat → UInt8
  written : Nat
  used : List Nat

structure ReadResult where
  ret : UInt32
  buf : Nat → UInt8
  written : Nat
  used : List Nat

def memcpy (dest : Nat → UInt8) (at_ : Nat) (src : Nat → UInt8) (n : Nat) : Nat → UInt8 :=
  writeRange dest at_ n src

def skipStep (state : CopyState) : CopyState :=
  { state with
    i := state.i + 1
    blockCount := state.blockCount - 1
    offset := state.offset - block }

def skipBlocks (state : CopyState) : CopyState :=
  whileLoop (fun current => decide (current.offset > block)) skipStep state.offset.toNat state

def copyBlock (image : Image) (inode : UInt32) (state : CopyState) : CopyState :=
  let count := kb4 - state.offset
  { i := state.i + 1
    blockCount := state.blockCount - 1
    offset := 0
    bytesToRead := state.bytesToRead - count
    bufStart := state.bufStart + count.toNat
    buf := memcpy state.buf state.bufStart
      (fun k => image.dataByte (image.inodeBlock inode state.i) (state.offset.toNat + k)) count.toNat
    written := state.written + count.toNat
    used := state.used ++ [state.i] }

def copyTail (image : Image) (inode : UInt32) (state : CopyState) : CopyState :=
  { state with
    bytesToRead := 0
    buf := memcpy state.buf state.bufStart
      (fun k => image.dataByte (image.inodeBlock inode state.i) (state.offset.toNat + k))
      state.bytesToRead.toNat
    written := state.written + state.bytesToRead.toNat
    used := state.used ++ [state.i] }

def copyStep (image : Image) (inode : UInt32) (state : CopyState) : CopyState :=
  if state.blockCount > 0 then copyBlock image inode state else copyTail image inode state

/-- `while (bytes_to_read > 0)`. The tail clears `bytes_to_read`, so the loop makes at most
`block_count` full copies and one more. -/
def copyBlocks (image : Image) (inode : UInt32) (state : CopyState) : CopyState :=
  whileLoop (fun current => decide (current.bytesToRead > 0)) (copyStep image inode)
    (state.blockCount.toNat + 1) state

/-- `bytes_to_read` and `block_count` as `read_data` computes them before its loops. -/
def readPlan (fileLength offset length : UInt32) : UInt32 × UInt32 :=
  let length := if offset + length > fileLength then fileLength else length
  if offset + length > fileLength then (fileLength - offset, (fileLength - offset) / block)
  else (length, (offset + length) / kb4)

def readData (image : Image) (inode offset : UInt32) (buf : Nat → UInt8) (length : UInt32) :
    ReadResult :=
  let fileLength := image.inodeLength inode
  let lengthLeft := fileLength - offset
  if lengthLeft ≤ 0 then { ret := 0, buf := buf, written := 0, used := [] }
  else if fileLength > kb4 * inodeBlocks then { ret := -1, buf := buf, written := 0, used := [] }
  else
    let (bytesToRead, blockCount) := readPlan fileLength offset length
    let finish := copyBlocks image inode (skipBlocks
      { i := 0, blockCount := blockCount.toNat, offset := offset, bytesToRead := bytesToRead,
        bufStart := 0, buf := buf, written := 0, used := [] })
    { ret := bytesToRead, buf := finish.buf, written := finish.written, used := finish.used }

end G29Os
