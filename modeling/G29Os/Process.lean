import G29Os.Directory
import G29Os.Paging
import G29Os.Terminal

/-! Process control blocks, their descriptor tables (`tasks.h`) and the calls on them. -/

namespace G29Os

inductive Fops where
  | terminal
  | rtc
  | file
  deriving DecidableEq

def maxFd : Nat := 8

def fdBegin : Nat := 2

/-- A descriptor; `inodePtr` is an address and 0 is `NULL`, `flags` is in use or not. -/
structure Fd where
  fopsPtr : Option Fops
  inodePtr : UInt32
  filePosition : UInt32
  flags : Bool
  deriving DecidableEq

abbrev FileArray := Fin 8 → Fd

/-- Pointers to PCBs are slots, since every PCB is the lowest bytes of its slot's 8 KB of stack. -/
structure Pcb where
  pid : Slot
  args : Nat → UInt8
  name : Nat → UInt8
  fileArray : FileArray
  physicalAddr : Nat
  parentPtr : Option Slot

namespace Fd

def closed : Fd := { fopsPtr := none, inodePtr := 0, filePosition := 0, flags := false }

def console : Fd := { fopsPtr := some .terminal, inodePtr := 0, filePosition := 0, flags := true }

end Fd

def newPcbInit (stale : Pcb) : Pcb :=
  { stale with
    fileArray := fun fd => if fd.val < fdBegin then Fd.console else Fd.closed
    parentPtr := none }

namespace FileArray

def set (fd : Fin 8) (entry : Fd) (files : FileArray) : FileArray := Function.update files fd entry

def firstFree (files : FileArray) : Option (Fin 8) :=
  (List.finRange 8).find? fun fd => decide (fdBegin ≤ fd.val) && !(files fd).flags

def inUse (files : FileArray) (first : Nat) (fd : Int) : Option (Fin 8) :=
  if bound : (first : Int) ≤ fd ∧ fd ≤ 7 then
    let index : Fin 8 := ⟨fd.toNat, by omega⟩
    if (files index).flags then some index else none
  else none

theorem inUse_flags {files : FileArray} {first : Nat} {fd : Int} {index : Fin 8}
    (found : files.inUse first fd = some index) : (files index).flags = true := by
  rw [inUse] at found
  split at found
  · dsimp only at found
    split at found
    · rename_i used
      cases found
      exact used
    · cases found
  · cases found

def close (fd : Fin 8) (files : FileArray) : FileArray := files.set fd Fd.closed

end FileArray

/-- What `fs_read` does to the descriptor it finds: the bytes it stores in the buffer, the
descriptor it leaves and its result. -/
structure FsRead where
  bytes : List UInt8
  entry : Fd
  ret : Int

def asInt32 (value : UInt32) : Int := value.toInt32.toInt

def fsRead (image : Image) (nbytes : Int) (entry : Fd) : FsRead :=
  if entry.inodePtr = 0 then
    let (bytes, position, count) := readDir image entry.filePosition
    { bytes := bytes, entry := { entry with filePosition := position }, ret := asInt32 count }
  else if entry.filePosition ≥ image.word entry.inodePtr then { bytes := [], entry := entry, ret := 0 }
  else
    let inodeNum := (entry.inodePtr - image.boot) / block - 1
    let result := readData image inodeNum entry.filePosition (fun _ => 0)
      (UInt32.ofNat (nbytes % 4294967296).toNat)
    let bytes := (List.range result.written).map result.buf
    if result.ret = -1 then { bytes := bytes, entry := entry, ret := 0 }
    else
      { bytes := bytes
        entry := { entry with filePosition := entry.filePosition + result.ret }
        ret := asInt32 result.ret }

end G29Os
