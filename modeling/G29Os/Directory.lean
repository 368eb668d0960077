import G29Os.Console
import G29Os.ReadDataCore

/-! The directory of the boot block and the look-ups of `fs.c`. -/

namespace G29Os

def directoryEntries : Nat := 63

def nameSize : Nat := 32

def dentrySize : Nat := 64

/-- A `dentry_t` as the directory has it. `name` goes on into the fields behind it and then into the
next entry, as a C string without a NUL among its 32 bytes would. -/
structure Dentry where
  name : Nat → UInt8
  type : UInt32
  inode : UInt32

/-- The `strcpy` of the reserved bytes, 40 to 63, comes to a NUL before it has stored more than `room`
bytes behind the dentry that it fills. -/
def Dentry.Contained (room : Nat) (dentry : Dentry) : Prop :=
  ∃ k, k < dentrySize + room ∧ 40 ≤ k ∧ dentry.name k = 0

instance (room : Nat) (dentry : Dentry) : Decidable (dentry.Contained room) :=
  inferInstanceAs (Decidable (∃ k, k < _ ∧ _))

def sameText (s1 s2 : Nat → UInt8) : Nat → Nat → Bool
  | 0, _ => true
  | n + 1, i => s1 i == s2 i && (s1 i == 0 || sameText s1 s2 n (i + 1))

namespace Image

def directoryEntry (image : Image) (index : UInt32) : Dentry :=
  let address := image.boot + 64 + 64 * index
  { name := fun k => image.mem (address + UInt32.ofNat k)
    type := image.word (address + 32)
    inode := image.word (address + 36) }

/-- The entry that `read_dentry_by_name` copies to its caller; `Dentry.Contained` tells what becomes of
the bytes behind the copy. -/
def readDentryByName (image : Image) (fname : Nat → UInt8) : Option Dentry :=
  ((List.range directoryEntries).map fun i => image.directoryEntry (UInt32.ofNat i)).find? fun entry =>
    sameText entry.name fname (nameSize - 1) 0

def readDentryByIndex (image : Image) (index : UInt32) : Option Dentry :=
  if index ≥ image.numInodes then none else some (image.directoryEntry index)

end Image

/-- Bytes from the end of the dentry of `read_dir` to the `%ebp` that it saved. -/
def readDirRoom : Nat := 8

def readDirContained (image : Image) (position : UInt32) : Prop :=
  position < image.numDirectoryEntry →
    ∀ entry ∈ image.readDentryByIndex position, entry.Contained readDirRoom

instance (image : Image) (position : UInt32) : Decidable (readDirContained image position) := by
  unfold readDirContained
  infer_instance

/-- The bytes for the buffer, the new position and the result, where the copy of the entry is
contained. -/
def readDir (image : Image) (position : UInt32) : List UInt8 × UInt32 × UInt32 :=
  if position ≥ image.numDirectoryEntry then (List.replicate nameSize 0, position, 0)
  else
    match image.readDentryByIndex position with
    | some entry =>
        let text := cString nameSize entry.name
        (text ++ List.replicate (nameSize - text.length) 0, position + 1,
          UInt32.ofNat (cString 64 entry.name).length)
    | none => ([], position, 0)

end G29Os
