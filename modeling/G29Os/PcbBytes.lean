import G29Os.KernelStack
import G29Os.StrayWrites

/-!
A `pcb_t` as the 396 bytes at the bottom of a slot's block of kernel stacks, and what the kernel takes
it for after others have written there.
-/

namespace G29Os

open Kernel

def byteAt (value j : Nat) : UInt8 := UInt8.ofNat (value / 256 ^ j)

def wordFrom (byte : Nat → UInt8) : Nat :=
  (byte 0).toNat + 256 * (byte 1).toNat + 65536 * (byte 2).toNat + 16777216 * (byte 3).toNat

theorem wordFrom_byteAt {value : Nat} (bound : value < 4294967296) : wordFrom (byteAt value) = value := by
  simp only [wordFrom, byteAt, UInt8.toNat_ofNat']
  omega

theorem wordFrom_congr {byte other : Nat → UInt8} (same : ∀ j < 4, byte j = other j) :
    wordFrom byte = wordFrom other := by
  simp only [wordFrom, same 0 (by decide), same 1 (by decide), same 2 (by decide), same 3 (by decide)]

/-- Where the linker put the tables of file operations. -/
structure FopsTable where
  address : Fops → Nat
  positive : ∀ fops, 0 < address fops
  bound : ∀ fops, address fops < 4294967296
  injective : Function.Injective address

namespace FopsTable

def sample : FopsTable where
  address
    | .terminal => 0x40A000
    | .rtc => 0x40A010
    | .file => 0x40A020
  positive fops := by cases fops <;> decide
  bound fops := by cases fops <;> decide
  injective fops other same := by cases fops <;> cases other <;> first | rfl | exact absurd same (by decide)

variable (table : FopsTable)

def word : Option Fops → Nat
  | none => 0
  | some fops => table.address fops

def find (word : Nat) : Option (Option Fops) :=
  if word = 0 then some none
  else ([Fops.terminal, .rtc, .file].find? fun fops => decide (table.address fops = word)).map some

end FopsTable

def slotOf (word : Nat) : Option Slot := if bound : word < 6 then some ⟨word, bound⟩ else none

def parentWord : Option Slot → Nat
  | none => 0
  | some slot => pcbAddr slot

def parentOf (word : Nat) : Option (Option Slot) :=
  if word = 0 then some none
  else ((List.finRange 6).find? fun slot => decide (pcbAddr slot = word)).map some

theorem pcbAddr_bounds (slot : Slot) : 0 < pcbAddr slot ∧ pcbAddr slot < kernelMemEnd := by
  simp only [pcbAddr, kernelMemEnd, stackSize]
  omega

theorem pcbAddr_injective : Function.Injective pcbAddr := by
  intro slot other same
  simp only [pcbAddr, kernelMemEnd, stackSize] at same
  exact Fin.ext (by omega)

def argsAt : Nat := 4

def nameAt : Nat := 132

def fileArrayAt : Nat := 260

def fdSize : Nat := 16

def physicalAddrAt : Nat := 388

def parentAt : Nat := 392

def fdByte (table : FopsTable) (entry : Fd) (j : Nat) : UInt8 :=
  if j < 4 then byteAt (table.word entry.fopsPtr) j
  else if j < 8 then byteAt entry.inodePtr.toNat (j - 4)
  else if j < 12 then byteAt entry.filePosition.toNat (j - 8)
  else byteAt entry.flags.toNat (j - 12)

def fileByte (table : FopsTable) (files : FileArray) (j : Nat) : UInt8 :=
  fdByte table (files (Fin.ofNat 8 (j / fdSize))) (j % fdSize)

/-- The bytes that the fields of the PCB are in memory. -/
def pcbByte (table : FopsTable) (pcb : Pcb) (j : Nat) : UInt8 :=
  if j < argsAt then byteAt pcb.pid j
  else if j < nameAt then pcb.args (j - argsAt)
  else if j < fileArrayAt then pcb.name (j - nameAt)
  else if j < physicalAddrAt then fileByte table pcb.fileArray (j - fileArrayAt)
  else if j < parentAt then byteAt pcb.physicalAddr (j - physicalAddrAt)
  else byteAt (parentWord pcb.parentPtr) (j - parentAt)

/-! ### Reading back -/

def spoilt (stray : Nat → Option UInt8) (offset count : Nat) : Bool :=
  (List.range count).any fun j => (stray (offset + j)).isSome

/-- A word that others wrote to, as `read` makes it out. What it cannot make out stays, and no step that
looks at it is followed. -/
def rereadWord {α : Type} (byte : Nat → UInt8) (stray : Nat → Option UInt8) (offset : Nat)
    (read : Nat → Option α) (old : α) : α :=
  if spoilt stray offset 4 then (read (wordFrom fun j => byte (offset + j))).getD old else old

def rereadFd (table : FopsTable) (byte : Nat → UInt8) (stray : Nat → Option UInt8) (offset : Nat) (old : Fd) :
    Fd where
  fopsPtr := rereadWord byte stray offset table.find old.fopsPtr
  inodePtr := rereadWord byte stray (offset + 4) (fun word => some (UInt32.ofNat word)) old.inodePtr
  filePosition := rereadWord byte stray (offset + 8) (fun word => some (UInt32.ofNat word)) old.filePosition
  flags := rereadWord byte stray (offset + 12) (fun word => some (decide (word ≠ 0))) old.flags

def rereadText (stray : Nat → Option UInt8) (offset : Nat) (old : Nat → UInt8) : Nat → UInt8 :=
  fun k => if k < lineBuffer then (stray (offset + k)).getD (old k) else old k

def rereadPcb (table : FopsTable) (stray : Nat → Option UInt8) (old : Pcb) : Pcb :=
  let byte j := (stray j).getD (pcbByte table old j)
  { pid := rereadWord byte stray 0 slotOf old.pid
    args := rereadText stray argsAt old.args
    name := rereadText stray nameAt old.name
    fileArray := fun fd => rereadFd table byte stray (fileArrayAt + fdSize * fd.val) (old.fileArray fd)
    physicalAddr := rereadWord byte stray physicalAddrAt some old.physicalAddr
    parentPtr := rereadWord byte stray parentAt parentOf old.parentPtr }

section Rereading

variable {table : FopsTable} {stray : Nat → Option UInt8} {byte : Nat → UInt8} {old : Pcb} {offset : Nat}

theorem spoilt_false {count : Nat} (clean : ∀ j < count, stray (offset + j) = none) :
    spoilt stray offset count = false := by
  rw [spoilt, List.any_eq_false]
  intro j listed
  rw [clean j (List.mem_range.mp listed)]
  exact Bool.false_ne_true

theorem rereadWord_clean {α : Type} {read : Nat → Option α} {old : α} (clean : ∀ j < 4, stray (offset + j) = none) :
    rereadWord byte stray offset read old = old := by
  rw [rereadWord, spoilt_false clean, if_neg Bool.false_ne_true]

theorem rereadText_clean {old : Nat → UInt8} {k : Nat} (clean : stray (offset + k) = none) :
    rereadText stray offset old k = old k := by
  rw [rereadText, clean, Option.getD_none, ite_self]

theorem rereadPcb_pid (clean : ∀ j < 4, stray j = none) : (rereadPcb table stray old).pid = old.pid := by
  simp only [rereadPcb]
  refine rereadWord_clean fun j inside => ?_
  rw [Nat.zero_add]
  exact clean j inside

theorem rereadPcb_none : rereadPcb table (fun _ => none) old = old := by
  have word {α : Type} (byte : Nat → UInt8) (offset : Nat) (read : Nat → Option α) (old : α) :
      rereadWord byte (fun _ => none) offset read old = old := rereadWord_clean fun _ _ => rfl
  have text (offset : Nat) (old : Nat → UInt8) : rereadText (fun _ => none) offset old = old :=
    funext fun k => rereadText_clean rfl
  simp only [rereadPcb, rereadFd, word, text]

theorem rereadWord_written {α : Type} {read : Nat → Option α} {old value : α} {word : Nat} (bound : word < 4294967296)
    (found : read word = some value) (written : ∀ j < 4, stray (offset + j) = some (byteAt word j))
    (shows : ∀ j < 4, byte (offset + j) = byteAt word j) : rereadWord byte stray offset read old = value := by
  have touched : spoilt stray offset 4 = true := by
    rw [spoilt, List.any_eq_true]
    refine ⟨0, by decide, ?_⟩
    rw [written 0 (by decide)]
    rfl
  rw [rereadWord, touched, if_pos rfl, wordFrom_congr shows, wordFrom_byteAt bound, found]
  rfl

end Rereading

theorem slotOf_pid (slot : Slot) : slotOf slot.val = some slot := dif_pos slot.isLt

theorem parentOf_word (parent : Option Slot) : parentOf (parentWord parent) = some parent := by
  cases parent with
  | none => rfl
  | some slot =>
      revert slot
      decide

theorem FopsTable.find_word (table : FopsTable) (fops : Option Fops) : table.find (table.word fops) = some fops := by
  cases fops with
  | none => exact if_pos rfl
  | some fops =>
      have nonzero : table.address fops ≠ 0 := Nat.pos_iff_ne_zero.mp (table.positive fops)
      rw [FopsTable.word, FopsTable.find, if_neg nonzero]
      cases fops <;> simp [table.injective.eq_iff]

section Fields

variable {table : FopsTable} {pcb stored old : Pcb} {stray : Nat → Option UInt8} {j : Nat}

theorem pcbByte_pid (inside : j < 4) : pcbByte table pcb (0 + j) = byteAt pcb.pid j := by
  rw [Nat.zero_add]
  exact if_pos inside

theorem pcbByte_args (inside : j < lineBuffer) : pcbByte table pcb (argsAt + j) = pcb.args j := by
  simp only [lineBuffer] at inside
  rw [pcbByte, if_neg (by omega), if_pos (by simp only [argsAt, nameAt]; omega), Nat.add_sub_cancel_left]

theorem pcbByte_name (inside : j < lineBuffer) : pcbByte table pcb (nameAt + j) = pcb.name j := by
  simp only [lineBuffer] at inside
  rw [pcbByte, if_neg (by simp only [nameAt, argsAt]; omega), if_neg (by omega),
    if_pos (by simp only [nameAt, fileArrayAt]; omega), Nat.add_sub_cancel_left]

theorem pcbByte_fd (fd : Fin 8) (inside : j < fdSize) :
    pcbByte table pcb (fileArrayAt + fdSize * fd.val + j) = fdByte table (pcb.fileArray fd) j := by
  have slot := fd.isLt
  simp only [fdSize] at inside
  have place : fileArrayAt + fdSize * fd.val + j - fileArrayAt = fdSize * fd.val + j := by omega
  have index : (fdSize * fd.val + j) / fdSize = fd.val := by
    simp only [fdSize]
    omega
  have within : (fdSize * fd.val + j) % fdSize = j := by
    simp only [fdSize]
    omega
  have there : (Fin.ofNat 8 fd.val) = fd := Fin.ext (Nat.mod_eq_of_lt slot)
  rw [pcbByte, if_neg (by simp only [fileArrayAt, fdSize, argsAt]; omega),
    if_neg (by simp only [fileArrayAt, fdSize, nameAt]; omega), if_neg (by omega),
    if_pos (by simp only [fileArrayAt, fdSize, physicalAddrAt]; omega), place, fileByte, index, within, there]

theorem pcbByte_physicalAddr (inside : j < 4) :
    pcbByte table pcb (physicalAddrAt + j) = byteAt pcb.physicalAddr j := by
  rw [pcbByte, if_neg (by simp only [physicalAddrAt, argsAt]; omega),
    if_neg (by simp only [physicalAddrAt, nameAt]; omega),
    if_neg (by simp only [physicalAddrAt, fileArrayAt]; omega), if_neg (by omega),
    if_pos (by simp only [physicalAddrAt, parentAt]; omega), Nat.add_sub_cancel_left]

theorem pcbByte_parent : pcbByte table pcb (parentAt + j) = byteAt (parentWord pcb.parentPtr) j := by
  rw [pcbByte, if_neg (by simp only [parentAt, argsAt]; omega), if_neg (by simp only [parentAt, nameAt]; omega),
    if_neg (by simp only [parentAt, fileArrayAt]; omega),
    if_neg (by simp only [parentAt, physicalAddrAt]; omega), if_neg (by omega), Nat.add_sub_cancel_left]

theorem pcbByte_files {files : FileArray} (outside : j < fileArrayAt ∨ physicalAddrAt ≤ j) :
    pcbByte table { pcb with fileArray := files } j = pcbByte table pcb j := by
  simp only [pcbByte]
  rcases outside with before | behind
  · simp only [if_pos before]
  · simp only [if_neg (Nat.not_lt_of_le behind)]

theorem fdByte_word {entry : Fd} (inside : j < 4) :
    fdByte table entry j = byteAt (table.word entry.fopsPtr) j ∧
      fdByte table entry (4 + j) = byteAt entry.inodePtr.toNat j ∧
      fdByte table entry (8 + j) = byteAt entry.filePosition.toNat j ∧
      fdByte table entry (12 + j) = byteAt entry.flags.toNat j := by
  refine ⟨if_pos inside, ?_, ?_, ?_⟩
  · rw [fdByte, if_neg (by omega), if_pos (by omega), Nat.add_sub_cancel_left]
  · rw [fdByte, if_neg (by omega), if_neg (by omega), if_pos (by omega), Nat.add_sub_cancel_left]
  · rw [fdByte, if_neg (by omega), if_neg (by omega), if_neg (by omega), Nat.add_sub_cancel_left]

theorem parentWord_bound (parent : Option Slot) : parentWord parent < 4294967296 := by
  cases parent with
  | none => decide
  | some slot => exact Nat.lt_trans (pcbAddr_bounds slot).2 (by decide)

theorem FopsTable.word_bound (fops : Option Fops) : table.word fops < 4294967296 := by
  cases fops with
  | none => exact (by decide : 0 < 4294967296)
  | some fops => exact table.bound fops

theorem rereadPcb_written (bound : stored.physicalAddr < 4294967296)
    (written : ∀ j < pcbSize, stray j = some (pcbByte table stored j)) :
    rereadPcb table stray old = { stored with
      args := fun k => if k < lineBuffer then stored.args k else old.args k
      name := fun k => if k < lineBuffer then stored.name k else old.name k } := by
  have shows (j : Nat) (inside : j < pcbSize) : (stray j).getD (pcbByte table old j) = pcbByte table stored j := by
    rw [written j inside]
    rfl
  have word {α : Type} (read : Nat → Option α) (kept : α) {value : α} {offset word : Nat} (fits : offset + 4 ≤ pcbSize)
      (small : word < 4294967296) (found : read word = some value)
      (bytes : ∀ j < 4, pcbByte table stored (offset + j) = byteAt word j) :
      rereadWord (fun j => (stray j).getD (pcbByte table old j)) stray offset read kept = value := by
    refine rereadWord_written small found (fun j inside => ?_) fun j inside => ?_
    · rw [written _ (by omega), bytes j inside]
    · rw [shows _ (by omega), bytes j inside]
  have fd (index : Fin 8) (at_ : Nat) (first : at_ + 4 ≤ fdSize) (j : Nat) (inside : j < 4) :
      pcbByte table stored (fileArrayAt + fdSize * index.val + at_ + j) =
        fdByte table (stored.fileArray index) (at_ + j) := by
    rw [Nat.add_assoc]
    exact pcbByte_fd index (by omega)
  have room (index : Fin 8) (at_ : Nat) (first : at_ + 4 ≤ fdSize) :
      fileArrayAt + fdSize * index.val + at_ + 4 ≤ pcbSize := by
    have slot := index.isLt
    simp only [fileArrayAt, fdSize, pcbSize] at first ⊢
    omega
  have entry (index : Fin 8) : rereadFd table (fun j => (stray j).getD (pcbByte table old j)) stray
      (fileArrayAt + fdSize * index.val) (old.fileArray index) = stored.fileArray index := by
    have fops := word table.find (old.fileArray index).fopsPtr (room index 0 (by decide)) (table.word_bound _)
      (table.find_word _) fun j inside => (fd index 0 (by decide) j inside).trans
        ((congrArg (fdByte table _) (Nat.zero_add j)).trans (fdByte_word inside).1)
    have number (read : UInt32) : some (UInt32.ofNat read.toNat) = some read := congrArg some UInt32.ofNat_toNat
    have inode := word (fun word => some (UInt32.ofNat word)) (old.fileArray index).inodePtr
      (room index 4 (by decide)) (UInt32.toNat_lt _) (number _)
      fun j inside => (fd index 4 (by decide) j inside).trans (fdByte_word inside).2.1
    have position := word (fun word => some (UInt32.ofNat word)) (old.fileArray index).filePosition
      (room index 8 (by decide)) (UInt32.toNat_lt _) (number _)
      fun j inside => (fd index 8 (by decide) j inside).trans (fdByte_word inside).2.2.1
    have used (flag : Bool) : some (decide (flag.toNat ≠ 0)) = some flag := by cases flag <;> rfl
    have flags := word (fun word => some (decide (word ≠ 0))) (old.fileArray index).flags
      (room index 12 (by decide)) (Nat.lt_of_le_of_lt (Bool.toNat_le _) (by decide)) (used _)
      fun j inside => (fd index 12 (by decide) j inside).trans (fdByte_word inside).2.2.2
    rw [rereadFd, fops, inode, position, flags]
  have pid := word slotOf old.pid (by decide) (by omega) (slotOf_pid stored.pid) fun j inside => pcbByte_pid inside
  have physical := word some old.physicalAddr (by decide) bound rfl fun j inside => pcbByte_physicalAddr inside
  have parent := word parentOf old.parentPtr (by decide) (parentWord_bound _) (parentOf_word stored.parentPtr)
    fun j inside => pcbByte_parent
  have args : rereadText stray argsAt old.args = fun k => if k < lineBuffer then stored.args k else old.args k := by
    funext k
    rw [rereadText]
    split
    · rename_i inside
      rw [written _ (by simp only [argsAt, pcbSize, lineBuffer] at *; omega), pcbByte_args inside]
      rfl
    · rfl
  have name : rereadText stray nameAt old.name = fun k => if k < lineBuffer then stored.name k else old.name k := by
    funext k
    rw [rereadText]
    split
    · rename_i inside
      rw [written _ (by simp only [nameAt, pcbSize, lineBuffer] at *; omega), pcbByte_name inside]
      rfl
    · rfl
  simp only [rereadPcb, entry, pid, physical, parent, args, name]

end Fields

end G29Os
