import Mathlib.Data.List.GetD
import G29Os.ExecuteEffect
import G29Os.SwitchMemory

/-!
What a program that is entered was loaded from. `system_execute` looks at neither result of
`read_data`, so the file may end inside the header, be too long to be read at all, or be too long
for the page.
-/

namespace G29Os

open ByteRange PageTables StepRun

variable {image : Image} {inode : UInt32} {header : Nat → UInt8}

theorem readData_header (small : (image.inodeLength inode).toNat ≤ 4096 * 1023) (k : Nat) :
    (readData image inode 0 header elfSize).buf k =
      if k < 40 ∧ k < (image.inodeLength inode).toNat then image.fileByte inode k else header k := by
  have size : elfSize.toNat = 40 := rfl
  by_cases short : (image.inodeLength inode).toNat < 40
  · have bound : (k < 40 ∧ k < (image.inodeLength inode).toNat) ↔ k < (image.inodeLength inode).toNat := by
      omega
    simp only [bound]
    by_cases unread : 0 = image.inodeLength inode
    · have none := readData_atEnd image inode elfSize header
      rw [← unread] at none ⊢
      rw [none]
      exact (if_neg (Nat.not_lt_zero k)).symm
    · obtain ⟨-, -, filled, -⟩ := readData_closed image inode 0 elfSize header small unread
      have past := @readPlan_pastEnd (image.inodeLength inode) 0 elfSize small (Nat.zero_le _)
        (by rw [size]; exact short) (by decide)
      have none : ((image.inodeLength inode - 0) / block).toNat = 0 := by
        rw [UInt32.sub_zero, UInt32.toNat_div, Nat.div_eq_of_lt]
        exact Nat.lt_trans short (by decide)
      rw [filled, past]
      dsimp only
      rw [none, UInt32.sub_zero]
      split
      · rename_i inside
        have cell := @writeRange_inside _ header 0 (image.inodeLength inode).toNat
          (fun k => spanByte image inode (max (skipCount (0 : UInt32).toNat) 0) ((0 : UInt32).toNat + k))
          k inside
        rw [Nat.zero_add] at cell
        rw [cell]
        exact (spanByte_eq_fileByte image inode (by simp [skipCount]; omega)).trans (by simp)
      · rename_i outside
        exact writeRange_outside (by omega)
  · obtain ⟨-, -, filled, kept, -⟩ := readData_insideFile image inode 0 elfSize header small
      (by rw [size, UInt32.toNat_zero]; omega)
    split
    · rename_i inside
      rw [filled k inside.1, UInt32.toNat_zero, Nat.zero_add]
    · rename_i outside
      exact kept k (by rw [size]; omega)

namespace Kernel

theorem magic_iff : (List.range 4).map header = elfMagic ↔ ∀ k, k < 4 → header k = elfMagic.getD k 0 := by
  constructor
  · intro same k bound
    rw [← same, List.getD_eq_getElem _ _ (by simpa using bound), List.getElem_map, List.getElem_range]
  · intro each
    refine List.ext_getElem rfl fun k bound bound' => ?_
    rw [List.getElem_map, List.getElem_range, each k (by simpa using bound), List.getD_eq_getElem]

theorem findProgram_header {name : List UInt8} {dentry : Dentry} {entry : UInt32}
    (named : image.readDentryByName (textOf name) = some dentry)
    (found : findProgram image name header = some (dentry, entry)) :
    (∀ k, k < 4 → (readData image dentry.inode 0 header elfSize).buf k = elfMagic.getD k 0) ∧
      entry = entryPoint (readData image dentry.inode 0 header elfSize).buf := by
  simp only [findProgram, named] at found
  split at found
  · rename_i magic
    have same := (Prod.mk.inj (Option.some.inj found)).2
    exact ⟨magic_iff.mp magic, same.symm⟩
  · cases found

end Kernel

namespace Saved

open Kernel

variable {command name : List UInt8} {call : CallStack} {s next : Saved} {dentry : Dentry} {slot : Slot}
  {entry : UInt32}

/-- The whole call: no program has more bytes than `read_data` copies. -/
def execute (image : Image) (command : List UInt8) (call : CallStack) (s : Saved) :
    Option (Progress × Saved) := s.executeUntil image command call (4096 * 1023)

/-- The program that runs is the named file: its bytes 0 to 3 and 24 to 27 are its magic and entry,
all of it stands at `IMAGE_ADDR` in the page of its slot, and nothing else was written. -/
structure FullyLoaded (image : Image) (command : List UInt8) (s next : Saved) (dentry : Dentry)
    (slot : Slot) : Prop where
  named : image.readDentryByName (textOf (commandName command)) = some dentry
  header : 27 < (image.inodeLength dentry.inode).toNat
  magic : ∀ k, k < 4 → image.fileByte dentry.inode k = elfMagic.getD k 0
  entry : next.kernel.regs.eip = entryPoint (image.fileByte dentry.inode)
  front : next.kernel.foreground = some slot
  cr3 : next.kernel.cr3 = slot
  loaded : ∀ j, j < (image.inodeLength dentry.inode).toNat →
    ∃ address, next.kernel.paging.walk slot (imageAddr + j) = some address ∧
      frameOf slot ≤ address ∧ address < frameOf slot + mb4 ∧
      next.kernel.mem address = image.fileByte dentry.inode j
  written : ∀ address, next.kernel.mem address ≠ s.kernel.mem address →
    frameOf slot ≤ address ∧ address < frameOf slot + mb4

def NotElf (image : Image) (inode : UInt32) : Prop :=
  (image.inodeLength inode).toNat ≤ 4096 * 1023 ∧
    ∃ k, k < 4 ∧ k < (image.inodeLength inode).toNat ∧ image.fileByte inode k ≠ elfMagic.getD k 0

structure Fits (inode : UInt32) (image : Image) (k : Kernel) : Prop where
  header : 27 < (image.inodeLength inode).toNat
  page : imageOffset + (image.inodeLength inode).toNat ≤ mb4
  free : ∃ slot, k.pcbTrack slot = false

theorem Fits.small {k : Kernel} (fits : Fits inode image k) :
    (image.inodeLength inode).toNat ≤ 4096 * 1023 := by
  have page := fits.page
  simp only [imageOffset, mb4] at page
  omega

theorem NotElf.unknown (named : image.readDentryByName (textOf (commandName command)) = some dentry)
    (other : NotElf image dentry.inode) (fileHeader : Nat → UInt8) :
    findProgram image (commandName command) fileHeader = none := by
  obtain ⟨small, k, bound, inside, differs⟩ := other
  have refused : ¬(List.range 4).map (readData image dentry.inode 0 fileHeader elfSize).buf = elfMagic := by
    intro same
    refine differs ?_
    have own := magic_iff.mp same k bound
    rwa [readData_header small, if_pos ⟨by omega, inside⟩] at own
  simp only [findProgram, named, if_neg refused]

theorem FullyLoaded.fits (loaded : FullyLoaded image command s next dentry slot)
    (mapped : KernelMapped next.kernel.paging) :
    imageOffset + (image.inodeLength dentry.inode).toNat ≤ mb4 := by
  by_contra beyond
  have place : imageAddr + (mb4 - imageOffset) = mb128 + mb4 := by decide
  have inside : mb4 - imageOffset < (image.inodeLength dentry.inode).toNat := by
    simp only [imageOffset, mb4] at beyond ⊢
    omega
  obtain ⟨address, walked, -⟩ := loaded.loaded (mb4 - imageOffset) inside
  rw [place, walk_beyond mapped (Nat.le_refl _) (by decide)] at walked
  cases walked

end Saved

end G29Os
