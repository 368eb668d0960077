import Mathlib.Data.List.GetD
import Mathlib.Data.List.Range
import G29Os.CStrings
import G29Os.Kernel

/-!
`read_dentry_by_name` goes through all 63 slots and compares 31 bytes. It finds the first slot
that shares its first 31 characters with the name asked for, in use or not.
-/

namespace G29Os

theorem sameText_iff (first second : Nat → UInt8) (count index : Nat) :
    sameText first second count index = true ↔
      (cString count fun k => first (index + k)) = cString count fun k => second (index + k) := by
  induction count generalizing index with
  | zero => simp [sameText]
  | succ count ih =>
      have behind (buffer : Nat → UInt8) :
          (fun k => buffer (index + (k + 1))) = fun k => buffer (index + 1 + k) := by
        funext k
        congr 1
        omega
      rw [sameText, cString_succ, cString_succ, behind, behind, Nat.add_zero]
      by_cases agree : first index = second index
      · by_cases ends : second index = 0
        · simp [agree, ends]
        · simp [agree, ends, ih]
      · have differ : (first index == second index) = false := beq_eq_false_iff_ne.mpr agree
        simp only [differ, Bool.false_and, Bool.false_eq_true, false_iff]
        intro same
        split_ifs at same with left right
        · exact agree (left.trans right.symm)
        · exact agree (List.cons.inj same).1

theorem sameText_prefix {entry name text : Nat → UInt8} (count : Nat) {index : Nat}
    (agree : ∀ j < count, name (index + j) = text (index + j)) :
    sameText entry name count index = sameText entry text count index := by
  induction count generalizing index with
  | zero => rfl
  | succ count ih =>
      have first : name index = text index := agree 0 (Nat.zero_lt_succ count)
      have rest (j : Nat) (inside : j < count) : name (index + 1 + j) = text (index + 1 + j) := by
        rw [Nat.add_assoc, Nat.add_comm 1 j]
        exact agree (j + 1) (Nat.succ_lt_succ inside)
      rw [sameText, sameText, first, ih rest]

namespace Image

theorem readDentryByName_prefix {image : Image} {name text : Nat → UInt8}
    (agree : ∀ j < nameSize - 1, name j = text j) : image.readDentryByName name = image.readDentryByName text := by
  have same (entry : Dentry) : sameText entry.name name (nameSize - 1) 0 = sameText entry.name text (nameSize - 1) 0 := by
    refine sameText_prefix _ fun j inside => ?_
    rw [Nat.zero_add]
    exact agree j inside
  simp only [readDentryByName, same]

def slotEntry (image : Image) (slot : Nat) : Dentry := image.directoryEntry (UInt32.ofNat slot)

def slotName (image : Image) (slot : Nat) : List UInt8 := cString nameSize (image.slotEntry slot).name

def entryCount (image : Image) : Nat := image.numDirectoryEntry.toNat

structure NamedDirectory (image : Image) : Prop where
  fits : image.entryCount ≤ directoryEntries
  named : ∀ slot, slot < image.entryCount → image.slotName slot ≠ []
  padded : ∀ slot, slot < image.entryCount → ∀ k, (image.slotName slot).length ≤ k → k < nameSize →
    (image.slotEntry slot).name k = 0

def DistinctNames (image : Image) : Prop :=
  ∀ first second, first < image.entryCount → second < image.entryCount →
    image.slotName first = image.slotName second → first = second

instance (image : Image) : Decidable image.NamedDirectory :=
  decidable_of_iff
    (image.entryCount ≤ directoryEntries ∧
      (∀ slot, slot < image.entryCount → image.slotName slot ≠ []) ∧
      ∀ slot, slot < image.entryCount → ∀ k, k < nameSize → (image.slotName slot).length ≤ k →
        (image.slotEntry slot).name k = 0)
    ⟨fun ⟨fits, named, padded⟩ => ⟨fits, named, fun slot used k behind inside =>
        padded slot used k inside behind⟩,
      fun ⟨fits, named, padded⟩ => ⟨fits, named, fun slot used k inside behind =>
        padded slot used k behind inside⟩⟩

instance (image : Image) : Decidable image.DistinctNames :=
  decidable_of_iff
    (∀ first, first < image.entryCount → ∀ second, second < image.entryCount →
      image.slotName first = image.slotName second → first = second)
    ⟨fun distinct first second usedFirst usedSecond => distinct first usedFirst second usedSecond,
      fun distinct first usedFirst second usedSecond => distinct first second usedFirst usedSecond⟩

theorem slotName_take (image : Image) (slot : Nat) :
    (image.slotName slot).take (nameSize - 1) = cString (nameSize - 1) (image.slotEntry slot).name :=
  cString_take (Nat.sub_le nameSize 1) _

variable {image : Image} {fname : Nat → UInt8} {text : List UInt8} {dentry : Dentry} {slot : Nat}

/-- What the comparison makes of a slot: the first 31 characters of its name are those of `text`. -/
def SharesPrefix (image : Image) (text : List UInt8) (slot : Nat) : Prop :=
  (image.slotName slot).take (nameSize - 1) = text.take (nameSize - 1)

theorem sharesPrefix_iff (string : IsCString fname text) :
    sameText (image.slotEntry slot).name fname (nameSize - 1) 0 = true ↔ image.SharesPrefix text slot := by
  rw [sameText_iff, SharesPrefix, slotName_take, ← string.cString_take]
  simp only [Nat.zero_add]

theorem readDentryByName_some (string : IsCString fname text)
    (found : image.readDentryByName fname = some dentry) :
    ∃ slot, slot < directoryEntries ∧ image.slotEntry slot = dentry ∧ image.SharesPrefix text slot ∧
      ∀ earlier, earlier < slot → ¬image.SharesPrefix text earlier := by
  rw [readDentryByName, List.find?_map, Option.map_eq_some_iff] at found
  obtain ⟨slot, first, same⟩ := found
  obtain ⟨taken, listed, skipped⟩ := List.find?_range_eq_some.mp first
  refine ⟨slot, List.mem_range.mp listed, same, (sharesPrefix_iff string).mp taken, ?_⟩
  intro earlier before shares
  have refused := skipped earlier before
  have agrees := (sharesPrefix_iff string).mpr shares
  simp only [Function.comp_apply, Bool.not_eq_true'] at refused
  rw [slotEntry, refused] at agrees
  cases agrees

theorem readDentryByName_none (string : IsCString fname text)
    (missing : image.readDentryByName fname = none) (bound : slot < directoryEntries) :
    ¬image.SharesPrefix text slot := by
  intro shares
  rw [readDentryByName, List.find?_map, Option.map_eq_none_iff, List.find?_eq_none] at missing
  exact missing slot (List.mem_range.mpr bound) ((sharesPrefix_iff string).mpr shares)

structure SameFields (first second : Dentry) : Prop where
  name : ∀ k, k < nameSize → first.name k = second.name k
  type : first.type = second.type
  inode : first.inode = second.inode

/-- The look-up succeeds for the names of the slots in use, with their fields, and for no others. -/
structure ExactLookup (image : Image) (fname : Nat → UInt8) (text : List UInt8) : Prop where
  sound : ∀ dentry, image.readDentryByName fname = some dentry →
    ∃ slot, slot < image.entryCount ∧ image.slotName slot = text ∧
      SameFields dentry (image.slotEntry slot)
  complete : ∀ slot, slot < image.entryCount → image.slotName slot = text →
    (image.readDentryByName fname).isSome

def Unshadowed (image : Image) (text : List UInt8) : Prop :=
  ∀ slot, slot < directoryEntries → image.SharesPrefix text slot →
    ∃ owner, owner ≤ slot ∧ owner < image.entryCount ∧ image.slotName owner = text

theorem sharesPrefix_self (own : image.slotName slot = text) : image.SharesPrefix text slot := by
  rw [SharesPrefix, own]

theorem readDentryByName_complete (named : image.NamedDirectory) (string : IsCString fname text)
    (used : slot < image.entryCount) (own : image.slotName slot = text) :
    (image.readDentryByName fname).isSome := by
  rw [Option.isSome_iff_ne_none]
  intro missing
  exact readDentryByName_none string missing (Nat.lt_of_lt_of_le used named.fits) (sharesPrefix_self own)

theorem exactLookup_iff (named : image.NamedDirectory) (distinct : image.DistinctNames)
    (string : IsCString fname text) : image.ExactLookup fname text ↔ image.Unshadowed text := by
  constructor
  · intro exactly slot bound shares
    have present : (image.readDentryByName fname).isSome := by
      rw [Option.isSome_iff_ne_none]
      exact fun missing => readDentryByName_none string missing bound shares
    obtain ⟨dentry, found⟩ := Option.isSome_iff_exists.mp present
    obtain ⟨owner, used, own, fields⟩ := exactly.sound dentry found
    obtain ⟨first, -, same, -, skipped⟩ := readDentryByName_some string found
    have ownerLast : first ≤ owner := Nat.not_lt.mp fun before =>
      skipped owner before (sharesPrefix_self own)
    have sameName : image.slotName first = image.slotName owner := by
      rw [slotName, same]
      exact cString_congr fields.name
    -- the owner is in use, so the slot found, which is no later, is in use as well
    have ownFirst : first = owner := distinct first owner (Nat.lt_of_le_of_lt ownerLast used) used sameName
    refine ⟨owner, ?_, used, own⟩
    rw [← ownFirst]
    exact Nat.not_lt.mp fun before => skipped slot before shares
  · intro unshadowed
    refine ⟨?_, fun slot used own => readDentryByName_complete named string used own⟩
    intro dentry found
    obtain ⟨first, bound, rfl, shares, skipped⟩ := readDentryByName_some string found
    obtain ⟨owner, early, used, own⟩ := unshadowed first bound shares
    have ownFirst : owner = first := by
      apply Nat.le_antisymm early
      exact Nat.not_lt.mp fun before => skipped owner before (sharesPrefix_self own)
    subst ownFirst
    exact ⟨owner, used, own, fun k _ => rfl, rfl, rfl⟩

/-! ### The longest name in `fsdir` -/

def longName : List UInt8 := ascii "verylargetxtwithverylongname.txt".toList

def longNameWithMore : List UInt8 := longName ++ ascii ['t']

def longNameImage : Image where
  boot := 0
  mem address :=
    if address = 0 then 1
    else if address = 96 then 2
    else if 64 ≤ address ∧ address < 96 then longName.getD (address.toNat - 64) 0
    else 0

theorem nonzero_of_all {text : List UInt8} (checked : (text.all fun c => c != 0) = true) :
    ∀ c ∈ text, c ≠ 0 := by
  intro c listed
  exact bne_iff_ne.mp (List.all_eq_true.mp checked c listed)

theorem isCString_textOf {text : List UInt8} (nonzero : ∀ c ∈ text, c ≠ 0) :
    IsCString (textOf text) text where
  bytes _ bound := List.getD_eq_getElem _ _ bound
  nonzero := nonzero
  ends := List.getD_eq_default _ _ (Nat.le_refl _)

theorem longName_notExact : longNameImage.NamedDirectory ∧ longNameImage.DistinctNames ∧
    IsCString (textOf longNameWithMore) longNameWithMore ∧
    ¬longNameImage.ExactLookup (textOf longNameWithMore) longNameWithMore := by
  refine ⟨by decide +kernel, by decide +kernel, isCString_textOf (nonzero_of_all rfl), ?_⟩
  intro exactly
  have present : (longNameImage.readDentryByName (textOf longNameWithMore)).isSome := by decide +kernel
  obtain ⟨dentry, found⟩ := Option.isSome_iff_exists.mp present
  obtain ⟨slot, used, own, -⟩ := exactly.sound dentry found
  have count : longNameImage.entryCount = 1 := by decide +kernel
  obtain rfl : slot = 0 := by omega
  have different : longNameImage.slotName 0 ≠ longNameWithMore := by decide +kernel
  exact different own

theorem exactLookup_longName : longNameImage.ExactLookup (textOf longName) longName := by
  refine (exactLookup_iff (by decide +kernel) (by decide +kernel)
    (isCString_textOf (nonzero_of_all rfl))).mpr ?_
  intro slot bound _
  exact ⟨0, Nat.zero_le slot, by decide +kernel, by decide +kernel⟩

end Image

end G29Os
