import G29Os.DirectoryLookup

/-!
`read_dentry_by_name` and `read_dentry_by_index` byte by byte, with a record of what they touch:
the comparison with the names, the whole-struct copy and the field copies behind it.
-/

namespace G29Os

/-- Memory with the bytes looked at to find an entry, and those read and written to copy it. -/
structure Access where
  image : Image
  looked : List UInt32
  reads : List UInt32
  writes : List UInt32

def Image.entryAddress (image : Image) (index : UInt32) : UInt32 := image.boot + 64 + 64 * index

namespace Access

def start (image : Image) : Access := { image := image, looked := [], reads := [], writes := [] }

def look (address : UInt32) (access : Access) : Access :=
  { access with looked := address :: access.looked }

def copyByte (dest src : UInt32) (access : Access) : Access :=
  { access with
    image := { access.image with
      mem := Function.update access.image.mem dest (access.image.mem src) }
    reads := src :: access.reads
    writes := dest :: access.writes }

def copyBytes : Nat → UInt32 → UInt32 → Access → Access
  | 0, _, _, access => access
  | n + 1, dest, src, access => copyBytes n (dest + 1) (src + 1) (access.copyByte dest src)

/-- `strcpy` on a budget of bytes; `none` is a run that has not come to a NUL on it. -/
def strcpy : Nat → UInt32 → UInt32 → Access → Option Access
  | 0, _, _, _ => none
  | fuel + 1, dest, src, access =>
      if access.image.mem src = 0 then some (access.copyByte dest src)
      else strcpy fuel (dest + 1) (src + 1) (access.copyByte dest src)

def fillDentry (fuel : Nat) (dentry entry : UInt32) (access : Access) : Option Access :=
  (strcpy fuel dentry entry (copyBytes dentrySize dentry entry access)).bind fun named =>
    strcpy fuel (dentry + UInt32.ofNat 40) (entry + UInt32.ofNat 40)
      (copyBytes 4 (dentry + UInt32.ofNat 36) (entry + UInt32.ofNat 36)
        (copyBytes 4 (dentry + UInt32.ofNat 32) (entry + UInt32.ofNat 32) named))

def strncmp (s1 : UInt32) (fname : Nat → UInt8) : Nat → Nat → Access → Bool × Access
  | 0, _, access => (true, access)
  | n + 1, i, access =>
      let c := access.image.mem (s1 + UInt32.ofNat i)
      let seen := access.look (s1 + UInt32.ofNat i)
      if c ≠ fname i ∨ c = 0 then (c == fname i, seen) else strncmp s1 fname n (i + 1) seen

def findName (fname : Nat → UInt8) : Nat → Nat → Access → Option Nat × Access
  | 0, _, access => (none, access)
  | count + 1, i, access =>
      let compared :=
        strncmp (access.image.entryAddress (UInt32.ofNat i)) fname (nameSize - 1) 0 access
      if compared.1 then (some i, compared.2) else findName fname count (i + 1) compared.2

def readDentryByName (fuel : Nat) (fname : Nat → UInt8) (dentry : UInt32) (access : Access) :
    Option (Int × Access) :=
  let found := findName fname directoryEntries 0 access
  match found.1 with
  | some i =>
      (fillDentry fuel dentry (found.2.image.entryAddress (UInt32.ofNat i)) found.2).map fun filled =>
        (0, filled)
  | none => some (-1, found.2)

def readDentryByIndex (fuel : Nat) (index dentry : UInt32) (access : Access) :
    Option (Int × Access) :=
  let seen := (List.range 4).foldl (fun seen k => seen.look (seen.image.boot + 4 + UInt32.ofNat k)) access
  if index ≥ seen.image.numInodes then some (-1, seen)
  else (fillDentry fuel dentry (seen.image.entryAddress index) seen).map fun filled => (0, filled)

/-! ### What the search looks at -/

variable {access after : Access} {image : Image} {fname : Nat → UInt8} {dentry entry : UInt32}
  {fuel done j n : Nat}

theorem strncmp_spec (s1 : UInt32) (count i : Nat) :
    (strncmp s1 fname count i access).1 =
        sameText (fun k => access.image.mem (s1 + UInt32.ofNat k)) fname count i ∧
      ∃ looked, (strncmp s1 fname count i access).2 = { access with looked := looked } ∧
        ∀ address ∈ looked, address ∈ access.looked ∨
          ∃ k, k < i + count ∧ address = s1 + UInt32.ofNat k := by
  induction count generalizing i access with
  | zero => exact ⟨rfl, access.looked, rfl, fun _ listed => Or.inl listed⟩
  | succ count ih =>
      have listedHere (address : UInt32) (listed : address ∈ (access.look (s1 + UInt32.ofNat i)).looked) :
          address ∈ access.looked ∨ ∃ k, k < i + (count + 1) ∧ address = s1 + UInt32.ofNat k := by
        rcases List.mem_cons.mp listed with here | before
        · exact Or.inr ⟨i, by omega, here⟩
        · exact Or.inl before
      rw [strncmp, sameText]
      split
      · rename_i stops
        refine ⟨?_, _, rfl, listedHere⟩
        by_cases same : access.image.mem (s1 + UInt32.ofNat i) = fname i
        · have ends : access.image.mem (s1 + UInt32.ofNat i) = 0 := stops.resolve_left (not_not.mpr same)
          simp [ends]
        · simp [same]
      · rename_i goes
        obtain ⟨result, looked, kept, bounded⟩ := @ih (access.look (s1 + UInt32.ofNat i)) (i + 1)
        refine ⟨?_, looked, kept, ?_⟩
        · obtain ⟨same, more⟩ := not_or.mp goes
          have equal := not_not.mp same
          rw [result]
          simp [equal, equal ▸ more, look]
        · intro address listed
          rcases bounded address listed with before | ⟨k, inside, here⟩
          · exact listedHere address before
          · exact Or.inr ⟨k, by omega, here⟩

def sameName (image : Image) (fname : Nat → UInt8) (i : Nat) : Bool :=
  sameText (image.directoryEntry (UInt32.ofNat i)).name fname (nameSize - 1) 0

theorem findName_spec (count i : Nat) :
    (findName fname count i access).1 = (List.range' i count).find? (sameName access.image fname) ∧
      ∃ looked, (findName fname count i access).2 = { access with looked := looked } ∧
        ∀ address ∈ looked, address ∈ access.looked ∨ ∃ slot k, slot < i + count ∧ k < nameSize ∧
          address = access.image.entryAddress (UInt32.ofNat slot) + UInt32.ofNat k := by
  induction count generalizing i access with
  | zero => exact ⟨rfl, access.looked, rfl, fun _ listed => Or.inl listed⟩
  | succ count ih =>
      obtain ⟨result, looked, kept, bounded⟩ := @strncmp_spec access fname
        (access.image.entryAddress (UInt32.ofNat i)) (nameSize - 1) 0
      have listedHere (address : UInt32) (listed : address ∈ looked) : address ∈ access.looked ∨
          ∃ slot k, slot < i + (count + 1) ∧ k < nameSize ∧
            address = access.image.entryAddress (UInt32.ofNat slot) + UInt32.ofNat k := by
        rcases bounded address listed with before | ⟨k, inside, here⟩
        · exact Or.inl before
        · exact Or.inr ⟨i, k, by omega, by simp only [nameSize] at inside ⊢; omega, here⟩
      rw [findName, List.range'_succ, List.find?_cons, kept, result]
      have same : sameText (fun k => access.image.mem
          (access.image.entryAddress (UInt32.ofNat i) + UInt32.ofNat k)) fname (nameSize - 1) 0 =
        sameName access.image fname i := rfl
      rw [same]
      cases sameName access.image fname i with
      | true => exact ⟨rfl, looked, rfl, listedHere⟩
      | false =>
          obtain ⟨found, later, keptLater, boundedLater⟩ :=
            @ih { access with looked := looked } (i + 1)
          refine ⟨found, later, keptLater, fun address listed => ?_⟩
          rcases boundedLater address listed with before | ⟨slot, k, inside, short, here⟩
          · exact listedHere address before
          · exact Or.inr ⟨slot, k, by omega, short, here⟩

inductive Lookup where
  | name (fname : Nat → UInt8)
  | index (index : UInt32)

def readDentry (fuel : Nat) (dentry : UInt32) : Lookup → Access → Option (Int × Access)
  | .name fname => readDentryByName fuel fname dentry
  | .index index => readDentryByIndex fuel index dentry

def matching (image : Image) : Lookup → Option UInt32
  | .name fname => ((List.range directoryEntries).find? (sameName image fname)).map UInt32.ofNat
  | .index index => if index ≥ image.numInodes then none else some index

theorem readDentry_eq (image : Image) (lookup : Lookup) : ∃ looked,
    (∀ address ∈ looked, (∃ k, k < 4 ∧ address = image.boot + 4 + UInt32.ofNat k) ∨
      ∃ slot k, slot < directoryEntries ∧ k < nameSize ∧
        address = image.entryAddress (UInt32.ofNat slot) + UInt32.ofNat k) ∧
    readDentry fuel dentry lookup (start image) =
      match matching image lookup with
      | some slot => (fillDentry fuel dentry (image.entryAddress slot)
          { start image with looked := looked }).map fun filled => (0, filled)
      | none => some (-1, { start image with looked := looked }) := by
  cases lookup with
  | name fname =>
      obtain ⟨found, looked, kept, bounded⟩ :=
        @findName_spec (start image) fname directoryEntries 0
      refine ⟨looked, fun address listed => ?_, ?_⟩
      · rcases bounded address listed with none_ | ⟨slot, k, inside, short, here⟩
        · exact absurd none_ List.not_mem_nil
        · exact Or.inr ⟨slot, k, by omega, short, here⟩
      · rw [readDentry, readDentryByName, matching, List.range_eq_range', kept]
        have same : (findName fname directoryEntries 0 (start image)).1 =
          (List.range' 0 directoryEntries).find? (sameName image fname) := found
        rw [same]
        cases (List.range' 0 directoryEntries).find? (sameName image fname) <;> rfl
  | index index =>
      refine ⟨(List.range 4).reverse.map fun k => image.boot + 4 + UInt32.ofNat k,
        fun address listed => ?_, ?_⟩
      · obtain ⟨k, inside, here⟩ := List.mem_map.mp listed
        exact Or.inl ⟨k, List.mem_range.mp (List.mem_reverse.mp inside), here.symm⟩
      · rw [readDentry, readDentryByIndex, matching]
        by_cases past : index ≥ image.numInodes
        · rw [if_pos past]
          exact if_pos past
        · rw [if_neg past]
          exact if_neg past

/-! ### What the copy does -/

def Apart (dentry entry : UInt32) : Prop :=
  ∀ j k, j < dentrySize → k < dentrySize → dentry + UInt32.ofNat j ≠ entry + UInt32.ofNat k

def InWindow (base address : UInt32) : Prop := ∃ k, k < dentrySize ∧ address = base + UInt32.ofNat k

structure Filling (image : Image) (dentry entry : UInt32) (done : Nat) (access : Access) : Prop where
  source : ∀ k, k < dentrySize →
    access.image.mem (entry + UInt32.ofNat k) = image.mem (entry + UInt32.ofNat k)
  filled : ∀ k, k < dentrySize → k < done →
    access.image.mem (dentry + UInt32.ofNat k) = image.mem (entry + UInt32.ofNat k)
  reads : ∀ address ∈ access.reads, InWindow entry address
  writes : ∀ address ∈ access.writes, InWindow dentry address

theorem offset_inj (base : UInt32) {j k : Nat} (first : j ≤ dentrySize) (second : k ≤ dentrySize)
    (same : base + UInt32.ofNat j = base + UInt32.ofNat k) : j = k := by
  have offsets := UInt32.add_right_inj base |>.mp same
  have numbers := congrArg UInt32.toNat offsets
  simp only [dentrySize] at first second
  rwa [UInt32.toNat_ofNat', UInt32.toNat_ofNat', Nat.mod_eq_of_lt (by omega),
    Nat.mod_eq_of_lt (by omega)] at numbers

theorem offset_succ (base : UInt32) (j : Nat) :
    base + UInt32.ofNat j + 1 = base + UInt32.ofNat (j + 1) := by
  rw [UInt32.ofNat_add, UInt32.add_assoc]
  rfl

namespace Filling

theorem copyByte (filling : Filling image dentry entry done access) (apart : Apart dentry entry)
    (inside : j < dentrySize) (reached : j ≤ done) :
    Filling image dentry entry (max done (j + 1))
      (access.copyByte (dentry + UInt32.ofNat j) (entry + UInt32.ofNat j)) where
  source k short := by
    rw [Access.copyByte]
    dsimp only
    rw [Function.update_of_ne (apart j k inside short).symm]
    exact filling.source k short
  filled k short copied := by
    rw [Access.copyByte]
    dsimp only
    by_cases here : k = j
    · rw [here, Function.update_self]
      exact filling.source j inside
    · have other : dentry + UInt32.ofNat k ≠ dentry + UInt32.ofNat j := fun same =>
        here (offset_inj dentry (Nat.le_of_lt short) (Nat.le_of_lt inside) same)
      rw [Function.update_of_ne other]
      exact filling.filled k short (by omega)
  reads address listed := by
    rcases List.mem_cons.mp listed with here | before
    · exact ⟨j, inside, here⟩
    · exact filling.reads address before
  writes address listed := by
    rcases List.mem_cons.mp listed with here | before
    · exact ⟨j, inside, here⟩
    · exact filling.writes address before

theorem copyBytes (filling : Filling image dentry entry done access) (apart : Apart dentry entry)
    (inside : j + n ≤ dentrySize) (reached : j ≤ done) :
    Filling image dentry entry (max done (j + n))
      (copyBytes n (dentry + UInt32.ofNat j) (entry + UInt32.ofNat j) access) := by
  induction n generalizing j done access with
  | zero =>
      rw [Nat.add_zero, Nat.max_eq_left reached]
      exact filling
  | succ n ih =>
      rw [Access.copyBytes, offset_succ, offset_succ]
      have first := filling.copyByte apart (show j < dentrySize by omega) reached
      have rest := ih first (show j + 1 + n ≤ dentrySize by omega)
        (show j + 1 ≤ max done (j + 1) by omega)
      have most : max (max done (j + 1)) (j + 1 + n) = max done (j + (n + 1)) := by omega
      rwa [most] at rest

theorem strcpy (filling : Filling image dentry entry dentrySize access) (apart : Apart dentry entry)
    {last : Nat} (nul : image.mem (entry + UInt32.ofNat last) = 0) (inside : last < dentrySize)
    (before : j ≤ last) :
    (last < j + fuel → ∃ after,
      strcpy fuel (dentry + UInt32.ofNat j) (entry + UInt32.ofNat j) access = some after) ∧
    ∀ after, strcpy fuel (dentry + UInt32.ofNat j) (entry + UInt32.ofNat j) access = some after →
      Filling image dentry entry dentrySize after := by
  induction fuel generalizing j access with
  | zero =>
      refine ⟨fun budget => by omega, fun after returned => ?_⟩
      cases returned
  | succ fuel ih =>
      have copied := filling.copyByte apart (show j < dentrySize by omega) (show j ≤ dentrySize by omega)
      have most : max dentrySize (j + 1) = dentrySize := by omega
      rw [most] at copied
      rw [Access.strcpy, offset_succ, offset_succ]
      split
      · refine ⟨fun _ => ⟨_, rfl⟩, fun after returned => ?_⟩
        cases returned
        exact copied
      · rename_i goes
        have later : j ≠ last := by
          rintro rfl
          rw [filling.source j (by omega)] at goes
          exact goes nul
        obtain ⟨returns, keeps⟩ := ih copied (show j + 1 ≤ last by omega)
        exact ⟨fun budget => returns (by omega), keeps⟩

end Filling

theorem reads_copyBytes (n : Nat) (dest src address : UInt32) (listed : address ∈ access.reads) :
    address ∈ (copyBytes n dest src access).reads := by
  induction n generalizing dest src access with
  | zero => exact listed
  | succ n ih => exact ih (dest + 1) (src + 1) (List.mem_cons_of_mem src listed)

theorem reads_strcpy {dest src address : UInt32} (listed : address ∈ access.reads)
    (returned : strcpy fuel dest src access = some after) : address ∈ after.reads := by
  induction fuel generalizing dest src access with
  | zero => cases returned
  | succ fuel ih =>
      rw [strcpy] at returned
      split at returned
      · cases returned
        exact List.mem_cons_of_mem src listed
      · exact ih (List.mem_cons_of_mem src listed) returned

theorem strcpy_runsOut (filling : Filling image dentry entry dentrySize access)
    (apart : Apart dentry entry) (inside : j ≤ dentrySize)
    (unended : ∀ k, j ≤ k → k < dentrySize → image.mem (entry + UInt32.ofNat k) ≠ 0)
    (returned : strcpy fuel (dentry + UInt32.ofNat j) (entry + UInt32.ofNat j) access = some after) :
    entry + UInt32.ofNat dentrySize ∈ after.reads := by
  induction fuel generalizing j access with
  | zero => cases returned
  | succ fuel ih =>
      rw [strcpy, offset_succ, offset_succ] at returned
      by_cases atEnd : j = dentrySize
      · subst atEnd
        have read : entry + UInt32.ofNat dentrySize ∈
            (access.copyByte (dentry + UInt32.ofNat dentrySize) (entry + UInt32.ofNat dentrySize)).reads :=
          List.mem_cons_self
        split at returned
        · cases returned
          exact read
        · exact reads_strcpy read returned
      · have short : j < dentrySize := by omega
        have goes : ¬access.image.mem (entry + UInt32.ofNat j) = 0 := by
          rw [filling.source j short]
          exact unended j (Nat.le_refl j) short
        rw [if_neg goes] at returned
        have copied := filling.copyByte apart short (Nat.le_of_lt short)
        have most : max dentrySize (j + 1) = dentrySize := by omega
        rw [most] at copied
        exact ih copied short (fun k later => unended k (by omega)) returned

def ReservedEnds (image : Image) (entry : UInt32) : Prop :=
  ∃ k, 40 ≤ k ∧ k < dentrySize ∧ image.mem (entry + UInt32.ofNat k) = 0

structure EntryCopied (image : Image) (dentry entry : UInt32) (after : Access) : Prop where
  writes : ∀ address ∈ after.writes, InWindow dentry address
  reads : ∀ address ∈ after.reads, InWindow entry address
  equal : ∀ k, k < dentrySize →
    after.image.mem (dentry + UInt32.ofNat k) = image.mem (entry + UInt32.ofNat k)

theorem Filling.copied (filling : Filling image dentry entry dentrySize after) :
    EntryCopied image dentry entry after where
  writes := filling.writes
  reads := filling.reads
  equal k short := filling.filled k short short

theorem behind_notInWindow (entry : UInt32) : ¬InWindow entry (entry + UInt32.ofNat dentrySize) := by
  rintro ⟨k, short, same⟩
  have equal := offset_inj entry (Nat.le_refl dentrySize) (Nat.le_of_lt short) same
  omega

theorem filling_start (looked : List UInt32) :
    Filling image dentry entry 0 { start image with looked := looked } where
  source _ _ := rfl
  filled _ _ none_ := absurd none_ (Nat.not_lt_zero _)
  reads _ listed := absurd listed List.not_mem_nil
  writes _ listed := absurd listed List.not_mem_nil

theorem offset_zero (base : UInt32) : base + UInt32.ofNat 0 = base := UInt32.add_zero base

theorem Filling.struct (filling : Filling image dentry entry 0 access) (apart : Apart dentry entry) :
    Filling image dentry entry dentrySize (Access.copyBytes dentrySize dentry entry access) := by
  have whole := @Filling.copyBytes access image dentry entry 0 0 dentrySize filling apart
    (by omega) (Nat.le_refl 0)
  rwa [offset_zero, offset_zero, Nat.zero_add, Nat.zero_max] at whole

theorem Filling.field (filling : Filling image dentry entry dentrySize access)
    (apart : Apart dentry entry) (inside : j + n ≤ dentrySize) :
    Filling image dentry entry dentrySize
      (Access.copyBytes n (dentry + UInt32.ofNat j) (entry + UInt32.ofNat j) access) := by
  have stored := filling.copyBytes apart inside (show j ≤ dentrySize by omega)
  rwa [Nat.max_eq_left inside] at stored

def storeNumbers (dentry entry : UInt32) (named : Access) : Access :=
  copyBytes 4 (dentry + UInt32.ofNat 36) (entry + UInt32.ofNat 36)
    (copyBytes 4 (dentry + UInt32.ofNat 32) (entry + UInt32.ofNat 32) named)

theorem Filling.numbers (filling : Filling image dentry entry dentrySize access)
    (apart : Apart dentry entry) :
    Filling image dentry entry dentrySize (storeNumbers dentry entry access) := by
  have type := @Filling.field access image dentry entry 32 4 filling apart (by decide)
  exact type.field apart (by decide)

theorem fillDentry_eq : fillDentry fuel dentry entry access =
    (strcpy fuel (dentry + UInt32.ofNat 0) (entry + UInt32.ofNat 0)
      (copyBytes dentrySize dentry entry access)).bind fun named =>
    strcpy fuel (dentry + UInt32.ofNat 40) (entry + UInt32.ofNat 40)
      (storeNumbers dentry entry named) := by
  rw [fillDentry, offset_zero, offset_zero]
  rfl

theorem fillDentry_returns (filling : Filling image dentry entry 0 access)
    (apart : Apart dentry entry) (ends : ReservedEnds image entry) (budget : dentrySize ≤ fuel) :
    ∃ after, fillDentry fuel dentry entry access = some after := by
  obtain ⟨last, reserved, inside, nul⟩ := ends
  obtain ⟨returns, keeps⟩ := @Filling.strcpy _ image dentry entry fuel 0
    (filling.struct apart) apart last nul inside (Nat.zero_le last)
  obtain ⟨named, nameCopy⟩ := returns (by omega)
  obtain ⟨returnsToo, -⟩ := @Filling.strcpy _ image dentry entry fuel 40
    ((keeps named nameCopy).numbers apart) apart last nul inside reserved
  obtain ⟨after, reservedCopy⟩ := returnsToo (by omega)
  refine ⟨after, ?_⟩
  rw [fillDentry_eq, nameCopy]
  exact reservedCopy

theorem fillDentry_fills (filling : Filling image dentry entry 0 access) (apart : Apart dentry entry)
    (ends : ReservedEnds image entry) (returned : fillDentry fuel dentry entry access = some after) :
    Filling image dentry entry dentrySize after := by
  obtain ⟨last, reserved, inside, nul⟩ := ends
  rw [fillDentry_eq] at returned
  obtain ⟨named, nameCopy, reservedCopy⟩ := Option.bind_eq_some_iff.mp returned
  obtain ⟨-, name⟩ := @Filling.strcpy _ image dentry entry fuel 0
    (filling.struct apart) apart last nul inside (Nat.zero_le last)
  obtain ⟨-, whole⟩ := @Filling.strcpy _ image dentry entry fuel 40
    ((name named nameCopy).numbers apart) apart last nul inside reserved
  exact whole after reservedCopy

theorem fillDentry_overreads (filling : Filling image dentry entry 0 access)
    (apart : Apart dentry entry) (unended : ¬ReservedEnds image entry)
    (returned : fillDentry fuel dentry entry access = some after) :
    entry + UInt32.ofNat dentrySize ∈ after.reads := by
  rw [fillDentry_eq] at returned
  obtain ⟨named, nameCopy, reservedCopy⟩ := Option.bind_eq_some_iff.mp returned
  have whole := filling.struct apart
  by_cases nameEnds : ∃ last, last < dentrySize ∧ image.mem (entry + UInt32.ofNat last) = 0
  · -- the name stops inside the entry, the reserved field does not
    obtain ⟨last, inside, nul⟩ := nameEnds
    obtain ⟨-, name⟩ := @Filling.strcpy _ image dentry entry fuel 0 whole apart last nul inside
      (Nat.zero_le last)
    refine strcpy_runsOut ((name named nameCopy).numbers apart) apart (by decide) ?_ reservedCopy
    exact fun k reserved inside nul => unended ⟨k, reserved, inside, nul⟩
  · have nameRuns := strcpy_runsOut whole apart (Nat.zero_le dentrySize)
      (fun k _ inside nul => nameEnds ⟨k, inside, nul⟩) nameCopy
    exact reads_strcpy (reads_copyBytes _ _ _ _ (reads_copyBytes _ _ _ _ nameRuns)) reservedCopy

/-! ### The two calls -/

variable {lookup : Lookup} {slot : UInt32}

theorem readDentry_copy (matched : matching image lookup = some slot)
    (returned : readDentry fuel dentry lookup (start image) = some (0, after)) : ∃ looked,
    fillDentry fuel dentry (image.entryAddress slot) { start image with looked := looked } =
      some after := by
  obtain ⟨looked, -, result⟩ := @readDentry_eq dentry fuel image lookup
  rw [matched] at result
  rw [result] at returned
  obtain ⟨filled, copied, same⟩ := Option.map_eq_some_iff.mp returned
  exact ⟨looked, copied.trans (congrArg some (Prod.mk.inj same).2)⟩

/-- Copying is bounded and exact if and only if the reserved field ends. -/
theorem readDentry_copied_iff (matched : matching image lookup = some slot)
    (apart : Apart dentry (image.entryAddress slot))
    (returned : readDentry fuel dentry lookup (start image) = some (0, after)) :
    EntryCopied image dentry (image.entryAddress slot) after ↔
      ReservedEnds image (image.entryAddress slot) := by
  obtain ⟨looked, filled⟩ := readDentry_copy matched returned
  constructor
  · intro copied
    by_contra unended
    have read := fillDentry_overreads (filling_start looked) apart unended filled
    exact behind_notInWindow _ (copied.reads _ read)
  · intro ends
    exact (fillDentry_fills (filling_start looked) apart ends filled).copied

theorem readDentry_returns (matched : matching image lookup = some slot)
    (apart : Apart dentry (image.entryAddress slot))
    (ends : ReservedEnds image (image.entryAddress slot)) (budget : dentrySize ≤ fuel) :
    ∃ after, readDentry fuel dentry lookup (start image) = some (0, after) := by
  obtain ⟨looked, -, result⟩ := @readDentry_eq dentry fuel image lookup
  obtain ⟨after, filled⟩ := fillDentry_returns (filling_start looked) apart ends budget
  rw [matched] at result
  exact ⟨after, result.trans (congrArg (Option.map fun filled => (0, filled)) filled)⟩

def markedImage (mark : UInt8) : Image where
  boot := 0x1000
  mem := fun address =>
    if address = 0x1004 then 1
    else if address = 0x1040 then 97
    else if 0x1068 ≤ address ∧ address < 0x1080 then mark
    else 0

theorem markedImage_apart (mark : UInt8) : Apart 0x2000 ((markedImage mark).entryAddress 0) := by
  intro j k first second same
  have numbers := congrArg UInt32.toNat same
  simp only [dentrySize] at first second
  rw [UInt32.toNat_add, UInt32.toNat_add, UInt32.toNat_ofNat', UInt32.toNat_ofNat'] at numbers
  have entry : ((markedImage mark).entryAddress 0).toNat = 0x1040 := rfl
  have dentry : (0x2000 : UInt32).toNat = 0x2000 := rfl
  omega

theorem readDentry_zeroes : ∃ after,
    readDentry 64 0x2000 (.index 0) (start (markedImage 0)) = some (0, after) ∧
      EntryCopied (markedImage 0) 0x2000 ((markedImage 0).entryAddress 0) after := by
  have matched : matching (markedImage 0) (.index 0) = some 0 := by decide
  have ends : ReservedEnds (markedImage 0) ((markedImage 0).entryAddress 0) :=
    ⟨40, by decide, by decide, by decide⟩
  obtain ⟨after, returned⟩ := readDentry_returns matched (markedImage_apart 0) ends (Nat.le_refl _)
  exact ⟨after, returned,
    (readDentry_copied_iff matched (markedImage_apart 0) returned).mpr ends⟩

/-- 24 bytes of 65 and a NUL behind the entry: the copy goes on to that. -/
theorem readDentry_marked : ∃ after,
    readDentry 65 0x2000 (.index 0) (start (markedImage 65)) = some (0, after) ∧
      ¬EntryCopied (markedImage 65) 0x2000 ((markedImage 65).entryAddress 0) after := by
  have matched : matching (markedImage 65) (.index 0) = some 0 := by decide
  have returns : (readDentry 65 0x2000 (.index 0) (start (markedImage 65))).map Prod.fst = some 0 := by
    decide +kernel
  obtain ⟨⟨status, after⟩, returned, zero⟩ := Option.map_eq_some_iff.mp returns
  cases zero
  obtain ⟨looked, filled⟩ := readDentry_copy matched returned
  have unended : ¬ReservedEnds (markedImage 65) ((markedImage 65).entryAddress 0) := by
    rintro ⟨k, reserved, inside, nul⟩
    have marked : ∀ k, k < dentrySize → 40 ≤ k →
        (markedImage 65).mem ((markedImage 65).entryAddress 0 + UInt32.ofNat k) ≠ 0 := by decide
    exact marked k inside reserved nul
  have read := fillDentry_overreads (filling_start looked) (markedImage_apart 65) unended filled
  exact ⟨after, returned, fun copied => behind_notInWindow _ (copied.reads _ read)⟩

/-! ### The directory of the model -/

def dentryAt (image : Image) (address : UInt32) : Dentry where
  name := fun k => image.mem (address + UInt32.ofNat k)
  type := image.word (address + 32)
  inode := image.word (address + 36)

theorem word_offset (image : Image) (address : UInt32) (j : Nat) :
    image.word (address + UInt32.ofNat j) =
      (image.mem (address + UInt32.ofNat j)).toUInt32 |||
        ((image.mem (address + UInt32.ofNat (j + 1))).toUInt32 <<< 8) |||
        ((image.mem (address + UInt32.ofNat (j + 2))).toUInt32 <<< 16) |||
        ((image.mem (address + UInt32.ofNat (j + 3))).toUInt32 <<< 24) := by
  rw [Image.word, UInt32.ofNat_add, UInt32.ofNat_add, UInt32.ofNat_add, ← UInt32.add_assoc,
    ← UInt32.add_assoc, ← UInt32.add_assoc]
  rfl

theorem EntryCopied.fields (copied : EntryCopied image dentry (image.entryAddress slot) after) :
    Image.SameFields (dentryAt after.image dentry) (image.directoryEntry slot) where
  name k short := copied.equal k (Nat.lt_trans short (by decide))
  type := by
    change after.image.word (dentry + UInt32.ofNat 32) =
      image.word (image.entryAddress slot + UInt32.ofNat 32)
    rw [word_offset, word_offset, copied.equal 32 (by decide), copied.equal 33 (by decide),
      copied.equal 34 (by decide), copied.equal 35 (by decide)]
  inode := by
    change after.image.word (dentry + UInt32.ofNat 36) =
      image.word (image.entryAddress slot + UInt32.ofNat 36)
    rw [word_offset, word_offset, copied.equal 36 (by decide), copied.equal 37 (by decide),
      copied.equal 38 (by decide), copied.equal 39 (by decide)]

theorem matching_name : image.readDentryByName fname =
    (matching image (.name fname)).map image.directoryEntry := by
  rw [Image.readDentryByName, List.find?_map, matching, Option.map_map]
  rfl

theorem matching_index {index : UInt32} : image.readDentryByIndex index =
    (matching image (.index index)).map image.directoryEntry := by
  rw [Image.readDentryByIndex, matching]
  split <;> rfl

def answer (image : Image) : Lookup → Option Dentry
  | .name fname => image.readDentryByName fname
  | .index index => image.readDentryByIndex index

theorem readDentry_answer (matched : matching image lookup = some slot)
    (apart : Apart dentry (image.entryAddress slot))
    (ends : ReservedEnds image (image.entryAddress slot)) (budget : dentrySize ≤ fuel) :
    ∃ after told, readDentry fuel dentry lookup (start image) = some (0, after) ∧
      answer image lookup = some told ∧ Image.SameFields (dentryAt after.image dentry) told := by
  obtain ⟨after, returned⟩ := readDentry_returns matched apart ends budget
  obtain ⟨looked, filled⟩ := readDentry_copy matched returned
  have copied := (fillDentry_fills (filling_start looked) apart ends filled).copied
  refine ⟨after, image.directoryEntry slot, returned, ?_, copied.fields⟩
  cases lookup with
  | name fname => rw [answer, matching_name, matched, Option.map_some]
  | index index => rw [answer, matching_index, matched, Option.map_some]

end Access

end G29Os
