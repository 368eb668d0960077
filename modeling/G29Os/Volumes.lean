import G29Os.DirectoryReads
import G29Os.FilePosition
import G29Os.FirstFit
import G29Os.Sessions

/-!
The volume that an image of the file system holds, and `fs_read` in its terms. A read that runs
past the end of a file goes wrong where the file's last block is not where `read_data` looks for it.
-/

namespace G29Os

namespace Image

variable {image : Image} {inode : UInt32}

def length (image : Image) (inode : UInt32) : Nat := (image.inodeLength inode).toNat

def content (image : Image) (inode : UInt32) : List UInt8 :=
  (List.range (image.length inode)).map (image.fileByte inode)

def TailFound (image : Image) (inode : UInt32) : Prop :=
  ∀ position, position ≤ image.length inode → image.length inode < position + reach →
    TailInPlace image inode (lastFollowed (image.length inode) position)

theorem tailFound_of_length (long : image.length inode ≤ 4096 ∨ image.length inode % 4096 = 0 ∨
    reach ≤ image.length inode % 4096) : image.TailFound inode := by
  intro position within near number k later inside inFile
  rw [← length] at inFile
  simp only [reach] at long near
  simp only [lastFollowed, skipCount] at later
  omega

structure Supplied (image : Image) (inode : UInt32) : Prop where
  listed : inode < image.numInodes
  small : image.length inode ≤ 4096 * 1023
  tail : image.TailFound inode

structure Formatted (image : Image) : Prop where
  inside : image.InsideMemory
  named : image.NamedDirectory
  readable : ∀ slot, slot < image.entryCount → image.Readable slot
  unused : ∀ slot, slot < directoryEntries → image.entryCount ≤ slot → image.slotName slot = []
  known : ∀ slot, slot < image.entryCount → (image.slotEntry slot).type = 0 ∨
    (image.slotEntry slot).type = 1 ∨ (image.slotEntry slot).type = 2
  files : ∀ slot, slot < image.entryCount → (image.slotEntry slot).type = 2 →
    image.Supplied (image.slotEntry slot).inode
  contained : ∀ slot, slot < directoryEntries → (image.slotEntry slot).Contained 0

def dentryNode (image : Image) (dentry : Dentry) : Node :=
  if dentry.type = 0 then .rtc
  else if dentry.type = 1 then .directory
  else .regular (image.content dentry.inode)

def entry (formatted : image.Formatted) (slot : Fin image.entryCount) : Entry where
  name := image.slotName slot
  node := image.dentryNode (image.slotEntry slot)
  named := formatted.named.named slot slot.isLt
  short := length_cString_le nameSize _
  nonzero := fun _ listed => mem_cString listed

def volume (formatted : image.Formatted) : Volume where
  entries := (List.finRange image.entryCount).map (entry formatted)

theorem names_volume (formatted : image.Formatted) :
    (volume formatted).names = (List.range image.entryCount).map image.slotName := by
  rw [Volume.names, volume, List.map_map, ← List.map_coe_finRange_eq_range, List.map_map]
  rfl

theorem names_drop (formatted : image.Formatted) {count : Nat} (used : count < image.entryCount) :
    (volume formatted).names.drop count = image.slotName count :: (volume formatted).names.drop (count + 1) := by
  rw [names_volume, List.drop_eq_getElem_cons (by simpa using used)]
  simp

theorem names_behind (formatted : image.Formatted) {count : Nat} (behind : image.entryCount ≤ count) :
    (volume formatted).names.drop count = [] := by
  rw [names_volume, List.drop_eq_nil_iff]
  simpa using behind

instance (text : List UInt8) (slot : Nat) : Decidable (image.SharesPrefix text slot) :=
  inferInstanceAs (Decidable (_ = _))

theorem lookup_volume (formatted : image.Formatted) (filename : List UInt8) :
    (volume formatted).lookup filename = ((List.finRange image.entryCount).find?
      fun slot : Fin image.entryCount => decide (image.SharesPrefix filename slot)).map fun slot : Fin image.entryCount => image.dentryNode (image.slotEntry slot) := by
  rw [Volume.lookup, volume, List.find?_map, Option.map_map]
  rfl

theorem readDentryByName_volume (formatted : image.Formatted) {filename : List UInt8}
    (named : filename ≠ []) (nonzero : ∀ c ∈ filename, c ≠ 0) :
    (image.readDentryByName (textOf filename)).map image.dentryNode = (volume formatted).lookup filename ∧
      ∀ dentry, image.readDentryByName (textOf filename) = some dentry →
        ∃ slot, slot < image.entryCount ∧ dentry = image.slotEntry slot := by
  have string := isCString_textOf nonzero
  -- a slot that is not in use has no name to share characters with
  have unused (slot : Nat) (bound : slot < directoryEntries) (shares : image.SharesPrefix filename slot) :
      slot < image.entryCount := by
    by_contra behind
    rw [SharesPrefix, formatted.unused slot bound (Nat.not_lt.mp behind), List.take_nil] at shares
    cases filename with
    | nil => exact named rfl
    | cons c rest => cases shares
  rw [lookup_volume]
  cases found : image.readDentryByName (textOf filename) with
  | none =>
      have missing : (List.finRange image.entryCount).find? (fun slot : Fin image.entryCount =>
          decide (image.SharesPrefix filename slot)) = none := by
        rw [FirstFit.find?_none_iff]
        intro slot
        exact decide_eq_false (readDentryByName_none string found
          (Nat.lt_of_lt_of_le slot.isLt formatted.named.fits))
      rw [missing]
      exact ⟨rfl, fun dentry absurd => by cases absurd⟩
  | some dentry =>
      obtain ⟨slot, bound, rfl, shares, skipped⟩ := readDentryByName_some string found
      have used := unused slot bound shares
      cases first : (List.finRange image.entryCount).find? (fun slot : Fin image.entryCount =>
          decide (image.SharesPrefix filename slot)) with
      | none =>
          have refused := FirstFit.find?_none_iff.mp first ⟨slot, used⟩
          exact absurd shares (of_decide_eq_false refused)
      | some place =>
          obtain ⟨taken, least⟩ := FirstFit.find?_least first
          have early : place ≤ ⟨slot, used⟩ := least (decide_eq_true shares)
          have same : place.val = slot := by
            refine Nat.le_antisymm early (Nat.not_lt.mp fun before => ?_)
            exact skipped place before (of_decide_eq_true taken)
          refine ⟨?_, fun other is => ⟨slot, used, (Option.some.inj is).symm⟩⟩
          simp only [Option.map_some, same]

/-! ### Reads -/

theorem drop_content (image : Image) (inode : UInt32) (position count : Nat) :
    ((image.content inode).drop position).take count =
      (List.range (min count (image.length inode - position))).map fun k =>
        image.fileByte inode (position + k) := by
  apply List.ext_getElem
  · simp [content]
  · intro k inside inside'
    simp [content]

end Image

theorem toNat_moved {position : UInt32} {count : Nat} (fits : position.toNat + count < 2 ^ 32) :
    (position + UInt32.ofNat count).toNat = position.toNat + count := by
  rw [UInt32.toNat_add, UInt32.toNat_ofNat_of_lt' (by change _ < 2 ^ 32; omega)]
  omega

theorem readData_content {image : Image} {inode position length : UInt32} (supplied : image.Supplied inode)
    (within : position.toNat ≤ image.length inode) (small : length.toNat ≤ reach)
    (unread : position ≠ image.inodeLength inode) :
    let result := readData image inode position (fun _ => 0) length
    result.ret.toNat = min length.toNat (image.length inode - position.toNat) ∧
      (List.range result.written).map result.buf =
        ((image.content inode).drop position.toNat).take length.toNat := by
  have fits := supplied.small
  rw [Image.length] at fits within
  simp only [reach] at small
  have noWrap : position.toNat + length.toNat < 2 ^ 32 := by omega
  obtain ⟨ret, written, filled, -⟩ := readData_closed image inode position length (fun _ => 0) fits unread
  have plan := readPlan_min fits within noWrap
  dsimp only
  rw [written, ret, plan, Image.drop_content]
  refine ⟨rfl, List.map_congr_left fun k listed => ?_⟩
  have bound := List.mem_range.mp listed
  rw [filled, plan, ← Nat.zero_add k, ByteRange.writeRange_inside bound, Nat.zero_add]
  by_cases inside : position.toNat + length.toNat ≤ (image.inodeLength inode).toNat
  · have last : ((position + length) / kb4).toNat = (position.toNat + length.toNat) / 4096 := by
      rw [UInt32.toNat_div, UInt32.toNat_add, toNat_kb4, Nat.mod_eq_of_lt (by omega)]
    rw [readPlan_inside inside, last]
    exact spanByte_eq_fileByte image inode (by omega)
  · have past := Nat.lt_of_not_le inside
    have last : ((image.inodeLength inode - position) / block).toNat =
        ((image.inodeLength inode).toNat - position.toNat) / 4096 := by
      rw [UInt32.toNat_div, toNat_block, toNat_bytesLeft image inode within]
    rw [readPlan_pastEnd fits within past noWrap, last]
    have tail := supplied.tail position.toNat within (by simp only [reach, Image.length]; omega)
    exact (spanByte_tail_iff image inode position.toNat _ (Nat.le_max_left _ _)).mpr tail k (by omega)

theorem fsRead_text {image : Image} {inode position : UInt32} {nbytes : Int} (inside : image.InsideMemory)
    (supplied : image.Supplied inode) (within : position.toNat ≤ image.length inode)
    (nonneg : 0 ≤ nbytes) (small : nbytes ≤ reach) :
    let bytes := ((image.content inode).drop position.toNat).take nbytes.toNat
    fsRead image nbytes (fileEntry image inode position) =
      { bytes := bytes
        entry := fileEntry image inode (position + UInt32.ofNat bytes.length)
        ret := bytes.length } := by
  have fits := supplied.small
  have pointer := Image.inodePtr_ne_null inside supplied.listed
  have recovered := Image.inodePtr_recovered inside supplied.listed
  have notDirectory : ¬(fileEntry image inode position).inodePtr = 0 := pointer
  dsimp only
  have count : (((image.content inode).drop position.toNat).take nbytes.toNat).length =
      min nbytes.toNat (image.length inode - position.toNat) := by
    simp [Image.content]
  rw [fsRead, if_neg notDirectory]
  simp only [fileEntry, recovered]
  split
  · rename_i ended
    have last := UInt32.le_iff_toNat_le.mp ended
    rw [← Image.inodeLength, ← Image.length] at last
    have none : ((image.content inode).drop position.toNat).take nbytes.toNat = [] := by
      rw [← List.length_eq_zero_iff, count]
      omega
    rw [none]
    simp
  · rename_i before
    have left : position < image.inodeLength inode := UInt32.not_le.mp before
    have unread : position ≠ image.inodeLength inode := UInt32.ne_of_lt left
    generalize request : UInt32.ofNat (nbytes % 4294967296).toNat = length
    simp only [reach] at small
    have asked : length.toNat = nbytes.toNat := by
      rw [← request, UInt32.toNat_ofNat_of_lt' (by change _ < 2 ^ 32; omega)]
      omega
    obtain ⟨ret, bytes⟩ := readData_content supplied within (by simp only [reach]; omega : length.toNat ≤ reach) unread
    generalize readData image inode position (fun _ => 0) length = result at ret bytes ⊢
    have value : asInt32 result.ret = result.ret.toNat := asInt32_small (by omega)
    have notFailed : ¬result.ret = -1 := by
      intro failed
      rw [failed] at ret
      have huge : (-1 : UInt32).toNat = 4294967295 := rfl
      omega
    have moved : UInt32.ofNat (min nbytes.toNat (image.length inode - position.toNat)) = result.ret := by
      rw [← asked, ← ret, UInt32.ofNat_toNat]
    rw [if_neg notFailed, bytes, value, asked, count, moved, ret, asked]

/-! ### A small volume -/

def textImage : Image where
  boot := 0
  mem address := (List.lookup address
    [(0, 6), (4, 8), (64, 0x73), (65, 0x68), (66, 0x65), (67, 0x6c), (68, 0x6c), (96, 2),
      (128, 0x2e), (160, 1), (192, 0x63), (193, 0x61), (194, 0x74), (224, 2), (228, 1), (256, 0x61),
      (288, 2), (292, 2), (320, 0x6c), (321, 0x73), (352, 2), (356, 1), (384, 0x67), (385, 0x72),
      (386, 0x65), (387, 0x70), (416, 2), (420, 1), (4096, 4), (8192, 4), (12288, 4), (12292, 1),
      (36864, 0x7f), (36865, 0x45), (36866, 0x4c), (36867, 0x46), (40960, 0x78), (40961, 0x0a),
      (40962, 0x61), (40963, 0x79)]).getD 0

theorem formatted_textImage : textImage.Formatted where
  inside := by decide +kernel
  named := by decide +kernel
  readable := by
    have readable : ∀ slot, slot < textImage.entryCount → slot < textImage.numInodes.toNat ∧
        (textImage.slotName slot).length ≠ nameSize := by decide +kernel
    exact fun slot used => ⟨(readable slot used).1, fun full => absurd full (readable slot used).2⟩
  unused := by decide +kernel
  known := by decide +kernel
  files := by
    have files : ∀ slot, slot < textImage.entryCount →
        (textImage.slotEntry slot).inode < textImage.numInodes ∧
          textImage.length (textImage.slotEntry slot).inode ≤ 4096 := by decide +kernel
    intro slot used _
    obtain ⟨listed, small⟩ := files slot used
    exact ⟨listed, small.trans (by decide), Image.tailFound_of_length (Or.inl small)⟩
  contained := by decide +kernel

end G29Os
