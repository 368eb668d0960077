import G29Os.DescriptorReads
import G29Os.DirectoryLookup

/-!
Reading a directory, one name at a time. `read_dir` goes by the number of entries,
`read_dentry_by_index` by the number of inodes, and the length of a name is that of the C
string from its first byte on, wherever that ends.
-/

namespace G29Os

open StepRun

/-! ### One name -/

theorem length_cString_more (size more : Nat) (buffer : Nat → UInt8) :
    (cString (size + (more + 1)) buffer).length = (cString size buffer).length ↔
      (cString size buffer).length < size ∨ buffer size = 0 := by
  induction size generalizing buffer with
  | zero =>
      rw [Nat.zero_add, cString_succ]
      split
      · rename_i ends
        simp [ends]
      · rename_i goes
        simp [goes]
  | succ size ih =>
      have behind := ih fun index => buffer (index + 1)
      rw [Nat.add_right_comm, cString_succ, cString_succ size]
      split
      · simp
      · simp only [List.length_cons, Nat.add_right_cancel_iff, Nat.add_lt_add_iff_right]
        exact behind

theorem toUInt8_shiftLeft_zero (value : UInt32) {shift : UInt32}
    (bytes : shift = 8 ∨ shift = 16 ∨ shift = 24) : (value <<< shift).toUInt8 = 0 := by
  apply UInt8.toNat_inj.mp
  rw [UInt32.toNat_toUInt8, UInt32.toNat_shiftLeft, Nat.shiftLeft_eq]
  rcases bytes with rfl | rfl | rfl
  · change value.toNat * 256 % 4294967296 % 256 = 0
    omega
  · change value.toNat * 65536 % 4294967296 % 256 = 0
    omega
  · change value.toNat * 16777216 % 4294967296 % 256 = 0
    omega

namespace Image

variable {image : Image} {slot : Nat}

theorem toUInt8_word (address : UInt32) : (image.word address).toUInt8 = image.mem address := by
  rw [word]
  simp only [UInt32.toUInt8_or, UInt8.toUInt8_toUInt32, toUInt8_shiftLeft_zero, true_or, or_true,
    UInt8.or_zero]

theorem slotEntry_behind : (image.slotEntry slot).name nameSize = (image.slotEntry slot).type.toUInt8 := by
  rw [slotEntry, directoryEntry, toUInt8_word]
  rfl

structure Readable (image : Image) (slot : Nat) : Prop where
  hasInode : slot < image.numInodes.toNat
  ends : (image.slotName slot).length = nameSize → (image.slotEntry slot).type.toUInt8 = 0

theorem length_cString64_iff : (cString 64 (image.slotEntry slot).name).length =
      (image.slotName slot).length ↔
    ((image.slotName slot).length = nameSize → (image.slotEntry slot).type.toUInt8 = 0) := by
  have short : (image.slotName slot).length ≤ nameSize := length_cString_le nameSize _
  have more := length_cString_more nameSize 31 (image.slotEntry slot).name
  rw [← slotEntry_behind]
  refine more.trans ⟨fun either full => ?_, fun ends => ?_⟩
  · rcases either with shorter | nul
    · exact absurd full (Nat.ne_of_lt shorter)
    · exact nul
  · rcases Nat.lt_or_eq_of_le short with shorter | full
    · exact Or.inl shorter
    · exact Or.inr (ends full)

def paddedName (image : Image) (slot : Nat) : List UInt8 :=
  image.slotName slot ++ List.replicate (nameSize - (image.slotName slot).length) 0

theorem toNat_slot (small : slot ≤ directoryEntries) : (UInt32.ofNat slot).toNat = slot := by
  apply UInt32.toNat_ofNat_of_lt'
  simp only [directoryEntries] at small
  change _ < 2 ^ 32
  omega

theorem readDir_behind (small : slot ≤ directoryEntries) (behind : image.entryCount ≤ slot) :
    readDir image (UInt32.ofNat slot) = (List.replicate nameSize 0, UInt32.ofNat slot, 0) := by
  have past : UInt32.ofNat slot ≥ image.numDirectoryEntry := by
    rw [ge_iff_le, UInt32.le_iff_toNat_le, toNat_slot small]
    exact behind
  rw [readDir, if_pos past]

theorem readDir_unlisted (small : slot ≤ directoryEntries) (used : slot < image.entryCount)
    (unlisted : image.numInodes.toNat ≤ slot) :
    readDir image (UInt32.ofNat slot) = ([], UInt32.ofNat slot, 0) := by
  have before : ¬UInt32.ofNat slot ≥ image.numDirectoryEntry := by
    rw [ge_iff_le, UInt32.le_iff_toNat_le, toNat_slot small]
    exact Nat.not_le.mpr used
  have past : UInt32.ofNat slot ≥ image.numInodes := by
    rw [ge_iff_le, UInt32.le_iff_toNat_le, toNat_slot small]
    exact unlisted
  rw [readDir, if_neg before, readDentryByIndex, if_pos past]

theorem readDir_listed (small : slot ≤ directoryEntries) (used : slot < image.entryCount)
    (listed : slot < image.numInodes.toNat) :
    readDir image (UInt32.ofNat slot) = (image.paddedName slot, UInt32.ofNat (slot + 1),
      UInt32.ofNat (cString 64 (image.slotEntry slot).name).length) := by
  have before : ¬UInt32.ofNat slot ≥ image.numDirectoryEntry := by
    rw [ge_iff_le, UInt32.le_iff_toNat_le, toNat_slot small]
    exact Nat.not_le.mpr used
  have inside : ¬UInt32.ofNat slot ≥ image.numInodes := by
    rw [ge_iff_le, UInt32.le_iff_toNat_le, toNat_slot small]
    exact Nat.not_le.mpr listed
  have next : UInt32.ofNat slot + 1 = UInt32.ofNat (slot + 1) := by
    rw [UInt32.ofNat_add]
    rfl
  rw [readDir, if_neg before, readDentryByIndex, if_neg inside, ← next]
  rfl

end Image

def directoryFd (position : UInt32) : Fd where
  fopsPtr := some .file
  inodePtr := 0
  filePosition := position
  flags := true

def listedName (image : Image) (count : Nat) : List UInt8 × Int :=
  if count < image.entryCount then (image.paddedName count, ((image.slotName count).length : Int))
  else (List.replicate nameSize 0, 0)

theorem fsRead_directoryFd (image : Image) (nbytes : Int) (position : UInt32) :
    fsRead image nbytes (directoryFd position) =
      { bytes := (readDir image position).1
        entry := directoryFd (readDir image position).2.1
        ret := asInt32 (readDir image position).2.2 } := by
  rw [fsRead]
  rfl

theorem fsRead_name_iff {image : Image} (named : image.NamedDirectory) (nbytes : Int) {slot : Nat}
    (used : slot < image.entryCount) :
    (fsRead image nbytes (directoryFd (UInt32.ofNat slot))).ret = (image.slotName slot).length ↔
      image.Readable slot := by
  have small : slot ≤ directoryEntries := (Nat.le_of_lt used).trans named.fits
  have nonempty : (image.slotName slot).length ≠ 0 := by
    rw [ne_eq, List.length_eq_zero_iff]
    exact named.named slot used
  rw [fsRead_directoryFd]
  by_cases listed : slot < image.numInodes.toNat
  · have value := asInt32_nameLength image (UInt32.ofNat slot)
    rw [nameLength] at value
    rw [Image.readDir_listed small used listed]
    dsimp only
    rw [← Image.slotEntry] at value
    rw [value, Int.ofNat_inj, Image.length_cString64_iff]
    exact ⟨fun ends => ⟨listed, ends⟩, Image.Readable.ends⟩
  · rw [Image.readDir_unlisted small used (Nat.not_lt.mp listed)]
    refine ⟨fun same => ?_, fun readable => absurd readable.hasInode listed⟩
    have zero : asInt32 0 = 0 := rfl
    dsimp only at same
    omega

theorem fsRead_listed {image : Image} (named : image.NamedDirectory)
    (readable : ∀ slot, slot < image.entryCount → image.Readable slot) (nbytes : Int) (count : Nat) :
    let read := fsRead image nbytes (directoryFd (UInt32.ofNat (min count image.entryCount)))
    (read.bytes, read.ret) = listedName image count ∧
      read.entry = directoryFd (UInt32.ofNat (min (count + 1) image.entryCount)) := by
  dsimp only
  have fits := named.fits
  by_cases used : count < image.entryCount
  · have here : min count image.entryCount = count := by omega
    have next : min (count + 1) image.entryCount = count + 1 := by omega
    have ret := (fsRead_name_iff named nbytes used).mpr (readable count used)
    rw [here, next, listedName, if_pos used, ret, fsRead_directoryFd,
      Image.readDir_listed (by omega) used (readable count used).hasInode]
    exact ⟨rfl, rfl⟩
  · have here : min count image.entryCount = image.entryCount := by omega
    have next : min (count + 1) image.entryCount = image.entryCount := by omega
    rw [here, next, listedName, if_neg used, fsRead_directoryFd, Image.readDir_behind fits (Nat.le_refl _)]
    exact ⟨rfl, rfl⟩

theorem length_readDir (image : Image) (position : UInt32) :
    (readDir image position).1.length ≤ nameSize := by
  rw [readDir]
  split
  · exact Nat.le_of_eq List.length_replicate
  · split
    · rename_i entry _
      have short := length_cString_le nameSize entry.name
      simp only [List.length_append, List.length_replicate]
      omega
    · exact Nat.zero_le _

/-! ### Any run of reads -/

namespace Kernel

variable {image : Image} {k opened next later : Kernel} {process caller : Slot} {index : Fin 8}
  {fd nbytes : Int}

abbrev Listing (image : Image) (process : Slot) (index : Fin 8) :
    Kernel → List Event → Kernel → Prop :=
  Path (step image) (Exclusive process index (· = (nameSize : Int)))

def readsMade (image : Image) (process : Slot) (index : Fin 8) (opened : Kernel) (events : List Event) : Nat :=
  (recorded (step image) (noteServed image process index) opened events []).length

/-- From `opened` on the reads give one name after the other, and then 0 for ever. -/
structure Enumerates (image : Image) (process : Slot) (index : Fin 8) (opened : Kernel) : Prop where
  returns : ∀ events later, Listing image process index opened events later →
    ∀ caller fd buf, later.running = some caller → later.finds process index fd = true →
      mb128 ≤ buf → buf + nameSize ≤ mb128 + mb4 →
        (later.readCall image caller fd buf nameSize).isSome
  names : ∀ events later, Listing image process index opened events later →
    ∀ caller fd buf ret next, later.running = some caller → later.finds process index fd = true →
      later.readCall image caller fd buf nameSize = some (ret, next) →
        readsMade image process index opened events < image.entryCount →
          ret = some (image.slotName (readsMade image process index opened events)).length ∧
            ∃ stored, next.mem = stored.mem ∧ later.storeBytes buf
              (image.paddedName (readsMade image process index opened events)) = some stored
  ends : ∀ events later, Listing image process index opened events later →
    ∀ caller fd buf ret next, later.running = some caller → later.finds process index fd = true →
      later.readCall image caller fd buf nameSize = some (ret, next) →
        image.entryCount ≤ readsMade image process index opened events → ret = some 0

theorem Opened.running (opened : Opened process k next) : next.running = k.running := by
  cases opened with
  | refused => rfl
  | rtc free fops => rfl
  | file free => rfl

theorem Owning.finds_own (owning : Owning process index k) (running : k.running = some process) :
    k.finds process index index.val = true := by
  have above := owning.above
  have notOutput : (index.val : Int) ≠ 1 := by
    simp only [fdBegin] at above
    omega
  exact (finds_iff running).mpr
    ⟨notOutput, FileArray.inUse_used owning.holding.used, owning.holding.file, owning.owner⟩

/-- The copy of the entry in this slot keeps out of the frame of `read_dir`. -/
abbrev Contains (image : Image) (slot : Nat) : Prop := (image.slotEntry slot).Contained readDirRoom

theorem readDirContained_slot {slot : Nat} (small : slot ≤ directoryEntries)
    (used : slot < image.entryCount) (listed : slot < image.numInodes.toNat) :
    readDirContained image (UInt32.ofNat slot) ↔ Contains image slot := by
  have before : UInt32.ofNat slot < image.numDirectoryEntry := by
    rw [UInt32.lt_iff_toNat_lt, Image.toNat_slot small]
    exact used
  have inside : ¬UInt32.ofNat slot ≥ image.numInodes := by
    rw [ge_iff_le, UInt32.le_iff_toNat_le, Image.toNat_slot small]
    exact Nat.not_le.mpr listed
  rw [readDirContained, Image.readDentryByIndex, if_neg inside]
  simp only [before, forall_true_left, Option.mem_some_iff, forall_eq']
  rfl

theorem readDirContained_behind (fits : image.entryCount ≤ directoryEntries) :
    readDirContained image (UInt32.ofNat image.entryCount) := by
  intro before
  rw [UInt32.lt_iff_toNat_lt, Image.toNat_slot fits] at before
  exact absurd before (Nat.lt_irrefl _)

theorem Owning.readName (owning : Owning process index k) (running : k.running = some process)
    {position : UInt32} (entry : k.descriptor process index = directoryFd position)
    (contained : readDirContained image position) :
    ∃ next, k.step image (.read index.val mb128 nameSize) = some next ∧ next.running = some process ∧
      next.descriptor process index = directoryFd (readDir image position).2.1 := by
  have found := owning.finds_own running
  have room : 0 + (readDir image position).1.length ≤ mb4 := by
    have short := length_readDir image position
    simp only [nameSize] at short
    simp only [mb4]
    omega
  obtain ⟨mem, stored⟩ := owning.sound.storeBytes_page (running_foreground running) room
  refine ⟨{ k with mem := mem }.setFiles process ((k.pcbs process).fileArray.set index
    (directoryFd (readDir image position).2.1)), ?_, running, descriptor_set_self⟩
  have kept : k.readContained image process index.val :=
    (readContained_found running found).mpr fun _ => by rwa [entry]
  simp only [Kernel.step, running, Option.bind_some, programEvent, readCall, if_pos kept,
    systemRead_found running found, entry, fsRead_directoryFd]
  rw [Nat.add_zero] at stored
  rw [stored]
  rfl

theorem Owning.reads_reach (owning : Owning process index opened)
    (running : opened.running = some process)
    (entry : opened.descriptor process index = directoryFd 0) (count : Nat)
    (small : count ≤ directoryEntries)
    (listed : ∀ slot, slot < count →
      slot < image.entryCount ∧ slot < image.numInodes.toNat ∧ Contains image slot) :
    ∃ events later, Listing image process index opened events later ∧
      Owning process index later ∧ later.running = some process ∧
      later.descriptor process index = directoryFd (UInt32.ofNat count) ∧
      readsMade image process index opened events = count := by
  induction count with
  | zero => exact ⟨[], opened, Path.nil opened, owning, running, entry, rfl⟩
  | succ count ih =>
      obtain ⟨events, later, path, owning', running', entry', made⟩ :=
        ih (by omega) fun slot before => listed slot (by omega)
      obtain ⟨used, inode, contains⟩ := listed count (Nat.lt_succ_self count)
      have contained := (readDirContained_slot (by omega) used inode).mpr contains
      obtain ⟨next, taken, runs, moved⟩ :=
        @Owning.readName image _ _ _ owning' running' _ entry' contained
      have found := owning'.finds_own running'
      have exclusive : Exclusive process index (· = (nameSize : Int)) later
          (.read index.val mb128 nameSize) := ⟨id, fun _ => rfl⟩
      have last := Path.cons exclusive taken (Path.nil next)
      refine ⟨events ++ [.read index.val mb128 nameSize], next, path.append last,
        (owning'.step exclusive [] taken).1, runs, ?_, ?_⟩
      · rw [moved, Image.readDir_listed (by omega) used inode]
      · rw [readsMade, path.recorded_append last, recorded_cons taken]
        simp only [noteServed, found, if_true, recorded, List.length_cons]
        exact congrArg (· + 1) made

theorem Owning.enumerates (owning : Owning process index opened)
    (entry : opened.descriptor process index = directoryFd 0) (named : image.NamedDirectory)
    (readable : ∀ slot, slot < image.entryCount → image.Readable slot)
    (contains : ∀ slot, slot < image.entryCount → Contains image slot) :
    Enumerates image process index opened := by
  let invariant (entry : Fd) (log : List Served) : Prop :=
    entry = directoryFd (UInt32.ofNat (min log.length image.entryCount))
  have keeps : ∀ entry log nbytes, nbytes = (nameSize : Int) → invariant entry log →
      invariant (fsRead image nbytes entry).entry
        ({ nbytes := nbytes, ret := (fsRead image nbytes entry).ret } :: log) := by
    rintro _ log nbytes - rfl
    exact (fsRead_listed named readable nbytes log.length).2
  have initial : invariant (opened.descriptor process index) [] := by
    change _ = directoryFd (UInt32.ofNat (min 0 image.entryCount))
    rw [Nat.zero_min]
    exact entry
  have answers {events : List Event} {later : Kernel} (path : Listing image process index opened events later) :
      Owning process index later ∧ later.descriptor process index =
        directoryFd (UInt32.ofNat (min (readsMade image process index opened events) image.entryCount)) :=
    owning.path invariant keeps initial path
  have contained (count : Nat) : readDirContained image (UInt32.ofNat (min count image.entryCount)) := by
    have fits := named.fits
    by_cases used : count < image.entryCount
    · rw [Nat.min_eq_left (Nat.le_of_lt used)]
      exact (readDirContained_slot (by omega) used (readable count used).hasInode).mpr
        (contains count used)
    · rw [Nat.min_eq_right (Nat.not_lt.mp used)]
      exact readDirContained_behind fits
  have answered {events : List Event} {later : Kernel} (path : Listing image process index opened events later)
      {caller : Slot} {fd : Int} {buf : Nat} {ret : Option Int} {next : Kernel}
      (running : later.running = some caller) (found : later.finds process index fd = true)
      (called : later.readCall image caller fd buf nameSize = some (ret, next)) :
      ret = some (listedName image (readsMade image process index opened events)).2 ∧
        ∃ stored, next.mem = stored.mem ∧ later.storeBytes buf
          (listedName image (readsMade image process index opened events)).1 = some stored := by
    have read := (fsRead_listed named readable nameSize (readsMade image process index opened events)).1
    have done := (readCall_read called).2
    rw [systemRead_found running found, (answers path).2] at done
    obtain ⟨stored, copied, same⟩ := Option.map_eq_some_iff.mp done
    cases same
    refine ⟨congrArg some (congrArg Prod.snd read), stored, rfl, ?_⟩
    rw [← copied]
    exact congrArg (fun bytes => later.storeBytes buf bytes) (congrArg Prod.fst read).symm
  refine ⟨?_, ?_, ?_⟩
  · intro events later path caller fd buf running found low fits
    obtain ⟨owning', entry'⟩ := answers path
    obtain ⟨offset, rfl⟩ := Nat.exists_eq_add_of_le low
    have short := length_readDir image
      (UInt32.ofNat (min (readsMade image process index opened events) image.entryCount))
    obtain ⟨mem, stored⟩ := owning'.sound.storeBytes_page (running_foreground running)
      (by omega : offset + (readDir image (UInt32.ofNat
        (min (readsMade image process index opened events) image.entryCount))).1.length ≤ mb4)
    have kept : later.readContained image caller fd := by
      rw [readContained_found running found, entry']
      exact fun _ => contained _
    rw [readCall, if_pos kept, systemRead_found running found, entry', fsRead_directoryFd, stored]
    rfl
  · intro events later path caller fd buf ret next running found done used
    have answer := answered path running found done
    simp only [listedName, if_pos used] at answer
    exact answer
  · intro events later path caller fd buf ret next running found done behind
    have answer := answered path running found done
    simp only [listedName, if_neg (Nat.not_lt.mpr behind)] at answer
    exact answer.1

/-- A freshly opened directory is enumerated exactly when every entry has an inode number below the
number of inodes to go with its place, no name runs on into its type, and no copy of an entry runs
over the frame of `read_dir`. -/
theorem enumerates_iff {filename : List UInt8} {dentry : Dentry} {opened : Kernel}
    (named : image.NamedDirectory)
    (reached : Reachable (step image) (Booted image) k) (running : k.running = some process)
    (found : image.readDentryByName (textOf filename) = some dentry) (directory : dentry.type = 1)
    (opens : k.openCall image process filename = some ((index.val : Int), opened)) :
    Enumerates image process index opened ↔
      ∀ slot, slot < image.entryCount → image.Readable slot ∧ Contains image slot := by
  have call := (openCall_opened opens).2
  obtain ⟨owning, fresh⟩ := systemOpen_owning reached running found (Or.inl directory)
    (congrArg Prod.fst call)
  have entry : (k.systemOpen image process filename).2.descriptor process index = directoryFd 0 := by
    rw [fresh, openedEntry, if_pos directory, directoryFd]
  have running' : (k.systemOpen image process filename).2.running = some process :=
    (systemOpen_opened image process filename k).running.trans running
  rw [call] at owning entry running'
  refine ⟨fun enumerates => ?_, fun holds => owning.enumerates entry named
    (fun slot used => (holds slot used).1) fun slot used => (holds slot used).2⟩
  -- the entries before a slot that cannot be read are read, which leads the descriptor to it
  intro slot
  induction slot using Nat.strongRecOn with
  | ind slot ih =>
      intro used
      have small : slot ≤ directoryEntries := (Nat.le_of_lt used).trans named.fits
      obtain ⟨events, later, path, owning', runs, entry', made⟩ :=
        owning.reads_reach running' entry slot small fun earlier before =>
          have holds := ih earlier before (Nat.lt_trans before used)
          ⟨Nat.lt_trans before used, holds.1.hasInode, holds.2⟩
      have own := owning'.finds_own runs
      obtain ⟨⟨ret, read⟩, called⟩ := Option.isSome_iff_exists.mp
        (enumerates.returns events later path process index.val mb128 runs own (Nat.le_refl _)
          (by decide))
      have name := (enumerates.names events later path process index.val mb128 ret read runs own called
        (made ▸ used)).1
      obtain ⟨contained, done⟩ := readCall_read called
      rw [systemRead_found runs own, entry'] at done
      obtain ⟨stored, -, same⟩ := Option.map_eq_some_iff.mp done
      cases same
      rw [made] at name
      have readable := (fsRead_name_iff named nameSize used).mp (Option.some.inj name)
      rw [readContained_found runs own, entry'] at contained
      exact ⟨readable, (readDirContained_slot small used readable.hasInode).mp (contained rfl)⟩

def directoryImage (type : UInt8) : Image where
  boot := 0
  mem address :=
    if 192 ≤ address ∧ address < 224 then Image.longName.getD (address.toNat - 192) 0
    else (List.lookup address
      [(0, 3), (4, 3), (64, 0x73), (65, 0x68), (66, 0x65), (67, 0x6c), (68, 0x6c), (96, 2),
        (128, 0x2e), (160, 1), (224, type), (228, 1), (4096, 4), (16384, 0x7f), (16385, 0x45),
        (16386, 0x4c), (16387, 0x46)]).getD 0

def directoryName : List UInt8 := ascii ['.']

/-- The name of 32 bytes is measured together with the 2 of its type. -/
theorem enumeration_overlong :
    ∃ k opened, Reachable (step (directoryImage 2)) (Booted (directoryImage 2)) k ∧
      (directoryImage 2).NamedDirectory ∧ k.running = some 0 ∧
      k.openCall (directoryImage 2) 0 directoryName = some (2, opened) ∧
      ¬Enumerates (directoryImage 2) 0 2 opened := by
  let image := directoryImage 2
  let events : List Event := [.read 2 mb128 32, .read 2 mb128 32]
  have ran : ((runOn image [.firstShell noStale]).bind fun k =>
      (k.openCall image 0 directoryName).bind fun opens =>
        (runWhere (step image) (Exclusive 0 2 (· = (nameSize : Int))) opens.2 events).bind fun later =>
          (later.readCall image 0 2 mb128 nameSize).map fun read =>
            decide (k.running = some 0 ∧ opens.1 = 2 ∧
              later.running = some 0 ∧ later.finds 0 2 2 = true ∧
              readsMade image 0 2 opens.2 events = 2 ∧ read.1 = some 33)) = some true := by
    decide +kernel
  obtain ⟨k, computed, ran⟩ := Option.bind_eq_some_iff.mp ran
  obtain ⟨⟨fd, opened⟩, opens, ran⟩ := Option.bind_eq_some_iff.mp ran
  obtain ⟨later, path, ran⟩ := Option.bind_eq_some_iff.mp ran
  obtain ⟨⟨ret, next⟩, done, checks⟩ := Option.map_eq_some_iff.mp ran
  obtain ⟨running, rfl, runs, found, made, result⟩ := of_decide_eq_true checks
  refine ⟨k, opened, runOn_reachable computed, by decide +kernel, running, opens, fun enumerates => ?_⟩
  have name := (enumerates.names events later (runWhere_path path) 0 2 mb128 ret next runs found done
    (by rw [made]; decide +kernel)).1
  rw [made] at name
  have length : ((directoryImage 2).slotName 2).length = 32 := by decide +kernel
  rw [length] at name
  cases result.symm.trans name

theorem enumerates_untyped :
    ∃ k opened, Reachable (step (directoryImage 0)) (Booted (directoryImage 0)) k ∧
      k.openCall (directoryImage 0) 0 directoryName = some (2, opened) ∧
      Enumerates (directoryImage 0) 0 2 opened := by
  let image := directoryImage 0
  have ran : ((image.readDentryByName (textOf directoryName)).bind fun dentry =>
      (runOn image [.firstShell noStale]).bind fun k =>
        (k.openCall image 0 directoryName).map fun opens =>
          decide (dentry.type = 1 ∧ k.running = some 0 ∧ opens.1 = 2)) = some true := by
    decide +kernel
  obtain ⟨dentry, found, ran⟩ := Option.bind_eq_some_iff.mp ran
  obtain ⟨k, computed, ran⟩ := Option.bind_eq_some_iff.mp ran
  obtain ⟨⟨fd, opened⟩, opens, checks⟩ := Option.map_eq_some_iff.mp ran
  obtain ⟨directory, running, rfl⟩ := of_decide_eq_true checks
  refine ⟨k, opened, runOn_reachable computed, opens, (enumerates_iff (by decide +kernel)
    (runOn_reachable computed) running found directory opens).mpr ?_⟩
  have readable : ∀ slot, slot < image.entryCount → (slot < image.numInodes.toNat ∧
      ((image.slotName slot).length = nameSize → (image.slotEntry slot).type.toUInt8 = 0)) ∧
      Contains image slot := by
    decide +kernel
  exact fun slot used => ⟨⟨(readable slot used).1.1, (readable slot used).1.2⟩, (readable slot used).2⟩

end Kernel

end G29Os
