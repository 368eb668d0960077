import G29Os.ImageReads

/-!
The position of an open regular file is the sum of what the reads on it returned, and a program
that reads until it gets 0 has then got the whole file, if the kernel maps what the reads touch.
-/

namespace G29Os

open StepRun

open Kernel (Served)

/-! ### Accounts of a file of `size` bytes -/

def total (log : List Served) : Int := (log.map Served.ret).sum

@[simp] theorem total_cons (call : Served) (log : List Served) :
    total (call :: log) = call.ret + total log := by
  simp [total]

/-- Each read, the latest first, returned what was asked for, or what was left. -/
inductive Accounted (size : Int) : List Served → Prop
  | nil : Accounted size []
  | read {log : List Served} {nbytes : Int} (nonneg : 0 ≤ nbytes) (before : Accounted size log) :
      Accounted size ({ nbytes := nbytes, ret := min nbytes (size - total log) } :: log)

variable {size : Int} {log : List Served}

theorem Accounted.total_bounds (accounted : Accounted size log) (nonneg : 0 ≤ size) :
    0 ≤ total log ∧ total log ≤ size := by
  induction accounted with
  | nil => exact ⟨Int.le_refl 0, nonneg⟩
  | read asked before ih =>
      rw [total_cons]
      dsimp only
      omega

theorem Accounted.length_le (accounted : Accounted size log) (nonneg : 0 ≤ size)
    (moving : ∀ call ∈ log, call.ret ≠ 0) : (log.length : Int) ≤ total log := by
  induction accounted with
  | nil => exact Int.le_refl 0
  | @read log nbytes asked before ih =>
      have bounds := before.total_bounds nonneg
      have earlier := ih fun call listed => moving call (List.mem_cons_of_mem _ listed)
      have last := moving _ List.mem_cons_self
      rw [List.length_cons, total_cons]
      dsimp only at last ⊢
      omega

theorem Accounted.ended_iff {call : Served} (accounted : Accounted size (call :: log))
    (nonneg : 0 ≤ size) (asked : 0 < call.nbytes) : call.ret = 0 ↔ total log = size := by
  cases accounted with
  | read _ before =>
      have bounds := before.total_bounds nonneg
      dsimp only at asked ⊢
      omega

/-! ### One read -/

namespace Image

/-- The boot block and the inodes lie below the end of the 32-bit address space. -/
def InsideMemory (image : Image) : Prop :=
  image.boot.toNat + 4096 * (image.numInodes.toNat + 1) ≤ 4294967296

instance (image : Image) : Decidable image.InsideMemory := inferInstanceAs (Decidable (_ ≤ _))

variable {image : Image} {inode : UInt32}

theorem toNat_inodePtr (inside : image.InsideMemory) (listed : inode < image.numInodes) :
    (image.inodePtr inode).toNat = image.boot.toNat + 4096 * (inode.toNat + 1) := by
  have below := UInt32.lt_iff_toNat_lt.mp listed
  rw [InsideMemory] at inside
  have one : (1 : UInt32).toNat = 1 := rfl
  simp only [inodePtr, UInt32.toNat_add, UInt32.toNat_mul, toNat_block, one]
  omega

theorem inodePtr_ne_null (inside : image.InsideMemory) (listed : inode < image.numInodes) :
    image.inodePtr inode ≠ 0 := by
  intro null
  have place := toNat_inodePtr inside listed
  rw [null] at place
  have zero : (0 : UInt32).toNat = 0 := rfl
  omega

theorem inodePtr_recovered (inside : image.InsideMemory) (listed : inode < image.numInodes) :
    (image.inodePtr inode - image.boot) / block - 1 = inode := by
  have below := UInt32.lt_iff_toNat_lt.mp listed
  rw [InsideMemory] at inside
  have one : (1 : UInt32).toNat = 1 := rfl
  have offset : image.inodePtr inode - image.boot = block * (inode + 1) := by
    rw [inodePtr, UInt32.add_comm, UInt32.add_sub_cancel]
  apply UInt32.toNat_inj.mp
  have next : (inode + 1).toNat = inode.toNat + 1 := by
    rw [UInt32.toNat_add, one]
    omega
  have quotient : (block * (inode + 1) / block).toNat = inode.toNat + 1 := by
    rw [UInt32.toNat_div, UInt32.toNat_mul, next, toNat_block]
    omega
  have atLeast : (1 : UInt32) ≤ block * (inode + 1) / block := by
    rw [UInt32.le_iff_toNat_le, quotient, one]
    omega
  rw [offset, UInt32.toNat_sub_of_le _ _ atLeast, quotient, one]
  omega

end Image

theorem readPlan_min {fileLength offset length : UInt32} (small : fileLength.toNat ≤ 4096 * 1023)
    (within : offset.toNat ≤ fileLength.toNat) (noWrap : offset.toNat + length.toNat < 2 ^ 32) :
    (readPlan fileLength offset length).1.toNat = min length.toNat (fileLength.toNat - offset.toNat) := by
  by_cases inside : offset.toNat + length.toNat ≤ fileLength.toNat
  · rw [readPlan_inside inside]
    dsimp only
    omega
  · have left : (fileLength - offset).toNat = fileLength.toNat - offset.toNat :=
      UInt32.toNat_sub_of_le _ _ (UInt32.le_iff_toNat_le.mpr within)
    rw [readPlan_pastEnd small within (by omega) noWrap]
    simp only [left]
    omega

def ReadCount (nbytes : Int) : Prop := 0 ≤ nbytes ∧ nbytes < 2147483648

instance : DecidablePred ReadCount := fun _ => inferInstanceAs (Decidable (_ ∧ _))

def fileEntry (image : Image) (inode position : UInt32) : Fd where
  fopsPtr := some .file
  inodePtr := image.inodePtr inode
  filePosition := position
  flags := true

structure Supplies (image : Image) (inode position : UInt32) (nbytes : Int) (read : FsRead) : Prop where
  ret : read.ret = min nbytes ((image.inodeLength inode).toNat - position.toNat)
  count : (read.bytes.length : Int) = read.ret
  entry : ∃ moved : UInt32, read.entry = fileEntry image inode moved ∧
    (moved.toNat : Int) = position.toNat + read.ret

theorem fsRead_supplies {image : Image} {inode position : UInt32} {nbytes : Int}
    (inside : image.InsideMemory) (listed : inode < image.numInodes)
    (small : (image.inodeLength inode).toNat ≤ 4096 * 1023)
    (within : position.toNat ≤ (image.inodeLength inode).toNat) (count : ReadCount nbytes) :
    Supplies image inode position nbytes (fsRead image nbytes (fileEntry image inode position)) := by
  obtain ⟨nonneg, int32⟩ := count
  have pointer := Image.inodePtr_ne_null inside listed
  have recovered := Image.inodePtr_recovered inside listed
  have notDirectory : ¬(fileEntry image inode position).inodePtr = 0 := pointer
  rw [fsRead, if_neg notDirectory]
  simp only [fileEntry, recovered]
  split
  · rename_i ended
    have last := UInt32.le_iff_toNat_le.mp ended
    rw [← Image.inodeLength] at last
    refine ⟨?_, rfl, position, rfl, ?_⟩
    · dsimp only
      omega
    · dsimp only
      omega
  · rename_i before
    have left : position < image.inodeLength inode := UInt32.not_le.mp before
    have unread : position ≠ image.inodeLength inode := UInt32.ne_of_lt left
    generalize request : UInt32.ofNat (nbytes % 4294967296).toNat = length
    have asked : (length.toNat : Int) = nbytes := by
      rw [← request, UInt32.toNat_ofNat_of_lt' (by change _ < 2 ^ 32; omega)]
      omega
    obtain ⟨ret, written, -⟩ := readData_closed image inode position length (fun _ => 0) small unread
    have plan := readPlan_min small within (by omega : position.toNat + length.toNat < 2 ^ 32)
    rw [← ret] at plan written
    generalize readData image inode position (fun _ => 0) length = result at plan written ⊢
    have small32 : result.ret.toNat < 2147483648 := by omega
    have value := asInt32_small small32
    have notFailed : ¬result.ret = -1 := by
      intro failed
      rw [failed] at small32
      exact absurd small32 (by decide)
    have sum : (position + result.ret).toNat = position.toNat + result.ret.toNat := by
      rw [UInt32.toNat_add]
      omega
    rw [if_neg notFailed]
    refine ⟨?_, ?_, position + result.ret, rfl, ?_⟩
    · dsimp only
      omega
    · dsimp only
      rw [List.length_map, List.length_range, written, value]
    · dsimp only
      omega

/-! ### Any run of reads -/

namespace Kernel

variable {image : Image} {k later : Kernel} {process : Slot} {index : Fin 8}

structure PositionLaw (image : Image) (process : Slot) (index : Fin 8) (inode : UInt32) (later : Kernel)
    (log : List Served) : Prop where
  recovered : ((later.descriptor process index).inodePtr - image.boot) / block - 1 = inode
  position : ((later.descriptor process index).filePosition.toNat : Int) = total log
  inFile : (later.descriptor process index).filePosition.toNat ≤ (image.inodeLength inode).toNat
  accounted : Accounted (image.inodeLength inode).toNat log
  returns : ∀ caller fd buf nbytes, later.running = some caller →
    later.finds process index fd = true → ReadCount nbytes →
      mb128 ≤ buf → buf + nbytes.toNat ≤ mb128 + mb4 →
        ((later.mappedRead image caller fd buf nbytes).isSome ↔
          ∀ span ∈ fsReadSpans image nbytes (later.descriptor process index), span.Mapped)
  returned : ∀ caller fd buf nbytes ret next, later.running = some caller →
    later.finds process index fd = true → ReadCount nbytes →
      later.mappedRead image caller fd buf nbytes = some (ret, next) →
        ret = some (min nbytes ((image.inodeLength inode).toNat -
          (later.descriptor process index).filePosition.toNat))
  ends : (∀ call ∈ log, call.ret ≠ 0) → log.length ≤ (image.inodeLength inode).toNat
  ended : ∀ call before, log = call :: before → 0 < call.nbytes →
    (call.ret = 0 ↔ total before = (image.inodeLength inode).toNat)

theorem readEntry_found {caller : Slot} {fd : Int} (running : later.running = some caller)
    (found : later.finds process index fd = true) :
    later.readEntry caller fd = some (later.descriptor process index) := by
  obtain ⟨other, used, file, owner⟩ := (finds_iff running).mp found
  have dispatch : ((later.pcbs caller).fileArray index).fopsPtr = some .file := file
  rw [readEntry, if_neg other, used, Option.bind_some, if_pos dispatch, owner]
  rfl

theorem mappedRead_found {caller : Slot} {fd nbytes : Int} {buf : Nat} (running : later.running = some caller)
    (found : later.finds process index fd = true) (regular : (later.descriptor process index).inodePtr ≠ 0) :
    later.mappedRead image caller fd buf nbytes =
      if later.seesAll (fsReadSpans image nbytes (later.descriptor process index)) then
        later.systemRead image caller fd buf nbytes
      else none := by
  have contained : later.readContained image caller fd :=
    (readContained_found running found).mpr fun directory => absurd directory regular
  rw [mappedRead, readEntry_found running found, readCall, if_pos contained]

theorem positionLaw {inode : UInt32} {log : List Served} (owning : Owning process index later)
    (inside : image.InsideMemory) (listed : inode < image.numInodes)
    (small : (image.inodeLength inode).toNat ≤ 4096 * 1023)
    (entry : ∃ position, later.descriptor process index = fileEntry image inode position ∧
      (position.toNat : Int) = total log)
    (accounted : Accounted (image.inodeLength inode).toNat log) :
    PositionLaw image process index inode later log := by
  obtain ⟨position, entry, sum⟩ := entry
  have bounds := accounted.total_bounds (Int.natCast_nonneg _)
  have within : position.toNat ≤ (image.inodeLength inode).toNat := by omega
  have regular : (later.descriptor process index).inodePtr ≠ 0 := by
    rw [entry]
    exact Image.inodePtr_ne_null inside listed
  have supplies {nbytes : Int} (count : ReadCount nbytes) :=
    fsRead_supplies inside listed small within count
  refine ⟨?_, ?_, ?_, accounted, ?_, ?_, ?_, ?_⟩
  · rw [entry]
    exact Image.inodePtr_recovered inside listed
  · rw [entry]
    exact sum
  · rw [entry]
    exact within
  · intro caller fd buf nbytes running found count low fits
    have read := supplies count
    obtain ⟨offset, rfl⟩ := Nat.exists_eq_add_of_le low
    have counted := read.count
    have returned := read.ret
    obtain ⟨mem, stored⟩ := owning.sound.storeBytes_page (running_foreground running)
      (by omega : offset + (fsRead image nbytes (fileEntry image inode position)).bytes.length ≤ mb4)
    have answered : (later.systemRead image caller fd (mb128 + offset) nbytes).isSome := by
      rw [systemRead_found running found, entry, stored]
      rfl
    rw [mappedRead_found running found regular, ← seesAll_iff owning.sound (running_foreground running)]
    split
    · exact ⟨fun _ => ‹_›, fun _ => answered⟩
    · rename_i unseen
      exact ⟨fun absent => (by cases absent), fun seen => absurd seen unseen⟩
  · intro caller fd buf nbytes ret next running found count done
    rw [mappedRead_found running found regular] at done
    split at done
    · rw [systemRead_found running found, entry] at done
      obtain ⟨stored, -, same⟩ := Option.map_eq_some_iff.mp done
      cases same
      rw [entry, (supplies count).ret]
      rfl
    · cases done
  · intro moving
    have most := accounted.length_le (Int.natCast_nonneg _) moving
    omega
  · rintro call before rfl asked
    exact accounted.ended_iff (Int.natCast_nonneg _) asked

/-- While no other process opens a file, whatever else happens, the reads on the descriptor of a
regular file are accounted for by its position, and the next one returns if and only if the kernel maps
what it reads of the image. -/
theorem filePosition_mapped {filename : List UInt8} {dentry : Dentry} {opened : Kernel} {events : List Event}
    (inside : image.InsideMemory) (reached : Reachable (step image) (Booted image) k)
    (running : k.running = some process)
    (found : image.readDentryByName (textOf filename) = some dentry) (regular : dentry.type = 2)
    (listed : dentry.inode < image.numInodes)
    (small : (image.inodeLength dentry.inode).toNat ≤ 4096 * 1023)
    (opens : k.openCall image process filename = some ((index.val : Int), opened))
    (path : Path (mappedStep image) (Exclusive process index ReadCount) opened events later) :
    PositionLaw image process index dentry.inode later
      (recorded (mappedStep image) (noteServed image process index) opened events []) := by
  have call := (openCall_opened opens).2
  obtain ⟨owning, fresh⟩ := systemOpen_owning reached running found (Or.inr regular) (congrArg Prod.fst call)
  rw [call] at owning fresh
  have start : openedEntry image dentry = fileEntry image dentry.inode 0 := by
    have notDirectory : ¬dentry.type = 1 := by
      rw [regular]
      decide
    rw [openedEntry, if_neg notDirectory, fileEntry]
  let invariant (entry : Fd) (log : List Served) : Prop :=
    (∃ position, entry = fileEntry image dentry.inode position ∧ (position.toNat : Int) = total log) ∧
      Accounted (image.inodeLength dentry.inode).toNat log
  have keeps : ∀ entry log nbytes, ReadCount nbytes → invariant entry log →
      invariant (fsRead image nbytes entry).entry
        ({ nbytes := nbytes, ret := (fsRead image nbytes entry).ret } :: log) := by
    rintro _ log nbytes count ⟨⟨position, rfl, sum⟩, accounted⟩
    have bounds := accounted.total_bounds (Int.natCast_nonneg _)
    have within : position.toNat ≤ (image.inodeLength dentry.inode).toNat := by omega
    have read := fsRead_supplies inside listed small within count
    obtain ⟨moved, entry, place⟩ := read.entry
    refine ⟨⟨moved, entry, ?_⟩, ?_⟩
    · rw [place, total_cons]
      dsimp only
      omega
    · rw [read.ret, sum]
      exact Accounted.read count.1 accounted
  have initial : invariant (opened.descriptor process index) [] :=
    ⟨⟨0, fresh.trans start, rfl⟩, Accounted.nil⟩
  have refines := fun (k : Kernel) event next => @mappedStep_step image k next event
  obtain ⟨owning', entry, accounted⟩ := owning.path invariant keeps initial (path.restricted refines)
  rw [path.recorded_restricted refines]
  exact positionLaw owning' inside listed small entry accounted

theorem filePosition_shell :
    ∃ (k later : Kernel) (log : List Served), Reachable (step smallImage) (Booted smallImage) k ∧
      log.map Served.ret = [0, 1, 0, 3] ∧ PositionLaw smallImage 0 2 0 later log := by
  let events : List Event :=
    [.read 2 mb128 3, .read 2 mb128 0] ++ keys [alt, f2, f1] ++ [.read 2 mb128 5, .read 2 mb128 5]
  have ran : ((smallImage.readDentryByName (textOf shellName)).bind fun dentry =>
      (runSmall [.firstShell noStale]).bind fun k =>
        (k.openCall smallImage 0 shellName).bind fun opened =>
          (runWhere (step smallImage)
            (fun k event => Exclusive 0 2 ReadCount k event ∧ ReadsMapped smallImage k event)
            opened.2 events).map fun _ =>
              decide (dentry.type = 2 ∧ dentry.inode = 0 ∧ k.running = some 0 ∧ opened.1 = 2 ∧
                (recorded (step smallImage) (noteServed smallImage 0 2) opened.2 events []).map Served.ret =
                  [0, 1, 0, 3])) =
      some true := by
    decide +kernel
  obtain ⟨dentry, found, ran⟩ := Option.bind_eq_some_iff.mp ran
  obtain ⟨k, computed, ran⟩ := Option.bind_eq_some_iff.mp ran
  obtain ⟨⟨fd, opened⟩, opens, ran⟩ := Option.bind_eq_some_iff.mp ran
  obtain ⟨later, ran, checks⟩ := Option.map_eq_some_iff.mp ran
  obtain ⟨regular, inode, running, rfl, served⟩ := of_decide_eq_true checks
  have reached := runSmall_reachable computed
  have call := (openCall_opened opens).2
  obtain ⟨owning, -⟩ := @systemOpen_owning _ k 0 2 _ _ reached running found (Or.inr regular)
    (congrArg Prod.fst call)
  rw [call] at owning
  have path := owning.sound.mappedPath (runWhere_path ran)
  have law := @filePosition_mapped smallImage k later 0 2 shellName dentry opened events
    (by decide +kernel) reached running found regular (by rw [inode]; decide +kernel)
    (by rw [inode]; decide +kernel) opens path
  rw [path.recorded_restricted fun (k : Kernel) event next => @mappedStep_step smallImage k next event] at law
  exact ⟨k, later, _, reached, served, inode ▸ law⟩

/-- 1100 data blocks behind a boot block at 0x420000. The file `far` has its one block at 0x80B000. -/
def farImage : Image where
  boot := 0x420000
  mem address := (List.lookup (address - 0x420000)
    [(0, 2), (4, 2), (8, 0x4C), (9, 4), (64, 0x73), (65, 0x68), (66, 0x65), (67, 0x6C), (68, 0x6C), (96, 2),
      (128, 0x66), (129, 0x61), (130, 0x72), (160, 2), (164, 1), (4096, 4), (8192, 4), (8196, 0xE8),
      (8197, 3), (12288, 0x7F), (12289, 0x45), (12290, 0x4C), (12291, 0x46)]).getD 0

def farName : List UInt8 := ascii ['f', 'a', 'r']

/-- The first read of the four bytes of `far` faults. -/
theorem filePosition_unmapped : ∃ (k opened : Kernel) (dentry : Dentry),
    Reachable (step farImage) (Booted farImage) k ∧ farImage.InsideMemory ∧ k.running = some 0 ∧
      farImage.readDentryByName (textOf farName) = some dentry ∧ dentry.type = 2 ∧
      dentry.inode < farImage.numInodes ∧ farImage.inodeLength dentry.inode = 4 ∧
      k.openCall farImage 0 farName = some (2, opened) ∧ opened.finds 0 2 2 = true ∧
      (opened.mappedRead farImage 0 2 mb128 4).isNone = true := by
  have ran : ((farImage.readDentryByName (textOf farName)).bind fun dentry =>
      (runOn farImage [.firstShell noStale]).bind fun k =>
        (k.openCall farImage 0 farName).map fun opened =>
          decide (dentry.type = 2 ∧ dentry.inode < farImage.numInodes ∧ farImage.inodeLength dentry.inode = 4 ∧
            k.running = some 0 ∧ opened.1 = 2 ∧ opened.2.finds 0 2 2 = true ∧
            (opened.2.mappedRead farImage 0 2 mb128 4).isNone = true)) =
      some true := by
    decide +kernel
  obtain ⟨dentry, found, ran⟩ := Option.bind_eq_some_iff.mp ran
  obtain ⟨k, computed, ran⟩ := Option.bind_eq_some_iff.mp ran
  obtain ⟨⟨fd, opened⟩, opens, checks⟩ := Option.map_eq_some_iff.mp ran
  obtain ⟨regular, listed, size, running, rfl, finds, faults⟩ := of_decide_eq_true checks
  exact ⟨k, opened, dentry, runOn_reachable computed, by decide +kernel, running, found, regular, listed, size,
    opens, finds, faults⟩

end Kernel

end G29Os
