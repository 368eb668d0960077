import G29Os.DescriptorReads

/-!
Which bytes of the file-system image a step touches, and the step as the processor makes it: the image is
there only where the kernel maps memory to itself.
-/

namespace G29Os

open BoundedLoop PageTables StepRun

structure Span where
  start : UInt32
  count : Nat
  deriving DecidableEq

namespace Span

def byte (span : Span) (j : Nat) : UInt32 := span.start + UInt32.ofNat j

/-- All of it lies from 4 KB to 8 MB, which the kernel maps to itself. -/
def Mapped (span : Span) : Prop :=
  ∀ j < span.count, 4096 ≤ (span.byte j).toNat ∧ (span.byte j).toNat < 2 * mb4

theorem mapped_iff {span : Span} :
    span.Mapped ↔ span.count = 0 ∨ 4096 ≤ span.start.toNat ∧ span.start.toNat + span.count ≤ 2 * mb4 := by
  have small : 2 * mb4 = 8388608 := rfl
  constructor
  · intro mapped
    rcases Nat.eq_zero_or_pos span.count with none | some
    · exact Or.inl none
    · -- no byte before the last is the end of the space, so none of them wraps
      have straight (j : Nat) (inside : j < span.count) : (span.byte j).toNat = span.start.toNat + j := by
        induction j with
        | zero => exact congrArg UInt32.toNat (UInt32.add_zero _)
        | succ j ih =>
            have before := ih (by omega)
            have below := (mapped j (by omega)).2
            have next : span.byte (j + 1) = span.byte j + 1 := by
              simp only [byte, UInt32.ofNat_add, UInt32.add_assoc]
              rfl
            rw [next, UInt32.toNat_add, before, show (1 : UInt32).toNat = 1 from rfl]
            omega
      have first := mapped 0 some
      have last := mapped (span.count - 1) (by omega)
      rw [straight _ some] at first
      rw [straight _ (by omega)] at last
      exact Or.inr ⟨by omega, by omega⟩
  · rintro (none | ⟨low, high⟩) j inside
    · omega
    · have place : (span.byte j).toNat = span.start.toNat + j := by
        rw [byte, UInt32.toNat_add, UInt32.toNat_ofNat']
        omega
      omega

instance : DecidablePred Mapped := fun _ => decidable_of_iff _ mapped_iff.symm

end Span

namespace Image

def lengthSpan (image : Image) (inode : UInt32) : Span := ⟨image.inodePtr inode, 4⟩

def blockSpan (image : Image) (inode : UInt32) (i : Nat) : Span :=
  ⟨image.inodePtr inode + 4 + 4 * UInt32.ofNat i, 4⟩

def dataSpan (image : Image) (inode : UInt32) (i : Nat) (offset : UInt32) (count : Nat) : Span :=
  ⟨image.data + kb4 * image.inodeBlock inode i + offset, count⟩

/-- The boot block, and what a copy of the reserved bytes of its last entry can run on into. -/
def lookSpan (image : Image) : Span := ⟨image.boot, 4096 + lineBuffer⟩

def entrySpan (image : Image) (index : UInt32) : Span :=
  ⟨image.boot + 64 + 64 * index, dentrySize + readDirRoom⟩

end Image

def stepSpans (image : Image) (inode : UInt32) (state : CopyState) : List Span :=
  [image.blockSpan inode state.i, image.dataSpan inode state.i state.offset
    (if state.blockCount > 0 then (kb4 - state.offset).toNat else state.bytesToRead.toNat)]

def copySpans (image : Image) (inode : UInt32) : Nat → CopyState → List Span
  | 0, _ => []
  | fuel + 1, state =>
      if state.bytesToRead > 0 then
        stepSpans image inode state ++ copySpans image inode fuel (copyStep image inode state)
      else []

def readDataSpans (image : Image) (inode offset length : UInt32) : List Span :=
  let fileLength := image.inodeLength inode
  image.lengthSpan inode ::
    if fileLength - offset ≤ 0 then []
    else if fileLength > kb4 * inodeBlocks then []
    else
      let (bytesToRead, blockCount) := readPlan fileLength offset length
      let start := skipBlocks
        { i := 0, blockCount := blockCount.toNat, offset := offset, bytesToRead := bytesToRead,
          bufStart := 0, buf := fun _ => 0, written := 0, used := [] }
      copySpans image inode (start.blockCount.toNat + 1) start

def readDirSpans (image : Image) (position : UInt32) : List Span :=
  ⟨image.boot, 64⟩ :: if position ≥ image.numDirectoryEntry then [] else [image.entrySpan position]

def fsReadSpans (image : Image) (nbytes : Int) (entry : Fd) : List Span :=
  if entry.inodePtr = 0 then readDirSpans image entry.filePosition
  else
    ⟨entry.inodePtr, 4⟩ ::
      if entry.filePosition ≥ image.word entry.inodePtr then []
      else readDataSpans image ((entry.inodePtr - image.boot) / block - 1) entry.filePosition
        (UInt32.ofNat (nbytes % 4294967296).toNat)

/-! ### Nothing else is read -/

namespace Image

variable {image other : Image} {inode : UInt32}

structure Agree (image other : Image) (spans : List Span) : Prop where
  boot : other.boot = image.boot
  data : other.data = image.data
  bytes : ∀ span ∈ spans, ∀ j < span.count, other.mem (span.byte j) = image.mem (span.byte j)

theorem Agree.mono {spans fewer : List Span} (agree : Agree image other spans)
    (some : ∀ span ∈ fewer, span ∈ spans) : Agree image other fewer :=
  ⟨agree.boot, agree.data, fun span listed => agree.bytes span (some span listed)⟩

theorem Agree.word {spans : List Span} {address : UInt32} (agree : Agree image other spans)
    (listed : ⟨address, 4⟩ ∈ spans) : other.word address = image.word address := by
  have first : other.mem (address + 0) = image.mem (address + 0) := agree.bytes _ listed 0 (show 0 < 4 by decide)
  rw [UInt32.add_zero] at first
  have second : other.mem (address + 1) = image.mem (address + 1) := agree.bytes _ listed 1 (show 1 < 4 by decide)
  have third : other.mem (address + 2) = image.mem (address + 2) := agree.bytes _ listed 2 (show 2 < 4 by decide)
  have fourth : other.mem (address + 3) = image.mem (address + 3) := agree.bytes _ listed 3 (show 3 < 4 by decide)
  rw [Image.word, Image.word, first, second, third, fourth]

theorem Agree.inodePtr {spans : List Span} (agree : Agree image other spans) :
    other.inodePtr inode = image.inodePtr inode := by
  rw [Image.inodePtr, Image.inodePtr, agree.boot]

theorem Agree.inodeLength {spans : List Span} (agree : Agree image other spans)
    (listed : image.lengthSpan inode ∈ spans) : other.inodeLength inode = image.inodeLength inode := by
  rw [Image.inodeLength, Image.inodeLength, agree.inodePtr]
  exact agree.word listed

theorem Agree.copyStep {state : CopyState} {spans : List Span} (agree : Agree image other spans)
    (listed : ∀ span ∈ stepSpans image inode state, span ∈ spans) :
    G29Os.copyStep other inode state = G29Os.copyStep image inode state := by
  have number : other.inodeBlock inode state.i = image.inodeBlock inode state.i := by
    rw [Image.inodeBlock, Image.inodeBlock, agree.inodePtr]
    exact agree.word (listed _ List.mem_cons_self)
  have source := agree.bytes _ (listed _ (List.mem_cons_of_mem _ List.mem_cons_self))
  have copied {count j : Nat} (below : j < count)
      (counted : (if state.blockCount > 0 then (kb4 - state.offset).toNat else state.bytesToRead.toNat) = count) :
      other.dataByte (other.inodeBlock inode state.i) (state.offset.toNat + j) =
        image.dataByte (image.inodeBlock inode state.i) (state.offset.toNat + j) := by
    have place : image.data + kb4 * image.inodeBlock inode state.i + UInt32.ofNat (state.offset.toNat + j) =
        (image.dataSpan inode state.i state.offset count).byte j := by
      simp only [Span.byte, Image.dataSpan, UInt32.ofNat_add, UInt32.ofNat_toNat, UInt32.add_assoc]
    rw [Image.dataByte, Image.dataByte, number, agree.data, place, ← counted]
    exact source j (counted ▸ below)
  rw [G29Os.copyStep, G29Os.copyStep]
  by_cases more : state.blockCount > 0
  · rw [if_pos more, if_pos more, copyBlock, copyBlock]
    congr 1
    exact ByteRange.writeRange_congr fun j below => copied below (if_pos more)
  · rw [if_neg more, if_neg more, copyTail, copyTail]
    congr 1
    exact ByteRange.writeRange_congr fun j below => copied below (if_neg more)

theorem Agree.copySpans {fuel : Nat} {state : CopyState} {spans : List Span} (agree : Agree image other spans)
    (listed : ∀ span ∈ G29Os.copySpans image inode fuel state, span ∈ spans) :
    whileLoop (fun current => decide (current.bytesToRead > 0)) (G29Os.copyStep other inode) fuel state =
      whileLoop (fun current => decide (current.bytesToRead > 0)) (G29Os.copyStep image inode) fuel state := by
  induction fuel generalizing state with
  | zero => rfl
  | succ fuel ih =>
      by_cases pending : state.bytesToRead > 0
      · rw [G29Os.copySpans, if_pos pending] at listed
        have same := agree.copyStep fun span first => listed span (List.mem_append_left _ first)
        simp only [whileLoop, pending, decide_true, if_true, same]
        exact ih fun span later => listed span (List.mem_append_right _ later)
      · simp only [whileLoop, pending, decide_false, Bool.false_eq_true, if_false]

theorem Agree.readData {offset length : UInt32}
    (agree : Agree image other (readDataSpans image inode offset length)) :
    G29Os.readData other inode offset (fun _ => 0) length = G29Os.readData image inode offset (fun _ => 0) length := by
  have same := agree.inodeLength (List.mem_cons_self : image.lengthSpan inode ∈ _)
  rw [readDataSpans] at agree
  rw [G29Os.readData, G29Os.readData, same]
  dsimp only at agree ⊢
  split
  · rfl
  · rename_i left
    rw [if_neg left] at agree
    split
    · rfl
    · rename_i small
      rw [if_neg small] at agree
      simp only [copyBlocks]
      rw [agree.copySpans fun span listed => List.mem_cons_of_mem _ listed]

theorem Agree.fsRead {nbytes : Int} {entry : Fd} (agree : Agree image other (fsReadSpans image nbytes entry))
    (regular : entry.inodePtr ≠ 0) : G29Os.fsRead other nbytes entry = G29Os.fsRead image nbytes entry := by
  rw [fsReadSpans, if_neg regular] at agree
  rw [G29Os.fsRead, G29Os.fsRead, if_neg regular, if_neg regular, agree.word List.mem_cons_self, agree.boot]
  by_cases ended : entry.filePosition ≥ image.word entry.inodePtr
  · rw [if_pos ended, if_pos ended]
  · rw [if_neg ended] at agree
    have same := Agree.readData (agree.mono fun span listed => List.mem_cons_of_mem _ listed)
    rw [if_neg ended, if_neg ended]
    dsimp only
    rw [same]

end Image

/-! ### The step as the processor makes it -/

namespace Kernel

variable {image : Image} {k next : Kernel} {process : Slot} {fd nbytes : Int} {buf : Nat}

def loadSpans (image : Image) (inode length : UInt32) : List Span :=
  image.lengthSpan inode :: readDataSpans image inode 0 length

def executeSpans (image : Image) (command : List UInt8) (stale : Stale) (k : Kernel) : List Span :=
  let name := commandName command
  image.lookSpan ::
    match image.readDentryByName (textOf name) with
    | none => []
    | some dentry =>
        readDataSpans image dentry.inode 0 elfSize ++
          match findProgram image name stale.fileHeader, k.freeSlot with
          | some _, some _ => loadSpans image dentry.inode (image.inodeLength dentry.inode)
          | _, _ => []

def switchSpans (image : Image) (target : TerminalId) (stale : Dentry) (k : Kernel) : List Span :=
  if k.numProgs target = 0 then loadSpans image k.shell.dentry.inode k.shell.fileLength
  else
    match k.currPcb target with
    | none => []
    | some process =>
        let dentry := k.programDentry image process stale
        image.lookSpan :: loadSpans image dentry.inode (image.inodeLength dentry.inode)

def eventSpans (image : Image) (k : Kernel) : Event → List Span
  | .key code _ stale =>
      match k.tty.keyboardHandler code with
      | .returned _ => []
      | .switched target _ => k.switchSpans image target stale
  | .firstShell stale => k.executeSpans image shellName stale
  | .execute command stale => k.executeSpans image command stale
  | .halt stale =>
      match k.running with
      | none => []
      | some process =>
          match (k.pcbs process).parentPtr with
          | none => (k.endProcess process).executeSpans image shellName stale
          | some _ => []
  | .read fd _ nbytes =>
      match k.running.bind fun process => k.readEntry process fd with
      | none => []
      | some entry => fsReadSpans image nbytes entry
  | .open _ => [image.lookSpan]
  | .rtcTick | .readAccess | .write .. | .close _ | .getargs .. | .vidmap _ | .store .. => []

/-- The walk comes to the byte of the image that lies at the address. -/
def sees (address : UInt32) (k : Kernel) : Bool :=
  decide (k.paging.walk k.cr3 address.toNat = some address.toNat)

def seesAll (spans : List Span) (k : Kernel) : Prop :=
  ∀ span ∈ spans, ∀ j < span.count, k.sees (span.byte j) = true

instance (spans : List Span) (k : Kernel) : Decidable (k.seesAll spans) :=
  inferInstanceAs (Decidable (∀ _ ∈ _, _))

theorem seesAll_nil : k.seesAll [] := fun _ absent => absurd absent List.not_mem_nil

/-- `system_read` where the image is not mapped everywhere: elsewhere a page fault ends the read, or, in
the program's page, it comes to bytes that are not the image's. -/
def mappedRead (image : Image) (process : Slot) (fd : Int) (buf : Nat) (nbytes : Int) (k : Kernel) :
    Option (Option Int × Kernel) :=
  match k.readEntry process fd with
  | none => k.readCall image process fd buf nbytes
  | some entry =>
      if k.seesAll (fsReadSpans image nbytes entry) then k.readCall image process fd buf nbytes else none

/-- A step that reads the image where it is not mapped ends in the handler of the page fault. -/
def mappedStep (image : Image) (k : Kernel) (event : Event) : Option Kernel :=
  if k.seesAll (k.eventSpans image event) then k.step image event else none

theorem mappedStep_step {event : Event} (done : k.mappedStep image event = some next) :
    k.step image event = some next := by
  rw [mappedStep] at done
  split at done
  · exact done
  · cases done

theorem path_mapped {allowed : Kernel → Event → Prop} {events : List Event}
    (path : Path (mappedStep image) allowed k events next) : Path (step image) allowed k events next :=
  path.restricted fun (k : Kernel) event next => @mappedStep_step image k next event

theorem mappedStep_read (running : k.running = some process) : k.mappedStep image (.read fd buf nbytes) =
    (k.mappedRead image process fd buf nbytes).map Prod.snd := by
  have spans : k.eventSpans image (.read fd buf nbytes) =
      match k.readEntry process fd with
      | none => []
      | some entry => fsReadSpans image nbytes entry := by
    rw [eventSpans, running, Option.bind_some]
  have done : k.step image (.read fd buf nbytes) = (k.readCall image process fd buf nbytes).map Prod.snd := by
    simp only [step, running, Option.bind_some, programEvent]
  rw [mappedStep, spans, done, mappedRead]
  cases k.readEntry process fd with
  | none => exact if_pos seesAll_nil
  | some entry =>
      dsimp only
      split
      · rfl
      · rfl

theorem sees_mapped (mapped : KernelMapped k.paging) {address : UInt32}
    (inside : 4096 ≤ address.toNat ∧ address.toNat < 2 * mb4) : k.sees address = true := by
  rw [sees, decide_eq_true_iff]
  rcases Nat.lt_or_ge address.toNat mb4 with low | high
  · rw [walk_lower mapped low, if_pos inside.1]
  · exact walk_upper mapped high inside.2

theorem sees_iff (sound : Sound k) (front : k.foreground = some process) (address : UInt32) :
    k.sees address = true ↔ 4096 ≤ address.toNat ∧ address.toNat < 2 * mb4 := by
  refine ⟨fun sees => ?_, sees_mapped sound.mapped.kernel⟩
  have live := (sound.live_foreground front).1
  have bound : address.toNat < 4294967296 := address.toNat_lt
  have slot := process.isLt
  rw [Kernel.sees, decide_eq_true_iff, sound.front process front, sound.mapped.walk live bound,
    PageTables.processSpace] at sees
  generalize address.toNat = v at bound sees
  split at sees
  · rename_i inside
    exact inside
  · rename_i outside
    split at sees
    · -- the frame of a program lies below its page
      have frame := Option.some.inj sees
      simp only [mb4, mb128] at *
      omega
    · cases sees

theorem seesAll_iff (sound : Sound k) (front : k.foreground = some process) {spans : List Span} :
    k.seesAll spans ↔ ∀ span ∈ spans, span.Mapped :=
  forall₂_congr fun _ _ => forall₂_congr fun _ _ => sees_iff sound front _

def ReadsMapped (image : Image) (k : Kernel) (event : Event) : Prop :=
  ∀ span ∈ k.eventSpans image event, span.Mapped

instance (image : Image) (k : Kernel) (event : Event) : Decidable (ReadsMapped image k event) :=
  inferInstanceAs (Decidable (∀ _ ∈ _, _))

theorem mappedStep_mapped (mapped : KernelMapped k.paging) {event : Event} (reads : ReadsMapped image k event) :
    k.mappedStep image event = k.step image event :=
  if_pos fun span listed j inside => sees_mapped mapped (reads span listed j inside)

/-- A run that reads the image where it is mapped goes on for the processor as it does here. -/
theorem Sound.mappedPath {ok : Kernel → Event → Prop} {events : List Event} (sound : Sound k)
    (path : Path (Kernel.step image) (fun k event => ok k event ∧ ReadsMapped image k event) k events next) :
    Path (mappedStep image) ok k events next := by
  induction path with
  | nil k => exact Path.nil k
  | cons allowed taken _ ih =>
      exact Path.cons allowed.1 ((mappedStep_mapped sound.mapped.kernel allowed.2).trans taken) (ih (sound.step taken))

end Kernel

end G29Os
