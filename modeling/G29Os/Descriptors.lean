import G29Os.ProcessSpaces

/-!
Descriptors on files. Every call dispatches through the caller's own table, but `fs_read`
looks its descriptor up in the PCB that `fs_open` saw last.
-/

namespace G29Os

open StepRun

theorem FileArray.firstFree_free {files : FileArray} {fd : Fin 8}
    (found : files.firstFree = some fd) : (files fd).flags = false := by
  have free := List.find?_some found
  simp only [Bool.and_eq_true, Bool.not_eq_eq_eq_not, Bool.not_true] at free
  exact free.2

theorem FileArray.firstFree_bound {files : FileArray} {fd : Fin 8}
    (found : files.firstFree = some fd) : fdBegin ≤ fd.val := by
  have free := List.find?_some found
  simp only [Bool.and_eq_true, decide_eq_true_eq] at free
  exact free.1

namespace FileArray

theorem inUse_index {files : FileArray} {first : Nat} {fd : Int} {index : Fin 8}
    (found : files.inUse first fd = some index) : fd = index.val := by
  rw [inUse] at found
  split at found
  · rename_i bound
    dsimp only at found
    split at found
    · cases found
      exact (Int.toNat_of_nonneg (by omega)).symm
    · cases found
  · cases found

theorem inUse_used {files : FileArray} {index : Fin 8} (used : (files index).flags = true) :
    files.inUse 0 index.val = some index := by
  have bound : ((0 : Nat) : Int) ≤ (index.val : Int) ∧ (index.val : Int) ≤ 7 := by omega
  have same : (⟨(index.val : Int).toNat, by omega⟩ : Fin 8) = index := Fin.ext (Int.toNat_natCast _)
  rw [inUse, dif_pos bound]
  simp only [same, used, if_true]

end FileArray

namespace Kernel

variable {image : Image} {k next middle : Kernel} {process caller slot : Slot} {index : Fin 8}

def descriptor (process : Slot) (index : Fin 8) (k : Kernel) : Fd := (k.pcbs process).fileArray index

/-- A read on an open file finds the caller's own table: the last `fs_open` was the caller's. -/
def ReadsOwn (k : Kernel) : Event → Prop
  | .read fd _ _ => ∀ process index, k.running = some process →
      (k.pcbs process).fileArray.inUse 0 fd = some index →
        (k.descriptor process index).fopsPtr = some .file → k.fsPcb = some process
  | _ => True

def Drops (process : Slot) (index : Fin 8) (k : Kernel) : Event → Prop
  | .close fd => k.running = some process ∧ fd = index.val
  | .halt _ => k.running = some process
  | _ => False

instance (k : Kernel) : (event : Event) → Decidable (ReadsOwn k event)
  | .key .. => isTrue trivial
  | .rtcTick => isTrue trivial
  | .firstShell _ => isTrue trivial
  | .execute .. => isTrue trivial
  | .halt _ => isTrue trivial
  | .read .. => inferInstanceAs (Decidable (∀ _ _, _ → _ → _ → _))
  | .readAccess => isTrue trivial
  | .write .. => isTrue trivial
  | .open _ => isTrue trivial
  | .close _ => isTrue trivial
  | .getargs .. => isTrue trivial
  | .vidmap _ => isTrue trivial
  | .store .. => isTrue trivial

instance (process : Slot) (index : Fin 8) (k : Kernel) :
    (event : Event) → Decidable (Drops process index k event)
  | .key .. => isFalse id
  | .rtcTick => isFalse id
  | .firstShell _ => isFalse id
  | .execute .. => isFalse id
  | .halt _ => inferInstanceAs (Decidable (_ = _))
  | .read .. => isFalse id
  | .readAccess => isFalse id
  | .write .. => isFalse id
  | .open _ => isFalse id
  | .close _ => inferInstanceAs (Decidable (_ ∧ _))
  | .getargs .. => isFalse id
  | .vidmap _ => isFalse id
  | .store .. => isFalse id

def elsewhere (process : Slot) (index : Fin 8) (k : Kernel) : Event → Bool
  | .read fd _ _ => !decide (k.running = some process ∧ fd = index.val)
  | _ => true

def readAlone (image : Image) (entry : Fd) : Event → Fd
  | .read _ _ nbytes => (fsRead image nbytes entry).entry
  | _ => entry

structure Holding (process : Slot) (index : Fin 8) (k : Kernel) : Prop where
  live : k.pcbTrack process = true
  used : (k.descriptor process index).flags = true
  file : (k.descriptor process index).fopsPtr = some .file

structure Undisturbed (process : Slot) (index : Fin 8) (k next : Kernel) : Prop where
  live : next.pcbTrack process = true
  same : next.descriptor process index = k.descriptor process index

theorem Undisturbed.ofPcb (live : next.pcbTrack process = true)
    (same : next.pcbs process = k.pcbs process) : Undisturbed process index k next :=
  ⟨live, congrArg (fun pcb => Pcb.fileArray pcb index) same⟩

theorem Quiet.undisturbed (quiet : Quiet k next) (live : k.pcbTrack process = true) :
    Undisturbed process index k next := by
  have pcbTrack : next.pcbTrack = k.pcbTrack := congrArg ProcessTable.pcbTrack quiet.table
  exact Undisturbed.ofPcb (pcbTrack ▸ live) (by rw [quiet.pcbs])

theorem Launched.undisturbed (launched : Launched k next slot) (live : k.pcbTrack process = true) :
    Undisturbed process index k next := by
  have apart : process ≠ slot := by
    rintro rfl
    rw [launched.free] at live
    cases live
  have pcbTrack : next.pcbTrack = Function.update k.pcbTrack slot true :=
    congrArg ProcessTable.pcbTrack launched.table
  refine Undisturbed.ofPcb ?_ (launched.others process apart)
  rw [pcbTrack, Function.update_of_ne apart]
  exact live

theorem Ended.undisturbed {resumed : Option Slot} (ended : Ended k next caller resumed)
    (sound : Sound k) (apart : process ≠ caller) (live : k.pcbTrack process = true) :
    Undisturbed process index k next := by
  have pcbTrack : next.pcbTrack = Function.update k.pcbTrack (k.pcbs caller).pid false :=
    congrArg ProcessTable.pcbTrack ended.table
  have own : (k.pcbs caller).pid = caller := (sound.live_foreground ended.top).2
  refine Undisturbed.ofPcb ?_ (ended.others process apart)
  rw [pcbTrack, own, Function.update_of_ne apart]
  exact live

theorem Switched.undisturbed {target : TerminalId} (switched : Switched k next target)
    (live : k.pcbTrack process = true) : Undisturbed process index k next :=
  Undisturbed.ofPcb (switched.table_eq.2.2 ▸ live) (by rw [switched.pcbs])

theorem Undisturbed.trans (first : Undisturbed process index k middle)
    (second : Undisturbed process index middle next) : Undisturbed process index k next :=
  ⟨second.live, second.same.trans first.same⟩

theorem descriptor_set {fd : Fin 8} {entry : Fd} (apart : process ≠ caller ∨ index ≠ fd) :
    (k.setFiles caller ((k.pcbs caller).fileArray.set fd entry)).descriptor process index =
      k.descriptor process index := by
  simp only [descriptor, setFiles, setPcb]
  rcases eq_or_ne process caller with same | other
  · subst same
    rw [Function.update_self]
    exact Function.update_of_ne (apart.resolve_left fun absurd => absurd rfl) ..
  · rw [Function.update_of_ne other]

theorem descriptor_set_self {entry : Fd} :
    (k.setFiles process ((k.pcbs process).fileArray.set index entry)).descriptor process index =
      entry := by
  simp only [descriptor, setFiles, setPcb, Function.update_self, FileArray.set]

/-! ### What each call does to a descriptor -/

theorem Holding.apart {fd : Fin 8} (other : ¬(caller = process ∧ fd = index)) :
    process ≠ caller ∨ index ≠ fd := by
  by_contra both
  simp only [not_or, not_not] at both
  exact other ⟨both.1.symm, both.2.symm⟩

theorem Opened.undisturbed (opened : Opened caller k next) (holding : Holding process index k) :
    Undisturbed process index k next := by
  -- an open takes an entry out of use, and the one held is in use
  have taken {fd : Fin 8} (free : (k.pcbs caller).fileArray.firstFree = some fd) :
      ¬(caller = process ∧ fd = index) := by
    rintro ⟨rfl, rfl⟩
    have used : ((k.pcbs caller).fileArray fd).flags = true := holding.used
    rw [FileArray.firstFree_free free] at used
    cases used
  cases opened with
  | refused => exact ⟨holding.live, rfl⟩
  | rtc free fops => exact ⟨holding.live, descriptor_set (Holding.apart (taken free))⟩
  | file free => exact ⟨holding.live, descriptor_set (Holding.apart (taken free))⟩

theorem systemClose_undisturbed {fd ret : Int} (holding : Holding process index k)
    (other : ¬(caller = process ∧ fd = index.val))
    (done : k.systemClose caller fd = some (ret, next)) : Undisturbed process index k next := by
  rw [systemClose] at done
  split at done
  · cases done
    exact ⟨holding.live, rfl⟩
  · rename_i found at_
    have apart : process ≠ caller ∨ index ≠ found := by
      refine Holding.apart fun both => other ⟨both.1, ?_⟩
      rw [FileArray.inUse_index at_, both.2]
    obtain ⟨closed, entry, same⟩ := Option.map_eq_some_iff.mp done
    cases same
    rw [closeEntry] at entry
    split at entry
    · cases entry
    · cases entry
      exact ⟨holding.live, descriptor_set apart⟩
    · cases entry
      exact ⟨holding.live, descriptor_set apart⟩

theorem Reading.undisturbed {fd nbytes : Int} {buf : Nat}
    (read : Reading image caller fd buf nbytes k next) (holding : Holding process index k)
    (other : ¬(caller = process ∧ fd = index.val)) (running : k.running = some caller)
    (own : ReadsOwn k (.read fd buf nbytes)) : Undisturbed process index k next := by
  cases read with
  | refused => exact ⟨holding.live, rfl⟩
  | terminal => exact ⟨holding.live, rfl⟩
  | rtc rtc => exact ⟨holding.live, rfl⟩
  | @file found ret next used fops done =>
      obtain ⟨owner, mem, last, rfl, -⟩ := fileRead_effect done
      -- the descriptor read is the caller's, since the last opener is
      cases last.symm.trans (own caller found running used fops)
      refine ⟨holding.live, descriptor_set (Holding.apart fun both => other ⟨both.1, ?_⟩)⟩
      rw [FileArray.inUse_index used, both.2]

theorem systemRead_owned {buf : Nat} {nbytes : Int} (holding : Holding process index k)
    (above : fdBegin ≤ index.val) (owner : k.fsPcb = some process) :
    k.systemRead image process index.val buf nbytes =
      (k.storeBytes buf (fsRead image nbytes (k.descriptor process index)).bytes).map fun stored =>
        (some (fsRead image nbytes (k.descriptor process index)).ret,
          stored.setFiles process ((k.pcbs process).fileArray.set index
            (fsRead image nbytes (k.descriptor process index)).entry)) := by
  have notOutput : ¬(index.val : Int) = 1 := by
    simp only [fdBegin] at above
    omega
  have file : ((k.pcbs process).fileArray index).fopsPtr = some .file := holding.file
  rw [systemRead, if_neg notOutput, FileArray.inUse_used holding.used]
  simp only [file, fileRead_owner owner, Option.map_map]
  rfl

/-! ### Every step -/

theorem step_leaves {event : Event} (sound : Sound k) (holding : Holding process index k)
    (kept : ¬Drops process index k event)
    (reads : ∀ caller fd buf nbytes, event = .read fd buf nbytes → k.running = some caller →
      Reading image caller fd buf nbytes k next → Undisturbed process index k next)
    (done : k.step image event = some next) : Undisturbed process index k next := by
  have live := holding.live
  cases step_occurs done with
  | key done =>
      rcases keyEvent_effect done with quiet | ⟨target, switched, -⟩
      · exact quiet.undisturbed live
      · exact switched.undisturbed live
  | rtcTick => exact ⟨live, rfl⟩
  | firstShell done =>
      obtain ⟨slot, launched⟩ := executeStarted_launched done
      exact launched.undisturbed live
  | readAccess reading done => exact (readAccess_quiet done).undisturbed live
  | executeFailed running done => exact (executeFailed_quiet done).undisturbed live
  | executeStarted running done =>
      obtain ⟨slot, launched⟩ := executeStarted_launched done
      exact launched.undisturbed live
  | @halt caller stale next running done =>
      have apart : process ≠ caller := by
        rintro rfl
        exact kept running
      rcases systemHalt_effect (running_foreground running) done with
        ⟨parent, ended, -⟩ | ⟨middle, slot, ended, launched⟩
      · exact ended.undisturbed sound apart live
      · have left := @Ended.undisturbed _ _ _ _ index _ ended sound apart live
        exact left.trans (launched.undisturbed left.live)
  | read running read => exact reads _ _ _ _ rfl running read
  | write running wrote => exact wrote.quiet.undisturbed live
  | opened running opened => exact opened.undisturbed holding
  | @closed caller fd ret next running done =>
      refine systemClose_undisturbed holding ?_ done
      rintro ⟨rfl, same⟩
      exact kept ⟨running, same⟩
  | stored running stored => exact (Quiet.ofStored stored).undisturbed live

theorem step_undisturbed {event : Event} (sound : Sound k) (holding : Holding process index k)
    (own : ReadsOwn k event) (kept : ¬Drops process index k event)
    (unread : elsewhere process index k event = true) (done : k.step image event = some next) :
    Undisturbed process index k next := by
  refine step_leaves sound holding kept ?_ done
  rintro caller fd buf nbytes rfl running read
  refine read.undisturbed holding ?_ running own
  rintro ⟨rfl, same⟩
  simp [elsewhere, running, same] at unread

theorem step_readAlone {event : Event} (holding : Holding process index k)
    (above : fdBegin ≤ index.val) (own : ReadsOwn k event)
    (read : elsewhere process index k event = false) (done : k.step image event = some next) :
    next.pcbTrack process = true ∧
      next.descriptor process index = readAlone image (k.descriptor process index) event := by
  cases event with
  | read fd buf nbytes =>
      have mine : k.running = some process ∧ fd = index.val := by
        simpa [elsewhere] using read
      obtain ⟨running, rfl⟩ := mine
      have owner : k.fsPcb = some process :=
        own process index running (FileArray.inUse_used holding.used) holding.file
      simp only [step, running, Option.bind_some, programEvent] at done
      obtain ⟨read, called, rfl⟩ := Option.map_eq_some_iff.mp done
      have owned := (readCall_read called).2
      rw [systemRead_owned holding above owner] at owned
      obtain ⟨stored, copied, rfl⟩ := Option.map_eq_some_iff.mp owned
      obtain ⟨⟨mem, rfl⟩, -⟩ := storeBytes_stored copied
      exact ⟨holding.live, descriptor_set_self⟩
  | key code regs stale => cases read
  | rtcTick => cases read
  | firstShell stale => cases read
  | execute command stale => cases read
  | halt stale => cases read
  | readAccess => cases read
  | write fd bytes => cases read
  | «open» filename => cases read
  | close fd => cases read
  | getargs buf nbytes behind => cases read
  | vidmap screenStart => cases read
  | store v byte => cases read

/-! ### Whole runs -/

def openedEntry (image : Image) (dentry : Dentry) : Fd where
  fopsPtr := some .file
  inodePtr := if dentry.type = 1 then 0 else image.inodePtr dentry.inode
  filePosition := 0
  flags := true

theorem systemOpen_made {filename : List UInt8} {dentry : Dentry}
    (live : k.pcbTrack process = true) (found : image.readDentryByName (textOf filename) = some dentry)
    (kind : dentry.type = 1 ∨ dentry.type = 2)
    (opened : (k.systemOpen image process filename).1 = index.val) :
    fdBegin ≤ index.val ∧ Holding process index (k.systemOpen image process filename).2 ∧
      (k.systemOpen image process filename).2.descriptor process index = openedEntry image dentry := by
  have failed : ¬(-1 : Int) = index.val := by omega
  rw [systemOpen] at opened ⊢
  split at opened
  · exact absurd opened failed
  · rename_i named
    rw [if_neg named]
    cases free : (k.pcbs process).fileArray.firstFree with
    | none =>
        simp only [found, free] at opened
        exact absurd opened failed
    | some fd =>
        simp only [found, free] at opened ⊢
        have at_ : fd = index := by
          rcases kind with directory | regular
          · simp only [directory, if_true, if_neg (by decide : ¬(1 : UInt32) = 0)] at opened
            exact Fin.ext (Int.ofNat_inj.mp opened)
          · simp only [regular, if_true, if_neg (by decide : ¬(2 : UInt32) = 0),
              if_neg (by decide : ¬(2 : UInt32) = 1)] at opened
            exact Fin.ext (Int.ofNat_inj.mp opened)
        subst at_
        have made (inodePtr : UInt32) :
            (k.openAs process fd .file inodePtr).descriptor process fd =
              { fopsPtr := some .file, inodePtr := inodePtr, filePosition := 0, flags := true } :=
          descriptor_set_self
        have holds (inodePtr : UInt32) : Holding process fd (k.openAs process fd .file inodePtr) :=
          ⟨live, by rw [made], by rw [made]⟩
        refine ⟨FileArray.firstFree_bound free, ?_⟩
        rcases kind with directory | regular
        · simp only [directory, if_true, if_neg (by decide : ¬(1 : UInt32) = 0)]
          refine ⟨holds _, (made _).trans ?_⟩
          simp [openedEntry, directory]
        · simp only [regular, if_true, if_neg (by decide : ¬(2 : UInt32) = 0),
            if_neg (by decide : ¬(2 : UInt32) = 1)]
          refine ⟨holds _, (made _).trans ?_⟩
          simp [openedEntry, regular]

/-- The steps of a run in which every file read follows an open of its own process, and
`process` keeps its descriptor. -/
def Orderly (process : Slot) (index : Fin 8) (k : Kernel) (event : Event) : Prop :=
  ReadsOwn k event ∧ ¬Drops process index k event

instance (process : Slot) (index : Fin 8) (k : Kernel) (event : Event) :
    Decidable (Orderly process index k event) := inferInstanceAs (Decidable (_ ∧ _))

theorem Holding.step {event : Event} (holding : Holding process index k) (sound : Sound k)
    (above : fdBegin ≤ index.val) (orderly : Orderly process index k event)
    (done : k.step image event = some next) : Holding process index next := by
  cases read : elsewhere process index k event with
  | true =>
      have kept := step_undisturbed sound holding orderly.1 orderly.2 read done
      exact ⟨kept.live, kept.same ▸ holding.used, kept.same ▸ holding.file⟩
  | false =>
      obtain ⟨live, moved⟩ := step_readAlone holding above orderly.1 read done
      have position : ∃ position, next.descriptor process index =
          { k.descriptor process index with filePosition := position } := by
        rw [moved]
        cases event with
        | read fd buf nbytes => exact fsRead_entry nbytes _
        | _ => exact ⟨_, rfl⟩
      obtain ⟨position, same⟩ := position
      exact ⟨live, same ▸ holding.used, same ▸ holding.file⟩

theorem Holding.path {events : List Event} (holding : Holding process index k) (sound : Sound k)
    (above : fdBegin ≤ index.val)
    (path : Path (Kernel.step image) (Orderly process index) k events next) :
    Sound next ∧ Holding process index next ∧ next.descriptor process index =
      (visible (Kernel.step image) (elsewhere process index) k events).foldl (readAlone image)
        (k.descriptor process index) := by
  let invariant (k : Kernel) : Prop := Sound k ∧ Holding process index k
  have keeps : ∀ k event next, Orderly process index k event → invariant k →
      Kernel.step image k event = some next → invariant next :=
    fun k event next orderly ⟨sound, holding⟩ done =>
      ⟨sound.step done, holding.step sound above orderly done⟩
  obtain ⟨sound', holding'⟩ := path.preserves invariant keeps ⟨sound, holding⟩
  refine ⟨sound', holding', ?_⟩
  have strong := path.withInvariant invariant keeps ⟨sound, holding⟩
  refine @Path.view_fold _ _ _ _ _ (elsewhere process index) (descriptor process index)
    (readAlone image) ?_ ?_ _ _ _ strong
  · rintro k event next ⟨orderly, sound, holding⟩ unread done
    exact (step_undisturbed sound holding orderly.1 orderly.2 unread done).same
  · rintro k event next ⟨orderly, sound, holding⟩ read done
    exact (step_readAlone holding above orderly.1 read done).2

theorem foldl_readAlone (events : List Event) (entry : Fd) :
    ∃ position, events.foldl (readAlone image) entry = { entry with filePosition := position } := by
  induction events generalizing entry with
  | nil => exact ⟨_, rfl⟩
  | cons event events ih =>
      obtain ⟨position, same⟩ := ih (readAlone image entry event)
      have moved : ∃ position, readAlone image entry event =
          { entry with filePosition := position } := by
        cases event with
        | read fd buf nbytes => exact fsRead_entry nbytes entry
        | _ => exact ⟨_, rfl⟩
      obtain ⟨middle, first⟩ := moved
      rw [List.foldl_cons, same, first]
      exact ⟨position, rfl⟩

/-- In a run whose file reads each follow an open of the same process, a read is a read of
the caller's own descriptor, which is the file it opened with the position that its own
reads alone have reached, whatever the other processes opened, read and closed. -/
theorem descriptor_alone {filename : List UInt8} {dentry : Dentry} {events : List Event}
    {later : Kernel} {buf : Nat} {nbytes : Int}
    (reached : Reachable (step image) (Booted image) k) (running : k.running = some process)
    (found : image.readDentryByName (textOf filename) = some dentry)
    (kind : dentry.type = 1 ∨ dentry.type = 2)
    (opened : (k.systemOpen image process filename).1 = index.val)
    (path : Path (step image) (Orderly process index) (k.systemOpen image process filename).2
      events later)
    (reader : later.running = some process) (own : ReadsOwn later (.read index.val buf nbytes)) :
    let entry := (visible (step image) (elsewhere process index)
      (k.systemOpen image process filename).2 events).foldl (readAlone image)
        (openedEntry image dentry)
    let read := fsRead image nbytes entry
    (∃ position, entry = { openedEntry image dentry with filePosition := position }) ∧
      (later.pcbs process).fileArray index = entry ∧
      later.systemRead image process index.val buf nbytes =
        (later.storeBytes buf read.bytes).map fun stored =>
          (some read.ret,
            stored.setFiles process ((later.pcbs process).fileArray.set index read.entry)) := by
  have sound := sound_reachable reached
  have live := (sound.live_foreground (running_foreground running)).1
  obtain ⟨above, holding, fresh⟩ := systemOpen_made live found kind opened
  have began : Sound (k.systemOpen image process filename).2 :=
    have moved : Transition image k (k.systemOpen image process filename).2 :=
      Transition.stay
        ((systemOpen_opened image process filename k).local (running_foreground running))
    sound.transition moved
  obtain ⟨-, holding', same⟩ := holding.path began above path
  rw [fresh] at same
  have owner : later.fsPcb = some process :=
    own process index reader (FileArray.inUse_used holding'.used) holding'.file
  have read := @systemRead_owned image later process index buf nbytes holding' above owner
  rw [same] at read
  exact ⟨foldl_readAlone _ _, same, read⟩

def crossingEvents : List Event := keys [alt, f2] ++ [.open [0x2e]] ++ keys [f1]

/-- The first shell has opened a file; after the other one opened the directory, its read
returns a directory entry and moves the other's position instead of its own. -/
theorem descriptor_crossed :
    ∃ (k later next : Kernel) (ret : Int), Reachable (step smallImage) (Booted smallImage) k ∧
      k.running = some 0 ∧ (k.systemOpen smallImage 0 shellName).1 = 2 ∧
      Path (step smallImage) (fun k event => ¬Drops 0 2 k event)
        (k.systemOpen smallImage 0 shellName).2 crossingEvents later ∧
      later.running = some 0 ∧
      later.systemRead smallImage 0 2 mb128 4 = some (some ret, next) ∧
      ret ≠ (fsRead smallImage 4 (later.descriptor 0 2)).ret ∧
      next.descriptor 0 2 = later.descriptor 0 2 ∧ next.descriptor 1 2 ≠ later.descriptor 1 2 := by
  have ran : ((runSmall [.firstShell noStale]).bind fun k =>
      (runWhere (step smallImage) (fun k event => ¬Drops 0 2 k event)
        (k.systemOpen smallImage 0 shellName).2 crossingEvents).bind fun later =>
          (later.systemRead smallImage 0 2 mb128 4).bind fun read => read.1.map fun ret =>
            decide (k.running = some 0 ∧ (k.systemOpen smallImage 0 shellName).1 = 2 ∧
              later.running = some 0 ∧ ret ≠ (fsRead smallImage 4 (later.descriptor 0 2)).ret ∧
              read.2.descriptor 0 2 = later.descriptor 0 2 ∧
              read.2.descriptor 1 2 ≠ later.descriptor 1 2)) = some true := by
    decide +kernel
  obtain ⟨k, computed, found⟩ := Option.bind_eq_some_iff.mp ran
  obtain ⟨later, path, found⟩ := Option.bind_eq_some_iff.mp found
  obtain ⟨⟨result, next⟩, read, found⟩ := Option.bind_eq_some_iff.mp found
  obtain ⟨ret, returned, found⟩ := Option.map_eq_some_iff.mp found
  obtain ⟨running, opened, reader, wrong, unmoved, moved⟩ := of_decide_eq_true found
  cases returned
  exact ⟨k, later, next, ret, runSmall_reachable computed, running, opened, runWhere_path path,
    reader, read, wrong, unmoved, moved⟩

theorem descriptor_alone_shell :
    ∃ (k later : Kernel) (dentry : Dentry), Reachable (step smallImage) (Booted smallImage) k ∧
      (later.pcbs 0).fileArray 2 =
        (visible (step smallImage) (elsewhere 0 2) (k.systemOpen smallImage 0 shellName).2
          [.read 2 mb128 2]).foldl (readAlone smallImage) (openedEntry smallImage dentry) := by
  have ran : ((smallImage.readDentryByName (textOf shellName)).bind fun dentry =>
      (runSmall ([.firstShell noStale] ++ crossingEvents)).bind fun k =>
        (runWhere (step smallImage) (Orderly 0 2) (k.systemOpen smallImage 0 shellName).2
          [.read 2 mb128 2]).map fun later =>
            decide (dentry.type = 2 ∧ k.running = some 0 ∧
              (k.systemOpen smallImage 0 shellName).1 = 2 ∧ later.running = some 0 ∧
              ReadsOwn later (.read 2 mb128 2))) = some true := by
    decide +kernel
  obtain ⟨dentry, found, ran⟩ := Option.bind_eq_some_iff.mp ran
  obtain ⟨k, computed, ran⟩ := Option.bind_eq_some_iff.mp ran
  obtain ⟨later, path, checks⟩ := Option.map_eq_some_iff.mp ran
  obtain ⟨kind, running, opened, reader, own⟩ := of_decide_eq_true checks
  have reached := runSmall_reachable computed
  exact ⟨k, later, dentry, reached, (descriptor_alone reached running found (Or.inr kind) opened
    (runWhere_path path) reader own).2.1⟩

end Kernel

end G29Os
