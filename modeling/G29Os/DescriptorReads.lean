import G29Os.UserReads

/-!
The reads that `fs_read` makes on one descriptor while no other process opens a file. The static
PCB of `fs.c` is then the opener's, and what happens to the descriptor is told by the reads
made on it, one after the other.
-/

namespace G29Os

open StepRun

namespace Kernel

variable {image : Image} {k next later : Kernel} {process caller : Slot} {index : Fin 8}
  {fd nbytes : Int}

def finds (process : Slot) (index : Fin 8) (k : Kernel) (fd : Int) : Bool :=
  match k.running with
  | none => false
  | some caller => decide (fd ≠ 1 ∧ (k.pcbs caller).fileArray.inUse 0 fd = some index ∧
      (k.descriptor caller index).fopsPtr = some .file ∧ k.fsPcb = some process)

structure Served where
  nbytes : Int
  ret : Int

def served (image : Image) (process : Slot) (index : Fin 8) (k : Kernel) (nbytes : Int) : Served :=
  { nbytes := nbytes, ret := (fsRead image nbytes (k.descriptor process index)).ret }

def noteServed (image : Image) (process : Slot) (index : Fin 8) (k : Kernel) (event : Event)
    (_ : Kernel) (log : List Served) : List Served :=
  match event with
  | .read fd _ nbytes => if k.finds process index fd then k.served image process index nbytes :: log else log
  | _ => log

theorem finds_iff (running : k.running = some caller) : k.finds process index fd = true ↔
    fd ≠ 1 ∧ (k.pcbs caller).fileArray.inUse 0 fd = some index ∧
      (k.descriptor caller index).fopsPtr = some .file ∧ k.fsPcb = some process := by
  simp only [finds, running, decide_eq_true_eq]

theorem systemRead_found {buf : Nat} (running : k.running = some caller)
    (found : k.finds process index fd = true) :
    k.systemRead image caller fd buf nbytes =
      (k.storeBytes buf (fsRead image nbytes (k.descriptor process index)).bytes).map fun stored =>
        (some (fsRead image nbytes (k.descriptor process index)).ret,
          stored.setFiles process ((k.pcbs process).fileArray.set index
            (fsRead image nbytes (k.descriptor process index)).entry)) := by
  obtain ⟨other, used, file, owner⟩ := (finds_iff running).mp found
  have dispatch : ((k.pcbs caller).fileArray index).fopsPtr = some .file := file
  rw [systemRead, if_neg other, used]
  simp only [dispatch, fileRead_owner owner, Option.map_map]
  rfl

theorem readContained_found (running : k.running = some caller)
    (found : k.finds process index fd = true) : k.readContained image caller fd ↔
      ((k.descriptor process index).inodePtr = 0 →
        readDirContained image (k.descriptor process index).filePosition) := by
  obtain ⟨other, used, file, owner⟩ := (finds_iff running).mp found
  have dispatch : ((k.pcbs caller).fileArray index).fopsPtr = some .file := file
  have entry : k.readEntry caller fd = some (k.descriptor process index) := by
    rw [readEntry, if_neg other, used, Option.bind_some, if_pos dispatch, owner]
    rfl
  rw [readContained, entry]
  simp only [Option.mem_some_iff, forall_eq']

/-- The steps of a run in which no other process opens files and the descriptor stays open.
`allowed` bounds the reads made on it. -/
def Exclusive (process : Slot) (index : Fin 8) (allowed : Int → Prop) (k : Kernel) (event : Event) :
    Prop :=
  ¬Drops process index k event ∧ match event with
    | .open _ => k.running = some process
    | .read fd _ nbytes => k.finds process index fd = true → allowed nbytes
    | _ => True

instance (process : Slot) (index : Fin 8) (allowed : Int → Prop) [DecidablePred allowed] (k : Kernel)
    (event : Event) : Decidable (Exclusive process index allowed k event) := by
  unfold Exclusive
  cases event <;> infer_instance

structure Owning (process : Slot) (index : Fin 8) (k : Kernel) : Prop where
  sound : Sound k
  holding : Holding process index k
  above : fdBegin ≤ index.val
  owner : k.fsPcb = some process

theorem Opened.owner (opened : Opened process k next) (owner : k.fsPcb = some process) :
    next.fsPcb = some process := by
  cases opened with
  | refused => exact owner
  | rtc free fops => exact owner
  | file free => rfl

theorem systemOpen_owner {filename : List UInt8} {dentry : Dentry}
    (found : image.readDentryByName (textOf filename) = some dentry)
    (kind : dentry.type = 1 ∨ dentry.type = 2)
    (opened : (k.systemOpen image process filename).1 = index.val) :
    (k.systemOpen image process filename).2.fsPcb = some process := by
  have failed : ¬(-1 : Int) = index.val := by omega
  rw [systemOpen] at opened ⊢
  split at opened
  · exact absurd opened failed
  · rename_i named
    rw [if_neg named]
    cases free : (k.pcbs process).fileArray.firstFree with
    | none =>
        simp only [found, free] at opened
        exact absurd opened failed
    | some fd =>
        rcases kind with directory | regular
        · simp only [found, directory, if_true, if_neg (by decide : ¬(1 : UInt32) = 0)]
          rfl
        · simp only [found, regular, if_true, if_neg (by decide : ¬(2 : UInt32) = 0),
            if_neg (by decide : ¬(2 : UInt32) = 1)]
          rfl

theorem step_owner {event : Event} {allowed : Int → Prop} (owner : k.fsPcb = some process)
    (exclusive : Exclusive process index allowed k event) (done : k.step image event = some next) :
    next.fsPcb = some process := by
  cases step_occurs done with
  | key done =>
      rcases keyEvent_effect done with quiet | ⟨target, switched, -⟩
      · exact quiet.fs.trans owner
      · exact switched.fs.trans owner
  | rtcTick => exact owner
  | firstShell done =>
      obtain ⟨slot, launched⟩ := executeStarted_launched done
      exact launched.fs.trans owner
  | readAccess reading done => exact (readAccess_quiet done).fs.trans owner
  | executeFailed running done => exact (executeFailed_quiet done).fs.trans owner
  | executeStarted running done =>
      obtain ⟨slot, launched⟩ := executeStarted_launched done
      exact launched.fs.trans owner
  | halt running done =>
      rcases systemHalt_effect (running_foreground running) done with
        ⟨parent, ended, -⟩ | ⟨middle, slot, ended, launched⟩
      · exact ended.fs.trans owner
      · exact launched.fs.trans (ended.fs.trans owner)
  | read running read =>
      cases read with
      | refused => exact owner
      | terminal => exact owner
      | rtc rtc => exact owner
      | file used fops done =>
          obtain ⟨other, mem, -, rfl, -⟩ := fileRead_effect done
          exact owner
  | write running wrote => exact wrote.quiet.fs.trans owner
  | opened running opened =>
      have mine : k.running = some process := exclusive.2
      cases mine.symm.trans running
      exact opened.owner owner
  | closed running done =>
      obtain ⟨files, rtc, rfl, -⟩ := systemClose_closed done
      exact owner
  | stored running stored => exact (Quiet.ofStored stored).fs.trans owner

theorem Reading.elsewhere {buf : Nat} (read : Reading image caller fd buf nbytes k next)
    (owning : Owning process index k) (running : k.running = some caller)
    (other : k.finds process index fd = false) : Undisturbed process index k next := by
  cases read with
  | refused => exact ⟨owning.holding.live, rfl⟩
  | terminal => exact ⟨owning.holding.live, rfl⟩
  | rtc rtc => exact ⟨owning.holding.live, rfl⟩
  | @file found ret next used fops done =>
      obtain ⟨owner, mem, last, rfl, -⟩ := fileRead_effect done
      cases last.symm.trans owning.owner
      refine ⟨owning.holding.live, descriptor_set (Or.inr ?_)⟩
      rintro rfl
      have above := owning.above
      have number := FileArray.inUse_index used
      have notOutput : fd ≠ 1 := by
        simp only [fdBegin] at above
        omega
      rw [(finds_iff running).mpr ⟨notOutput, used, fops, owning.owner⟩] at other
      cases other

inductive Advances (image : Image) (process : Slot) (index : Fin 8) (allowed : Int → Prop)
    (k next : Kernel) (log : List Served) : List Served → Prop
  | stays (same : next.descriptor process index = k.descriptor process index) :
      Advances image process index allowed k next log log
  | read {nbytes : Int} (fits : allowed nbytes)
      (moved : next.descriptor process index =
        (fsRead image nbytes (k.descriptor process index)).entry) :
      Advances image process index allowed k next log (k.served image process index nbytes :: log)

theorem Owning.served {allowed : Int → Prop} {buf : Nat} (owning : Owning process index k)
    (found : k.finds process index fd = true) (fits : allowed nbytes) (log : List Served)
    (done : k.step image (.read fd buf nbytes) = some next) :
    Holding process index next ∧
      Advances image process index allowed k next log (k.served image process index nbytes :: log) := by
  obtain ⟨caller, running, called⟩ := Option.bind_eq_some_iff.mp done
  obtain ⟨read, call, rfl⟩ := Option.map_eq_some_iff.mp called
  have taken := (readCall_read call).2
  rw [systemRead_found running found] at taken
  obtain ⟨stored, copied, rfl⟩ := Option.map_eq_some_iff.mp taken
  obtain ⟨⟨mem, rfl⟩, -⟩ := storeBytes_stored copied
  have moved : Kernel.descriptor process index
      ({ k with mem := mem }.setFiles process ((k.pcbs process).fileArray.set index
        (fsRead image nbytes (k.descriptor process index)).entry)) =
      (fsRead image nbytes (k.descriptor process index)).entry := descriptor_set_self
  refine ⟨⟨owning.holding.live, ?_, ?_⟩, Advances.read fits moved⟩
  · obtain ⟨position, same⟩ := fsRead_entry nbytes (k.descriptor process index)
    exact (congrArg Fd.flags (moved.trans same)).trans owning.holding.used
  · obtain ⟨position, same⟩ := fsRead_entry nbytes (k.descriptor process index)
    exact (congrArg Fd.fopsPtr (moved.trans same)).trans owning.holding.file

theorem Owning.step {event : Event} {allowed : Int → Prop} (owning : Owning process index k)
    (exclusive : Exclusive process index allowed k event) (log : List Served)
    (done : k.step image event = some next) :
    Owning process index next ∧ Advances image process index allowed k next log
      (noteServed image process index k event next log) := by
  have sound := owning.sound.step done
  have owner := step_owner owning.owner exclusive done
  have undisturbed (unread : ∀ fd buf nbytes, event = .read fd buf nbytes →
      k.finds process index fd = false) : Undisturbed process index k next := by
    refine step_leaves owning.sound owning.holding exclusive.1 ?_ done
    intro caller fd buf nbytes is running read
    exact read.elsewhere owning running (unread fd buf nbytes is)
  have stays (left : Undisturbed process index k next) : Owning process index next ∧
      Advances image process index allowed k next log log :=
    ⟨⟨sound, ⟨left.live, left.same ▸ owning.holding.used, left.same ▸ owning.holding.file⟩,
      owning.above, owner⟩, Advances.stays left.same⟩
  cases event with
  | read fd buf nbytes =>
      cases found : k.finds process index fd with
      | true =>
          obtain ⟨holding, advances⟩ := owning.served found (exclusive.2 found) log done
          refine ⟨⟨sound, holding, owning.above, owner⟩, ?_⟩
          simp only [noteServed, found, if_true]
          exact advances
      | false =>
          simp only [noteServed, found, Bool.false_eq_true, if_false]
          apply stays
          apply undisturbed
          rintro _ _ _ ⟨⟩
          exact found
  | key code regs stale => exact stays (undisturbed fun _ _ _ is => by cases is)
  | rtcTick => exact stays (undisturbed fun _ _ _ is => by cases is)
  | firstShell stale => exact stays (undisturbed fun _ _ _ is => by cases is)
  | execute command stale => exact stays (undisturbed fun _ _ _ is => by cases is)
  | halt stale => exact stays (undisturbed fun _ _ _ is => by cases is)
  | readAccess => exact stays (undisturbed fun _ _ _ is => by cases is)
  | write fd bytes => exact stays (undisturbed fun _ _ _ is => by cases is)
  | «open» filename => exact stays (undisturbed fun _ _ _ is => by cases is)
  | close fd => exact stays (undisturbed fun _ _ _ is => by cases is)
  | getargs buf nbytes behind => exact stays (undisturbed fun _ _ _ is => by cases is)
  | vidmap screenStart => exact stays (undisturbed fun _ _ _ is => by cases is)
  | store v byte => exact stays (undisturbed fun _ _ _ is => by cases is)

theorem Owning.path {allowed : Int → Prop} (invariant : Fd → List Served → Prop)
    (keeps : ∀ entry log nbytes, allowed nbytes → invariant entry log →
      invariant (fsRead image nbytes entry).entry
        ({ nbytes := nbytes, ret := (fsRead image nbytes entry).ret } :: log))
    {events : List Event} {log : List Served} (owning : Owning process index k)
    (initial : invariant (k.descriptor process index) log)
    (path : Path (Kernel.step image) (Exclusive process index allowed) k events later) :
    Owning process index later ∧ invariant (later.descriptor process index)
      (recorded (Kernel.step image) (noteServed image process index) k events log) := by
  refine path.recorded_invariant
    (fun k log => Owning process index k ∧ invariant (k.descriptor process index) log) ?_
    ⟨owning, initial⟩
  rintro k event next log exclusive ⟨owning, holds⟩ done
  obtain ⟨owning', advances⟩ := owning.step exclusive log done
  refine ⟨owning', ?_⟩
  generalize noteServed image process index k event next log = log' at advances ⊢
  cases advances with
  | stays same => exact same ▸ holds
  | read fits moved => exact moved ▸ keeps _ _ _ fits holds

theorem systemOpen_owning {filename : List UInt8} {dentry : Dentry}
    (reached : Reachable (Kernel.step image) (Booted image) k) (running : k.running = some process)
    (found : image.readDentryByName (textOf filename) = some dentry)
    (kind : dentry.type = 1 ∨ dentry.type = 2)
    (opened : (k.systemOpen image process filename).1 = index.val) :
    Owning process index (k.systemOpen image process filename).2 ∧
      (k.systemOpen image process filename).2.descriptor process index = openedEntry image dentry := by
  have sound := sound_reachable reached
  have live := (sound.live_foreground (running_foreground running)).1
  obtain ⟨above, holding, fresh⟩ := systemOpen_made live found kind opened
  have began : Transition image k (k.systemOpen image process filename).2 :=
    Transition.stay
      ((systemOpen_opened image process filename k).local (running_foreground running))
  refine ⟨⟨sound.transition began, holding, above, ?_⟩, fresh⟩
  exact systemOpen_owner found kind opened

end Kernel

end G29Os
