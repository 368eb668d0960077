import G29Os.Descriptors
import G29Os.ProcessTurns

/-!
What holds of every descriptor of every process. A property of single entries that the kernel's
own stores keep is an invariant of all tables that a call can reach: those of live processes
and the one that `fs_open` saw last.
-/

namespace G29Os

open StepRun

namespace FileArray

variable {files : FileArray} {fd : Fin 8} {entry : Fd}

theorem set_self : files.set fd entry fd = entry := Function.update_self ..

theorem set_other {other : Fin 8} (apart : other ≠ fd) : files.set fd entry other = files other :=
  Function.update_of_ne apart ..

theorem inUse_low {first : Nat} {fd : Int} {index : Fin 8} (found : files.inUse first fd = some index) :
    first ≤ index.val := by
  have same := inUse_index found
  rw [inUse] at found
  split at found
  · omega
  · cases found

end FileArray

inductive OpenedOver (image : Image) (before : Fd) : Fd → Prop
  | rtc (flags : Bool) :
      OpenedOver image before { before with fopsPtr := some .rtc, inodePtr := 0, flags := flags }
  | directory : OpenedOver image before
      { fopsPtr := some .file, inodePtr := 0, filePosition := 0, flags := true }
  | file (inode : UInt32) : OpenedOver image before
      { fopsPtr := some .file, inodePtr := image.inodePtr inode, filePosition := 0, flags := true }

/-- `holds` is kept by every store to a descriptor. A read may move the position of an entry
whose number the caller has open on a file. -/
structure EntryRule (image : Image) (holds : Fin 8 → Fd → Prop) : Prop where
  fresh : ∀ stale fd, holds fd ((newPcbInit stale).fileArray fd)
  closed : ∀ fd : Fin 8, fdBegin ≤ fd.val → holds fd Fd.closed
  opened : ∀ (fd : Fin 8) before entry, fdBegin ≤ fd.val → holds fd before →
    OpenedOver image before entry → holds fd entry
  moved : ∀ fd own entry position, holds fd own → own.fopsPtr = some .file → holds fd entry →
    holds fd { entry with filePosition := position }

namespace Kernel

variable {image : Image} {holds : Fin 8 → Fd → Prop} {k next middle : Kernel} {process slot : Slot}

def AllEntries (holds : Fin 8 → Fd → Prop) (k : Kernel) : Prop :=
  ∀ slot, k.pcbTrack slot = true ∨ k.fsPcb = some slot → ∀ fd, holds fd ((k.pcbs slot).fileArray fd)

theorem AllEntries.same (all : AllEntries holds k) (pcbTrack : next.pcbTrack = k.pcbTrack)
    (fs : next.fsPcb = k.fsPcb) (pcbs : next.pcbs = k.pcbs) : AllEntries holds next := by
  rw [AllEntries, pcbTrack, fs, pcbs]
  exact all

theorem Quiet.allEntries (quiet : Quiet k next) (all : AllEntries holds k) : AllEntries holds next :=
  all.same (congrArg ProcessTable.pcbTrack quiet.table) quiet.fs quiet.pcbs

theorem AllEntries.set {fd : Fin 8} {entry : Fd} (all : AllEntries holds k)
    (pcbTrack : next.pcbTrack = k.pcbTrack)
    (fs : next.fsPcb = k.fsPcb ∨ next.fsPcb = some process ∧ k.pcbTrack process = true)
    (pcbs : next.pcbs = (k.setFiles process ((k.pcbs process).fileArray.set fd entry)).pcbs)
    (kept : k.pcbTrack process = true ∨ k.fsPcb = some process → holds fd entry) :
    AllEntries holds next := by
  intro slot either
  have before : k.pcbTrack slot = true ∨ k.fsPcb = some slot := by
    rw [pcbTrack] at either
    rcases either with live | last
    · exact Or.inl live
    · rcases fs with same | ⟨opens, live⟩
      · exact Or.inr (same ▸ last)
      · cases opens.symm.trans last
        exact Or.inl live
  intro other
  rw [pcbs]
  rcases eq_or_ne slot process with same | apart
  · subst same
    simp only [setFiles, setPcb, Function.update_self]
    rcases eq_or_ne other fd with here | elsewhere
    · subst here
      rw [FileArray.set_self]
      exact kept before
    · rw [FileArray.set_other elsewhere]
      exact all slot before other
  · simp only [setFiles, setPcb, Function.update_of_ne apart]
    exact all slot before other

theorem AllEntries.fewer (all : AllEntries holds k)
    (pcbTrack : next.pcbTrack = Function.update k.pcbTrack slot false) (fs : next.fsPcb = k.fsPcb)
    (pcbs : next.pcbs = k.pcbs) : AllEntries holds next := by
  intro other either
  rw [pcbs]
  refine all other (either.imp (fun live => ?_) fun last => fs ▸ last)
  rcases eq_or_ne other slot with same | apart
  · rw [pcbTrack, same, Function.update_self] at live
    cases live
  · rwa [pcbTrack, Function.update_of_ne apart] at live

theorem AllEntries.prebuilt {terminal : TerminalId} {pcb : Pcb} (all : AllEntries holds k)
    (fresh : ∀ fd, holds fd (pcb.fileArray fd))
    (done : k.prebuildShell image terminal pcb = some next) : AllEntries holds next := by
  obtain ⟨⟨mem, rfl⟩, -⟩ := storeBytes_stored done
  intro slot either fd
  simp only [occupy, setPcb] at either ⊢
  rcases eq_or_ne slot (terminalSlot terminal) with same | apart
  · subst same
    rw [Function.update_self]
    exact fresh fd
  · rw [Function.update_of_ne apart] at either ⊢
    exact all slot either fd

end Kernel

namespace EntryRule

open Kernel

variable {image : Image} {holds : Fin 8 → Fd → Prop} {k next : Kernel} {process : Slot}
  (rule : EntryRule image holds)

include rule

theorem executeStarted {command : List UInt8} {stale : Stale} (all : AllEntries holds k)
    (done : k.systemExecute image command stale = some (.started next)) : AllEntries holds next := by
  obtain ⟨slot, dentry, entry, free, -, -, launch⟩ := systemExecute_started done
  have fresh : ¬HasFile (namedPcb command (spilledName dentry (commandName command))
      stale.pcb).fileArray := newPcbInit_fresh stale.pcb
  have launched := launch_launched free fresh launch
  have pcbTrack : next.pcbTrack = Function.update k.pcbTrack slot true :=
    congrArg ProcessTable.pcbTrack launched.table
  intro other either fd
  rcases eq_or_ne other slot with same | apart
  · subst same
    rw [launch_pcb launch]
    exact rule.fresh stale.pcb fd
  · rw [launched.others other apart]
    refine all other (either.imp (fun live => ?_) fun last => launched.fs ▸ last) fd
    rwa [pcbTrack, Function.update_of_ne apart] at live

theorem close {fd ret : Int} (all : AllEntries holds k)
    (done : k.systemClose process fd = some (ret, next)) : AllEntries holds next := by
  rw [systemClose] at done
  split at done
  · cases done
    exact all
  · rename_i index used
    obtain ⟨closed, entry, same⟩ := Option.map_eq_some_iff.mp done
    cases same
    have gone : holds index Fd.closed := rule.closed index (FileArray.inUse_low used)
    rw [closeEntry] at entry
    split at entry
    · cases entry
    · cases entry
      exact all.set rfl (Or.inl rfl) rfl fun _ => gone
    · cases entry
      exact all.set rfl (Or.inl rfl) rfl fun _ => gone

theorem closeAll {count : Nat} (all : AllEntries holds k)
    (done : k.closeAll process count = some next) : AllEntries holds next := by
  induction count generalizing next with
  | zero =>
      cases done
      exact all
  | succ count ih =>
      obtain ⟨middle, before, last⟩ := Option.bind_eq_some_iff.mp done
      obtain ⟨⟨ret, closed⟩, call, same⟩ := Option.map_eq_some_iff.mp last
      cases same
      exact rule.close (ih before) call

theorem halt {stale : Stale} (all : AllEntries holds k)
    (done : k.systemHalt image stale process = some next) : AllEntries holds next := by
  obtain ⟨middle, closing, returned⟩ := Option.bind_eq_some_iff.mp done
  have closed := rule.closeAll all closing
  cases returnSyscall_returned returned with
  | resumed linked => exact closed.fewer rfl rfl rfl
  | relaunched base executed =>
      refine rule.executeStarted ?_ executed
      exact closed.fewer rfl rfl rfl

theorem «open» (filename : List UInt8) (all : AllEntries holds k) (live : k.pcbTrack process = true) :
    AllEntries holds (k.systemOpen image process filename).2 := by
  rw [systemOpen]
  split
  · exact all
  · split
    · exact all
    · exact all
    · rename_i dentry fd found free
      have low := FileArray.firstFree_bound free
      have before := all process (Or.inl live) fd
      split_ifs
      · rw [openRtc]
        split
        · exact all.set rfl (Or.inl rfl) rfl fun _ =>
            rule.opened fd _ _ low before (OpenedOver.rtc ((k.pcbs process).fileArray fd).flags)
        · exact all.set rfl (Or.inl rfl) rfl fun _ =>
            rule.opened fd _ _ low before (OpenedOver.rtc true)
      · exact all.set rfl (Or.inr ⟨rfl, live⟩) rfl fun _ =>
          rule.opened fd _ _ low before OpenedOver.directory
      · exact all.set rfl (Or.inr ⟨rfl, live⟩) rfl fun _ =>
          rule.opened fd _ _ low before (OpenedOver.file dentry.inode)
      · exact all

theorem read {fd nbytes : Int} {buf : Nat} (all : AllEntries holds k)
    (live : k.pcbTrack process = true) (read : Reading image process fd buf nbytes k next) :
    AllEntries holds next := by
  cases read with
  | refused => exact all
  | terminal => exact all
  | rtc rtc => exact all
  | @file index ret next used fops done =>
      obtain ⟨owner, mem, last, rfl, -⟩ := fileRead_effect done
      obtain ⟨position, moved⟩ := @fsRead_entry image nbytes ((k.pcbs owner).fileArray index)
      refine all.set rfl (Or.inl rfl) rfl fun either => ?_
      rw [moved]
      exact rule.moved index _ _ position (all process (Or.inl live) index) fops (all owner either index)

theorem step {event : Event} (all : AllEntries holds k) (sound : Sound k)
    (done : k.step image event = some next) : AllEntries holds next := by
  have live {process : Slot} (running : k.running = some process) :
      k.pcbTrack process = true := (sound.live_foreground (running_foreground running)).1
  have open_ {filename : List UInt8} (taken : k.step image (.open filename) = some next) :
      AllEntries holds next := by
    obtain ⟨process, running, called⟩ := Option.bind_eq_some_iff.mp taken
    obtain ⟨⟨ret, opened⟩, call, rfl⟩ := Option.map_eq_some_iff.mp called
    have kept := rule.open filename all (live running)
    rwa [(openCall_opened call).2] at kept
  have occurs := step_occurs done
  cases occurs with
  | key done =>
      rcases keyEvent_effect done with quiet | ⟨target, switched, -⟩
      · exact quiet.allEntries all
      · exact all.same switched.table_eq.2.2 switched.fs switched.pcbs
  | rtcTick => exact all
  | firstShell done => exact rule.executeStarted all done
  | readAccess reading done => exact (readAccess_quiet done).allEntries all
  | executeFailed running done => exact (executeFailed_quiet done).allEntries all
  | executeStarted running done => exact rule.executeStarted all done
  | halt running done => exact rule.halt all done
  | read running read => exact rule.read all (live running) read
  | write running wrote => exact wrote.quiet.allEntries all
  | opened running opened => exact open_ done
  | closed running done => exact rule.close all done
  | stored running stored => exact (Quiet.ofStored stored).allEntries all

theorem booted (booted : Booted image k) : AllEntries holds k := by
  obtain ⟨raw, stale2, stale3, fileHeader, statics, done⟩ := booted
  obtain ⟨middle, second, third⟩ := initTerminals_built done
  have none : AllEntries holds (findShell image fileHeader { raw with paging := raw.paging.pagingInit }) := by
    intro slot either
    rcases either with live | last
    · cases (statics.noProcess slot).symm.trans live
    · cases statics.noFile.symm.trans last
  have built : AllEntries holds middle := by
    refine none.prebuilt ?_ second
    exact rule.fresh stale2
  exact built.prebuilt (rule.fresh stale3) third

theorem reachable (reached : Reachable (Kernel.step image) (Booted image) k) : AllEntries holds k := by
  have kept := reached.invariant (fun k => Sound k ∧ AllEntries holds k)
    (fun k booted => ⟨sound_reachable ⟨k, [], booted, Path.nil k⟩, rule.booted booted⟩)
    fun k event next ⟨sound, all⟩ done => ⟨sound.step done, rule.step all sound done⟩
  exact kept.2

end EntryRule

end G29Os
