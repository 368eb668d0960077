import G29Os.CallEffects

/-!
The kinds of transition that the kernel's invariants are proved over: what a step may change
of the process table, the page tables, the PCBs and the program pages.
-/

namespace G29Os

namespace Kernel

variable {image : Image} {k next middle : Kernel} {process slot : Slot}

structure Quiet (k next : Kernel) : Prop where
  table : next.table = k.table
  paging : next.paging = k.paging
  cr3 : next.cr3 = k.cr3
  pcbs : next.pcbs = k.pcbs
  fs : next.fsPcb = k.fsPcb
  page : Written k.paging k.cr3 k next

structure Local (k next : Kernel) : Prop where
  table : next.table = k.table
  paging : next.paging = k.paging
  cr3 : next.cr3 = k.cr3
  page : Written k.paging k.cr3 k next
  identity : ∀ slot, next.pcbs slot = { k.pcbs slot with fileArray := (next.pcbs slot).fileArray }
  fs : next.fsPcb = k.fsPcb ∨ next.fsPcb = k.foreground
  files : ∀ slot, k.foreground ≠ some slot → next.pcbs slot = k.pcbs slot ∨
    k.fsPcb = some slot ∧ ∃ process, k.foreground = some process ∧ HasFile (k.pcbs process).fileArray
  opened : ∀ slot, HasFile (next.pcbs slot).fileArray → HasFile (k.pcbs slot).fileArray ∨
    k.foreground = some slot ∧ next.fsPcb = some slot

structure Launched (k next : Kernel) (slot : Slot) : Prop where
  free : k.pcbTrack slot = false
  table : next.table = (k.table.enter slot).count 1
  paging : next.paging = k.paging.addPage (frameOf slot) slot
  cr3 : next.cr3 = slot
  page : Written next.paging slot k next
  fs : next.fsPcb = k.fsPcb
  others : ∀ other, other ≠ slot → next.pcbs other = k.pcbs other
  fresh : ¬HasFile (next.pcbs slot).fileArray

structure Ended (k next : Kernel) (process : Slot) (resumed : Option Slot) : Prop where
  top : k.foreground = some process
  linked : (k.pcbs process).parentPtr = resumed
  table : next.table = (k.table.leave process resumed).count (-1)
  paging : next.paging = k.paging
  mem : next.mem = k.mem
  fs : next.fsPcb = k.fsPcb
  others : ∀ other, other ≠ process → next.pcbs other = k.pcbs other

structure Switched (k next : Kernel) (target : TerminalId) : Prop where
  other : target ≠ k.current
  table : next.table = k.table.switch target
  paging : next.paging = k.paging
  pcbs : next.pcbs = k.pcbs
  fs : next.fsPcb = k.fsPcb
  page : Written k.paging next.cr3 k next

def reloadedBytes (image : Image) (process : Slot) (stale : Dentry) (k : Kernel) : List UInt8 :=
  let dentry := k.programDentry image process stale
  programBytes image dentry.inode (image.inodeLength dentry.inode)

structure Reloaded (image : Image) (stale : Dentry) (k next : Kernel) (process : Slot) : Prop where
  cr3 : next.cr3 = (k.pcbs process).pid
  loaded : pokes k.paging next.cr3 imageAddr (k.reloadedBytes image process stale) k.mem = some next.mem

inductive Transition (image : Image) (k next : Kernel) : Prop
  | stay (same : Local k next)
  | launched {slot : Slot} (started : Launched k next slot)
  | resumed {process parent : Slot} (ended : Ended k next process (some parent))
      (cr3 : next.cr3 = (k.pcbs parent).pid)
  | relaunched {process slot : Slot} {middle : Kernel} (ended : Ended k middle process none)
      (started : Launched middle next slot)
  | shellStarted {target : TerminalId} (switched : Switched k next target)
      (unvisited : k.numProgs target = 0) (cr3 : next.cr3 = terminalSlot target)
  | reloaded {target : TerminalId} {process : Slot} {stale : Dentry}
      (switched : Switched k next target) (visited : k.numProgs target ≠ 0)
      (top : k.currPcb target = some process) (again : Reloaded image stale k next process)

theorem Transition.table (transition : Transition image k next) :
    ProcessTable.Step k.table next.table := by
  cases transition with
  | stay same => exact same.table ▸ ProcessTable.Step.stay k.table
  | launched started => exact started.table ▸ ProcessTable.Step.started started.free
  | resumed ended => exact ended.table ▸ ProcessTable.Step.resumed ended.top ended.linked
  | @relaunched process slot middle ended started =>
      have free : middle.table.pcbTrack slot = false := started.free
      rw [ended.table] at free
      rw [started.table, ended.table]
      exact ProcessTable.Step.relaunched ended.top ended.linked free
  | shellStarted switched => exact switched.table ▸ ProcessTable.Step.switched switched.other
  | reloaded switched => exact switched.table ▸ ProcessTable.Step.switched switched.other

/-! ### Steps that start and end no process -/

theorem Quiet.local (quiet : Quiet k next) : Local k next where
  table := quiet.table
  paging := quiet.paging
  cr3 := quiet.cr3
  page := quiet.page
  identity slot := by rw [quiet.pcbs]
  fs := Or.inl quiet.fs
  files slot _ := Or.inl (by rw [quiet.pcbs])
  opened slot has := Or.inl (quiet.pcbs ▸ has)

theorem Quiet.ofStored (stored : Stored k next) : Quiet k next := by
  obtain ⟨⟨mem, rfl⟩, page⟩ := stored
  exact ⟨rfl, rfl, rfl, rfl, rfl, page⟩

theorem Quiet.refl (k : Kernel) : Quiet k k := Quiet.ofStored (Stored.refl k)

theorem Local.ofFiles {files : FileArray} (identity : next.table = k.table)
    (paging : next.paging = k.paging) (cr3 : next.cr3 = k.cr3) (page : Written k.paging k.cr3 k next)
    (pcbs : next.pcbs = Function.update k.pcbs slot { k.pcbs slot with fileArray := files })
    (fs : next.fsPcb = k.fsPcb ∨ next.fsPcb = k.foreground)
    (owner : k.foreground = some slot ∨
      k.fsPcb = some slot ∧ ∃ process, k.foreground = some process ∧ HasFile (k.pcbs process).fileArray)
    (opened : HasFile files → HasFile (k.pcbs slot).fileArray ∨
      k.foreground = some slot ∧ next.fsPcb = some slot) : Local k next where
  table := identity
  paging := paging
  cr3 := cr3
  page := page
  identity other := by
    rw [pcbs]
    rcases eq_or_ne other slot with same | apart
    · subst same
      rw [Function.update_self]
    · rw [Function.update_of_ne apart]
  fs := fs
  files other elsewhere := by
    rw [pcbs]
    rcases eq_or_ne other slot with same | apart
    · subst same
      exact Or.inr (owner.resolve_left elsewhere)
    · rw [Function.update_of_ne apart]
      exact Or.inl rfl
  opened other has := by
    rw [pcbs] at has
    rcases eq_or_ne other slot with same | apart
    · subst same
      rw [Function.update_self] at has
      exact opened has
    · rw [Function.update_of_ne apart] at has
      exact Or.inl has

theorem Closed.local (closed : Closed process k next) (running : k.foreground = some process) :
    Local k next := by
  obtain ⟨files, rtc, rfl, kept⟩ := closed
  exact Local.ofFiles (@table_setFiles k process files) rfl rfl (Written.ofMem rfl) rfl (Or.inl rfl)
    (Or.inl running) fun has => Or.inl (Closed.hasFile kept has)

theorem Opened.local (opened : Opened process k next) (running : k.foreground = some process) :
    Local k next := by
  cases opened with
  | refused => exact (Quiet.refl k).local
  | rtc free fops =>
      refine Local.ofFiles (table_setFiles _) rfl rfl (Written.ofMem rfl) rfl (Or.inl rfl)
        (Or.inl running) fun has => Or.inl ?_
      refine has.set.resolve_right fun entry => ?_
      cases fops.symm.trans entry.2
  | file free =>
      exact Local.ofFiles (@table_setFiles k process _) rfl rfl (Written.ofMem rfl) rfl
        (Or.inr running.symm) (Or.inl running) fun _ => Or.inr ⟨running, rfl⟩

theorem Reading.local {fd nbytes : Int} {buf : Nat} (read : Reading image process fd buf nbytes k next)
    (running : k.foreground = some process) : Local k next := by
  cases read with
  | refused => exact (Quiet.refl k).local
  | terminal => exact Quiet.local ⟨rfl, rfl, rfl, rfl, rfl, Written.ofMem rfl⟩
  | rtc rtc => exact Quiet.local ⟨rfl, rfl, rfl, rfl, rfl, Written.ofMem rfl⟩
  | @file index ret next used fops done =>
      have has : HasFile (k.pcbs process).fileArray := ⟨index, FileArray.inUse_flags used, fops⟩
      obtain ⟨owner, mem, last, rfl, page⟩ := fileRead_effect done
      obtain ⟨position, moved⟩ := @fsRead_entry image nbytes ((k.pcbs owner).fileArray index)
      refine Local.ofFiles (@table_setFiles k owner _) rfl rfl page rfl (Or.inl rfl)
        (Or.inr ⟨last, process, running, has⟩) fun has => Or.inl ?_
      refine has.set.elim id fun entry => ⟨index, ?_⟩
      rw [moved] at entry
      exact entry

theorem Quiet.ofTty {tty : Tty} {readers : TerminalId → Option UserRead}
    (current : tty.currTerminal = k.current) :
    Quiet k { k with tty := tty, readers := readers } := by
  have same : ({ k with tty := tty, readers := readers } : Kernel).table = k.table := by
    rw [Kernel.table, Kernel.table]
    exact congrArg (fun current => ProcessTable.mk current k.numProgs k.currPcb k.pcbTrack
      (fun slot => (k.pcbs slot).parentPtr) fun slot => (k.pcbs slot).pid) current
  exact ⟨same, rfl, rfl, rfl, rfl, Written.ofMem rfl⟩

theorem readAccess_quiet {user : UserRead} (done : k.readAccess user = some next) :
    Quiet k next := by
  have current := k.tty.readStep_terminal k.current user.call
  rw [readAccess] at done
  cases taken : k.tty.readStep k.current user.call with
  | finished bytes tty =>
      rw [taken] at done current
      cases done
      exact Quiet.ofTty current
  | running call tty =>
      rw [taken] at done current
      have moved : Quiet k { k with
          tty := tty
          readers := Function.update k.readers k.current (some { user with call := call }) } :=
        Quiet.ofTty current
      dsimp only at done
      split at done
      · obtain ⟨⟨mem, rfl⟩, page⟩ := storeByte_stored done
        exact ⟨moved.table, rfl, rfl, rfl, rfl, page⟩
      · cases done
        exact moved

theorem print_quiet (text : List Char) : Quiet k (k.print text) :=
  ⟨rfl, rfl, rfl, rfl, rfl, Written.ofMem rfl⟩

theorem Wrote.quiet {bytes : List UInt8} (wrote : Wrote bytes k next) : Quiet k next := by
  cases wrote with
  | refused => exact Quiet.refl k
  | terminal =>
      exact Quiet.ofTty (Tty.currTerminal_of_keyboard (Tty.keyboard_terminalWrite bytes))
  | rtc rtc => exact ⟨rfl, rfl, rfl, rfl, rfl, Written.ofMem rfl⟩

theorem executeFailed_quiet {command : List UInt8} {stale : Stale} {ret : Int}
    (done : k.systemExecute image command stale = some (.failed ret next)) : Quiet k next := by
  rcases systemExecute_effect done with rfl | ⟨text, rfl⟩
  · exact Quiet.refl _
  · exact print_quiet text

/-! ### Executing, halting and switching -/

theorem launch_launched {pcb : Pcb} {dentry : Dentry} {entry : UInt32}
    (free : k.pcbTrack slot = false) (fresh : ¬HasFile pcb.fileArray)
    (done : k.launch image slot pcb dentry entry = some next) : Launched k next slot := by
  obtain ⟨loaded, copied, rfl⟩ := Option.map_eq_some_iff.mp done
  obtain ⟨⟨mem, rfl⟩, page⟩ := storeBytes_stored copied
  let placed := k.occupy slot { pcb with parentPtr := k.foreground }
  have others (other : Slot) (apart : other ≠ slot) : placed.pcbs other = k.pcbs other :=
    Function.update_of_ne apart ..
  have own : (placed.pcbs slot).fileArray = pcb.fileArray := by
    simp only [placed, occupy, setPcb, Function.update_self]
  have table : placed.table = _ := table_occupy { pcb with parentPtr := k.foreground }
  refine ⟨free, ?_, rfl, rfl, page, rfl, others, fun has => fresh (own ▸ has)⟩
  have parent := congrArg ProcessTable.parent table
  have pid := congrArg ProcessTable.pid table
  exact congrArg₂ (fun parent pid => ProcessTable.mk k.current
    (Function.update k.numProgs k.current (k.numProgs k.current + 1))
    (Function.update k.currPcb k.current (some slot)) (Function.update k.pcbTrack slot true)
    parent pid) parent pid

theorem executeStarted_launched {command : List UInt8} {stale : Stale}
    (done : k.systemExecute image command stale = some (.started next)) :
    ∃ slot, Launched k next slot := by
  obtain ⟨slot, pcb, dentry, entry, free, fresh, launched⟩ := systemExecute_effect done
  exact ⟨slot, launch_launched free fresh launched⟩

theorem returnSyscall_effect {stale : Stale} (running : k.foreground = some process)
    (done : k.returnSyscall image stale process = some next) :
    (∃ parent, Ended k next process (some parent) ∧ next.cr3 = (k.pcbs parent).pid) ∨
      ∃ middle slot, Ended k middle process none ∧ Launched middle next slot := by
  cases returnSyscall_returned done with
  | @resumed parent linked =>
      exact Or.inl ⟨parent, ⟨running, linked, rfl, rfl, rfl, rfl, fun _ _ => rfl⟩, rfl⟩
  | relaunched base executed =>
      obtain ⟨slot, launched⟩ := executeStarted_launched executed
      refine Or.inr ⟨_, slot, ?_, launched⟩
      exact ⟨running, base, rfl, rfl, rfl, rfl, fun _ _ => rfl⟩

theorem Ended.ofClosed {resumed : Option Slot} (closed : Closed process k middle)
    (ended : Ended middle next process resumed) : Ended k next process resumed := by
  obtain ⟨files, rtc, rfl, -⟩ := closed
  have table : (k.setFiles process files).table = k.table := table_setFiles files
  obtain ⟨top, linked, changed, paging, mem, fs, others⟩ := ended
  constructor
  · exact top
  · have link : ((k.setFiles process files).pcbs process).parentPtr = (k.pcbs process).parentPtr :=
      congrArg (fun table => ProcessTable.parent table process) table
    exact link.symm.trans linked
  · exact table ▸ changed
  · exact paging
  · exact mem
  · exact fs
  · intro other apart
    exact (others other apart).trans (Function.update_of_ne apart ..)

theorem systemHalt_effect {stale : Stale} (running : k.foreground = some process)
    (done : k.systemHalt image stale process = some next) :
    (∃ parent, Ended k next process (some parent) ∧ next.cr3 = (k.pcbs parent).pid) ∨
      ∃ middle slot, Ended k middle process none ∧ Launched middle next slot := by
  obtain ⟨middle, closing, returned⟩ := Option.bind_eq_some_iff.mp done
  have closed := closeAll_closed closing
  have same := closed.local running
  have running' : middle.foreground = some process := by
    have tops := congrArg (fun table => ProcessTable.currPcb table table.current) same.table
    exact tops.trans running
  rcases returnSyscall_effect running' returned with ⟨parent, ended, cr3⟩ | ⟨ended, slot, left, started⟩
  · have pid := congrArg (fun table => ProcessTable.pid table parent) same.table
    exact Or.inl ⟨parent, ended.ofClosed closed, cr3.trans pid⟩
  · exact Or.inr ⟨ended, slot, left.ofClosed closed, started⟩

theorem keyEvent_effect {code : UInt8} {regs : SaveRegs} {stale : Dentry}
    (done : k.keyEvent image code regs stale = some next) :
    Quiet k next ∨ ∃ target, Switched k next target ∧
      (k.numProgs target = 0 ∧ next.cr3 = terminalSlot target ∨
        k.numProgs target ≠ 0 ∧ ∃ process, k.currPcb target = some process ∧
          Reloaded image stale k next process) := by
  have terminal := @Tty.keyboardHandler_terminal k.tty code
  rw [keyEvent] at done
  split at done
  · cases handled : k.tty.keyboardHandler code with
    | returned tty =>
        rw [handled] at done terminal
        cases done
        exact Or.inl (Quiet.ofTty terminal)
    | switched target tty =>
        rw [handled] at done terminal
        have other : target ≠ k.current := terminal.2
        refine Or.inr ⟨target, ?_⟩
        dsimp only at done
        cases switchTerminal_brought done with
        | shell unvisited loaded =>
            have zero : k.table.numProgs target = 0 := unvisited
            refine ⟨⟨other, ?_, rfl, rfl, rfl, fun address changed => pokes_written loaded changed⟩,
              Or.inl ⟨unvisited, rfl⟩⟩
            rw [ProcessTable.switch, if_pos zero]
            rfl
        | @program process mem saved visited top last loaded =>
            have nonzero : ¬k.table.numProgs target = 0 := visited
            refine ⟨⟨other, ?_, rfl, rfl, rfl, fun address changed => pokes_written loaded changed⟩,
              Or.inr ⟨visited, process, top, rfl, loaded⟩⟩
            rw [ProcessTable.switch, if_neg nonzero]
            rfl
  · cases done

theorem step_transition {event : Event} (done : k.step image event = some next) :
    Transition image k next := by
  cases step_occurs done with
  | key done =>
      rcases keyEvent_effect done with same | ⟨target, switched, ⟨unvisited, cr3⟩ | reload⟩
      · exact Transition.stay same.local
      · exact Transition.shellStarted switched unvisited cr3
      · obtain ⟨visited, process, top, again⟩ := reload
        exact Transition.reloaded switched visited top again
  | rtcTick => exact Transition.stay (Quiet.local ⟨rfl, rfl, rfl, rfl, rfl, Written.ofMem rfl⟩)
  | firstShell done =>
      obtain ⟨slot, launched⟩ := executeStarted_launched done
      exact Transition.launched launched
  | readAccess reading done => exact Transition.stay (readAccess_quiet done).local
  | executeFailed running done => exact Transition.stay (executeFailed_quiet done).local
  | executeStarted running done =>
      obtain ⟨slot, launched⟩ := executeStarted_launched done
      exact Transition.launched launched
  | halt running done =>
      rcases systemHalt_effect (running_foreground running) done with
        ⟨parent, ended, cr3⟩ | ⟨middle, slot, left, started⟩
      · exact Transition.resumed ended cr3
      · exact Transition.relaunched left started
  | read running read => exact Transition.stay (read.local (running_foreground running))
  | write running wrote => exact Transition.stay wrote.quiet.local
  | opened running opened => exact Transition.stay (opened.local (running_foreground running))
  | closed running done =>
      exact Transition.stay ((systemClose_closed done).local (running_foreground running))
  | stored running stored => exact Transition.stay (Quiet.ofStored stored).local

theorem step_table {event : Event} (done : k.step image event = some next) :
    ProcessTable.Step k.table next.table := (step_transition done).table

end Kernel

end G29Os
