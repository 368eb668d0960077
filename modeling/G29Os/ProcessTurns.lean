import G29Os.KernelEffects

/-!
The events that start, end, switch or reload a program, and what every other event leaves as
it is. What a record beside a run notes depends on the event, so these lemmas keep it.
-/

namespace G29Os

namespace Kernel

variable {image : Image} {k next : Kernel} {process slot : Slot}

/-- The statics of `syscalls.c` that only a change of program writes, with `tss.esp0`. -/
structure SameStatics (k next : Kernel) : Prop where
  esp0 : next.esp0 = k.esp0
  saveProgRegs : next.saveProgRegs = k.saveProgRegs
  shell : next.shell = k.shell

theorem SameStatics.refl (k : Kernel) : SameStatics k k := ⟨rfl, rfl, rfl⟩

theorem Stored.statics (stored : Stored k next) : SameStatics k next := by
  obtain ⟨⟨mem, rfl⟩, -⟩ := stored
  exact ⟨rfl, rfl, rfl⟩

theorem Closed.statics (closed : Closed process k next) : SameStatics k next := by
  obtain ⟨files, rtc, rfl, -⟩ := closed
  exact ⟨rfl, rfl, rfl⟩

theorem Opened.statics (opened : Opened process k next) : SameStatics k next := by
  cases opened with
  | refused => exact SameStatics.refl k
  | rtc free fops => exact ⟨rfl, rfl, rfl⟩
  | file free => exact ⟨rfl, rfl, rfl⟩

theorem Reading.statics {fd nbytes : Int} {buf : Nat}
    (read : Reading image process fd buf nbytes k next) : SameStatics k next := by
  cases read with
  | refused => exact SameStatics.refl _
  | terminal => exact ⟨rfl, rfl, rfl⟩
  | rtc rtc => exact ⟨rfl, rfl, rfl⟩
  | file used fops done =>
      obtain ⟨owner, mem, -, rfl, -⟩ := fileRead_effect done
      exact ⟨rfl, rfl, rfl⟩

theorem Wrote.statics {bytes : List UInt8} (wrote : Wrote bytes k next) : SameStatics k next := by
  cases wrote with
  | refused => exact SameStatics.refl _
  | terminal => exact ⟨rfl, rfl, rfl⟩
  | rtc rtc => exact ⟨rfl, rfl, rfl⟩

theorem readAccess_statics {user : UserRead} (done : k.readAccess user = some next) :
    SameStatics k next := by
  rw [readAccess] at done
  split at done
  · cases done
    exact ⟨rfl, rfl, rfl⟩
  · dsimp only at done
    split at done
    · obtain ⟨⟨mem, rfl⟩, -⟩ := storeByte_stored done
      exact ⟨rfl, rfl, rfl⟩
    · cases done
      exact ⟨rfl, rfl, rfl⟩

structure Stays (k next : Kernel) : Prop extends Local k next, SameStatics k next

inductive Turn (image : Image) (k : Kernel) : Event → Kernel → Prop
  | stays {event : Event} {next : Kernel} (same : Stays k next)
      (silent : ∀ stale, event ≠ .firstShell stale ∧ event ≠ .halt stale)
      (failed : ∀ command stale, event = .execute command stale →
        started (k.systemExecute image command stale) = none) : Turn image k event next
  | firstShell {stale : Stale} {next : Kernel} (front : k.current = 0) (empty : k.currPcb 0 = none)
      (done : k.systemExecute image shellName stale = some (.started next)) :
      Turn image k (.firstShell stale) next
  | started {process : Slot} {command : List UInt8} {stale : Stale} {next : Kernel}
      (running : k.running = some process)
      (done : k.systemExecute image command stale = some (.started next)) :
      Turn image k (.execute command stale) next
  | halted {process : Slot} {stale : Stale} {next : Kernel} (running : k.running = some process)
      (done : k.systemHalt image stale process = some next) : Turn image k (.halt stale) next
  | switched {code : UInt8} {regs : SaveRegs} {stale : Dentry} {target : TerminalId} {tty : Tty}
      {next : Kernel} (handled : k.tty.keyboardHandler code = .switched target tty)
      (done : { k with tty := tty }.switchTerminal image target regs stale = some next) :
      Turn image k (.key code regs stale) next

theorem Turn.plain {event : Event} (same : Local k next) (statics : SameStatics k next)
    (plain : ∀ stale command, event ≠ .firstShell stale ∧ event ≠ .halt stale ∧
      event ≠ .execute command stale) : Turn image k event next :=
  Turn.stays ⟨same, statics⟩ (fun stale => ⟨(plain stale []).1, (plain stale []).2.1⟩)
    fun command stale is => absurd is (plain stale command).2.2

theorem Turn.ofStored {event : Event} (stored : Stored k next)
    (plain : ∀ stale command, event ≠ .firstShell stale ∧ event ≠ .halt stale ∧
      event ≠ .execute command stale) : Turn image k event next :=
  Turn.plain (Quiet.ofStored stored).local stored.statics plain

theorem keyEvent_turn {code : UInt8} {regs : SaveRegs} {stale : Dentry}
    (done : k.keyEvent image code regs stale = some next) : Turn image k (.key code regs stale) next := by
  have terminal := @Tty.keyboardHandler_terminal k.tty code
  rw [keyEvent] at done
  split at done
  · cases handled : k.tty.keyboardHandler code with
    | returned tty =>
        rw [handled] at done terminal
        cases done
        exact Turn.plain (Quiet.ofTty terminal).local ⟨rfl, rfl, rfl⟩ (by simp)
    | switched target tty =>
        rw [handled] at done
        exact Turn.switched handled done
  · cases done

theorem execute_turn {command : List UInt8} {stale : Stale} (running : k.running = some process)
    (done : executed (k.systemExecute image command stale) = some next) :
    Turn image k (.execute command stale) next := by
  cases called : k.systemExecute image command stale with
  | none =>
      rw [called] at done
      cases done
  | some outcome =>
      cases outcome with
      | failed ret failed =>
          rw [called] at done
          cases done
          have statics : SameStatics k next := by
            rcases systemExecute_effect called with rfl | ⟨text, rfl⟩
            · exact SameStatics.refl _
            · exact ⟨rfl, rfl, rfl⟩
          refine Turn.stays ⟨(executeFailed_quiet called).local, statics⟩ (by simp) ?_
          intro command' stale' same
          cases same
          rw [called]
          rfl
      | started begun =>
          rw [called] at done
          cases done
          exact Turn.started running called

theorem step_turn {event : Event} (done : k.step image event = some next) :
    Turn image k event next := by
  have foreground {process : Slot} := @running_foreground k process
  have occurs := step_occurs done
  cases event with
  | key code regs stale => exact keyEvent_turn done
  | firstShell stale =>
      have called := firstShell_executed done
      rw [step, firstShell] at done
      split at done
      · rename_i idle
        exact Turn.firstShell idle.1 idle.2 called
      · cases done
  | execute command stale =>
      obtain ⟨process, running, called⟩ := Option.bind_eq_some_iff.mp done
      exact execute_turn running called
  | halt stale =>
      obtain ⟨process, running, called⟩ := Option.bind_eq_some_iff.mp done
      exact Turn.halted running called
  | rtcTick =>
      cases done
      have quiet : Quiet k { k with rtc := rtcHandler k.rtc } :=
        ⟨rfl, rfl, rfl, rfl, rfl, Written.ofMem rfl⟩
      exact Turn.plain quiet.local ⟨rfl, rfl, rfl⟩ (by simp)
  | readAccess =>
      cases occurs with
      | readAccess reading done =>
          exact Turn.plain (readAccess_quiet done).local (readAccess_statics done) (by simp)
      | stored running stored => exact Turn.ofStored stored (by simp)
  | read fd buf nbytes =>
      cases occurs with
      | read running read =>
          exact Turn.plain (read.local (foreground running)) read.statics (by simp)
      | stored running stored => exact Turn.ofStored stored (by simp)
  | write fd bytes =>
      cases occurs with
      | write running wrote => exact Turn.plain wrote.quiet.local wrote.statics (by simp)
      | stored running stored => exact Turn.ofStored stored (by simp)
  | «open» filename =>
      cases occurs with
      | opened running opened =>
          exact Turn.plain (opened.local (foreground running)) opened.statics (by simp)
      | stored running stored => exact Turn.ofStored stored (by simp)
  | close fd =>
      cases occurs with
      | closed running done =>
          have closed := systemClose_closed done
          exact Turn.plain (closed.local (foreground running)) closed.statics (by simp)
      | stored running stored => exact Turn.ofStored stored (by simp)
  | getargs buf nbytes behind =>
      cases occurs with
      | stored running stored => exact Turn.ofStored stored (by simp)
  | vidmap screenStart =>
      cases occurs with
      | stored running stored => exact Turn.ofStored stored (by simp)
  | store v byte =>
      cases occurs with
      | stored running stored => exact Turn.ofStored stored (by simp)

structure Swapped (k next : Kernel) (target : TerminalId) (regs : SaveRegs) : Prop where
  other : target ≠ k.current
  table : next.table = k.table.switch target
  pcbs : next.pcbs = k.pcbs
  shell : next.shell = k.shell
  saveProgRegs : next.saveProgRegs = Function.update k.saveProgRegs k.current regs
  readers : next.readers = k.readers
  esp0 : k.numProgs target = 0 ∧ next.esp0 = ((k.currPcb target).map stackTop).getD (stackSize - 4) ∨
    k.numProgs target ≠ 0 ∧ next.esp0 = (next.saveProgRegs target).esp.toNat

theorem switchTerminal_swapped {code : UInt8} {regs : SaveRegs} {stale : Dentry} {target : TerminalId}
    {tty : Tty} (handled : k.tty.keyboardHandler code = .switched target tty)
    (done : { k with tty := tty }.switchTerminal image target regs stale = some next) :
    Swapped k next target regs := by
  have terminal := @Tty.keyboardHandler_terminal k.tty code
  rw [handled] at terminal
  obtain ⟨stays, other⟩ := terminal
  have saved : Function.update k.saveProgRegs tty.currTerminal regs =
      Function.update k.saveProgRegs k.current regs := by rw [stays, Kernel.current]
  cases switchTerminal_brought done with
  | shell unvisited loaded =>
      have zero : k.table.numProgs target = 0 := unvisited
      refine ⟨other, ?_, rfl, rfl, saved, rfl, Or.inl ⟨unvisited, rfl⟩⟩
      rw [ProcessTable.switch, if_pos zero]
      rfl
  | program visited top last loaded =>
      subst last
      have nonzero : ¬k.table.numProgs target = 0 := visited
      refine ⟨other, ?_, rfl, rfl, saved, rfl, Or.inr ⟨visited, rfl⟩⟩
      rw [ProcessTable.switch, if_neg nonzero]
      rfl

theorem Swapped.fields {target : TerminalId} {regs : SaveRegs} (swapped : Swapped k next target regs) :
    next.current = target ∧ next.currPcb = k.currPcb ∧ next.pcbTrack = k.pcbTrack ∧
      next.table.pid = k.table.pid ∧ next.table.parent = k.table.parent := by
  have pcbs := swapped.pcbs
  have table := swapped.table
  rw [ProcessTable.switch] at table
  refine ⟨?_, ?_, ?_, by simp only [Kernel.table, pcbs], by simp only [Kernel.table, pcbs]⟩
  all_goals split at table
  · exact congrArg ProcessTable.current table
  · exact congrArg ProcessTable.current table
  · exact congrArg ProcessTable.currPcb table
  · exact congrArg ProcessTable.currPcb table
  · exact congrArg ProcessTable.pcbTrack table
  · exact congrArg ProcessTable.pcbTrack table

def namedPcb (command name : List UInt8) (stale : Pcb) : Pcb :=
  let pcb := newPcbInit stale
  { pcb with args := copyArgs command pcb.args, name := copyName name pcb.name }

theorem systemExecute_started {command : List UInt8} {stale : Stale}
    (done : k.systemExecute image command stale = some (.started next)) :
    ∃ slot dentry entry, k.pcbTrack slot = false ∧
      findProgram image (commandName command) stale.fileHeader = some (dentry, entry) ∧
      (spilledName dentry (commandName command)).length < lineBuffer ∧
      k.launch image slot (namedPcb command (spilledName dentry (commandName command)) stale.pcb)
        dentry entry = some next := by
  rw [systemExecute] at done
  dsimp only at done
  split at done
  · cases done
  · rename_i dentry entry found
    split at done
    · cases done
    · rename_i slot free
      split at done
      · cases done
      · rename_i short
        obtain ⟨started, launched, same⟩ := Option.map_eq_some_iff.mp done
        cases same
        exact ⟨slot, dentry, entry, freeSlot_free free, found, Nat.lt_of_not_le short, launched⟩

theorem launch_pcb {pcb : Pcb} {dentry : Dentry} {entry : UInt32}
    (done : k.launch image slot pcb dentry entry = some next) :
    next.pcbs slot = { pcb with
      parentPtr := k.foreground
      physicalAddr := frameOf slot
      pid := slot } := by
  obtain ⟨loaded, copied, rfl⟩ := Option.map_eq_some_iff.mp done
  obtain ⟨⟨mem, rfl⟩, -⟩ := storeBytes_stored copied
  exact Function.update_self ..

/-- `top` goes on, or starts, on its terminal with `esp0` at the top of its own stack. -/
structure Entered (k next : Kernel) (top : Slot) : Prop where
  current : next.current = k.current
  tops : next.currPcb = Function.update k.currPcb k.current (some top)
  counts : ∀ other, other ≠ k.current → next.numProgs other = k.numProgs other
  esp0 : next.esp0 = stackTop top
  saveProgRegs : next.saveProgRegs = k.saveProgRegs

theorem executeStarted_entered {command : List UInt8} {stale : Stale}
    (done : k.systemExecute image command stale = some (.started next)) :
    ∃ slot, Entered k next slot := by
  obtain ⟨slot, pcb, dentry, entry, -, -, launched⟩ := systemExecute_effect done
  obtain ⟨loaded, copied, rfl⟩ := Option.map_eq_some_iff.mp launched
  obtain ⟨⟨mem, rfl⟩, -⟩ := storeBytes_stored copied
  exact ⟨slot, rfl, rfl, fun _ away => Function.update_of_ne away .., rfl, rfl⟩

theorem returnSyscall_entered {stale : Stale} (done : k.returnSyscall image stale process = some next) :
    ∃ top, Entered k next top := by
  cases returnSyscall_returned done with
  | @resumed parent linked =>
      exact ⟨parent, rfl, rfl, fun _ away => Function.update_of_ne away .., rfl, rfl⟩
  | relaunched base executed =>
      obtain ⟨slot, entered⟩ := executeStarted_entered executed
      refine ⟨slot, entered.current, entered.tops.trans ?_, fun other away => ?_, entered.esp0,
        entered.saveProgRegs⟩
      · exact Function.update_idem ..
      · exact (entered.counts other away).trans (Function.update_of_ne away ..)

theorem systemHalt_entered {stale : Stale} (done : k.systemHalt image stale process = some next) :
    ∃ top, Entered k next top := by
  obtain ⟨middle, closing, returned⟩ := Option.bind_eq_some_iff.mp done
  obtain ⟨files, rtc, rfl, -⟩ := closeAll_closed closing
  obtain ⟨top, entered⟩ := returnSyscall_entered returned
  exact ⟨top, entered.current, entered.tops, entered.counts, entered.esp0, entered.saveProgRegs⟩

end Kernel

end G29Os
