import G29Os.Processor
import G29Os.UserReads

/-!
Whether user mode runs with interrupts enabled. It does as long as no terminal is brought to the
front for the first time: `start_shell` is the one `iret` that neither sets the flag nor goes back
to a frame that was pushed with the flag set.
-/

namespace G29Os

open StepRun

/-! ### Frames that a program will go back through -/

/-- The flag is set in the frame of every caller, and of every program that waits in a read. -/
structure Returns (table : ProcessTable) (pending : TerminalId → Prop) (entry : Slot → UInt32) : Prop where
  parents : ∀ slot parent, table.pcbTrack slot = true → table.parent slot = some parent →
    Enabled (entry parent)
  calls : ∀ terminal, pending terminal →
    ∃ process, table.currPcb terminal = some process ∧ Enabled (entry process)

namespace Returns

variable {table next : ProcessTable} {pending fewer : TerminalId → Prop} {entry : Slot → UInt32}
  {process slot : Slot}

theorem same (returns : Returns table pending entry) (currPcb : next.currPcb = table.currPcb)
    (pcbTrack : next.pcbTrack = table.pcbTrack) (parent : next.parent = table.parent) :
    Returns next pending entry := by
  constructor
  · rw [pcbTrack, parent]
    exact returns.parents
  · rw [currPcb]
    exact returns.calls

theorem update (returns : Returns table pending entry) {value : UInt32} (enabled : Enabled value) :
    Returns table pending (Function.update entry process value) := by
  have kept (slot : Slot) (before : Enabled (entry slot)) :
      Enabled (Function.update entry process value slot) := by
    rcases eq_or_ne slot process with same | apart
    · rw [same, Function.update_self]
      exact enabled
    · rw [Function.update_of_ne apart]
      exact before
  constructor
  · intro slot parent live linked
    exact kept parent (returns.parents slot parent live linked)
  · intro terminal waiting
    obtain ⟨front, top, before⟩ := returns.calls terminal waiting
    exact ⟨front, top, kept front before⟩

theorem enter (returns : Returns table pending entry) (idle : ¬pending table.current)
    (caller : ∀ process, table.currPcb table.current = some process → Enabled (entry process)) :
    Returns ((table.enter slot).count 1) pending entry := by
  constructor
  · intro other parent live linked
    change Function.update table.pcbTrack slot true other = true at live
    change Function.update table.parent slot (table.currPcb table.current) other = some parent at linked
    rcases eq_or_ne other slot with same | apart
    · rw [same, Function.update_self] at linked
      exact caller parent linked
    · rw [Function.update_of_ne apart] at live linked
      exact returns.parents other parent live linked
  · intro terminal waiting
    have away : terminal ≠ table.current := by
      rintro rfl
      exact idle waiting
    obtain ⟨front, top, enabled⟩ := returns.calls terminal waiting
    exact ⟨front, (Function.update_of_ne away ..).trans top, enabled⟩

theorem leave (returns : Returns table pending entry) (idle : ¬pending table.current)
    {resumed : Option Slot} : Returns ((table.leave process resumed).count (-1)) pending entry := by
  constructor
  · intro other parent live linked
    change Function.update table.pcbTrack (table.pid process) false other = true at live
    refine returns.parents other parent ?_ linked
    rcases eq_or_ne other (table.pid process) with same | apart
    · rw [same, Function.update_self] at live
      cases live
    · rwa [Function.update_of_ne apart] at live
  · intro terminal waiting
    have away : terminal ≠ table.current := by
      rintro rfl
      exact idle waiting
    obtain ⟨front, top, enabled⟩ := returns.calls terminal waiting
    exact ⟨front, (Function.update_of_ne away ..).trans top, enabled⟩

theorem switch (returns : Returns table pending entry) (target : TerminalId) :
    Returns (table.switch target) pending entry := by
  rw [ProcessTable.switch]
  split
  · exact returns.same rfl rfl rfl
  · exact returns.same rfl rfl rfl

theorem step (returns : Returns table pending entry) (idle : ¬pending table.current)
    (caller : ∀ process, table.currPcb table.current = some process → Enabled (entry process))
    (taken : ProcessTable.Step table next) : Returns next pending entry := by
  cases taken with
  | stay => exact returns
  | started free => exact returns.enter idle caller
  | resumed top linked => exact returns.leave idle
  | @relaunched process slot top base free =>
      refine (returns.leave idle).enter idle fun front running => ?_
      change Function.update table.currPcb table.current none table.current = some front at running
      rw [Function.update_self] at running
      cases running
  | switched other => exact returns.switch _

end Returns

namespace Kernel

variable {image : Image} {k next : Kernel} {process : Slot}

structure SameReaders (k next : Kernel) : Prop where
  currPcb : next.currPcb = k.currPcb
  others : ∀ terminal, terminal ≠ k.current → next.readers terminal = k.readers terminal

theorem Reading.readers {fd nbytes : Int} {buf : Nat}
    (read : Reading image process fd buf nbytes k next) :
    next.readers = k.readers ∨ SameReaders k next := by
  cases read with
  | refused => exact Or.inl rfl
  | terminal => exact Or.inr ⟨rfl, fun terminal away => Function.update_of_ne away ..⟩
  | rtc rtc => exact Or.inl rfl
  | file used fops done =>
      obtain ⟨owner, mem, -, rfl, -⟩ := fileRead_effect done
      exact Or.inl rfl

theorem readAccess_readers {user : UserRead} (done : k.readAccess user = some next) :
    SameReaders k next := by
  rw [readAccess] at done
  split at done
  · cases done
    exact ⟨rfl, fun terminal away => Function.update_of_ne away ..⟩
  · dsimp only at done
    split at done
    · obtain ⟨⟨mem, rfl⟩, -⟩ := storeByte_stored done
      exact ⟨rfl, fun terminal away => Function.update_of_ne away ..⟩
    · cases done
      exact ⟨rfl, fun terminal away => Function.update_of_ne away ..⟩

theorem systemHalt_readers {stale : Stale} (done : k.systemHalt image stale process = some next) :
    next.readers = k.readers := by
  obtain ⟨middle, closing, returned⟩ := Option.bind_eq_some_iff.mp done
  have closed := (closeAll_closed closing).silent.readers
  cases returnSyscall_returned returned with
  | resumed linked => exact closed
  | relaunched base executed => exact (executeStarted_silent executed).readers.trans closed

theorem Wrote.readers {bytes : List UInt8} (wrote : Wrote bytes k next) : next.readers = k.readers := by
  cases wrote with
  | refused => rfl
  | terminal => rfl
  | rtc rtc => rfl

theorem step_readers {event : Event} (done : k.step image event = some next) :
    next.readers = k.readers ∨ SameReaders k next := by
  cases step_occurs done with
  | key done => exact Or.inl (keyEvent_tty done).2.2
  | rtcTick => exact Or.inl rfl
  | firstShell done => exact Or.inl (executeStarted_silent done).readers
  | readAccess reading done => exact Or.inr (readAccess_readers done)
  | executeFailed running done =>
      rcases systemExecute_effect done with rfl | ⟨text, rfl⟩
      · exact Or.inl rfl
      · exact Or.inl rfl
  | executeStarted running done => exact Or.inl (executeStarted_silent done).readers
  | halt running done => exact Or.inl (systemHalt_readers done)
  | read running read => exact read.readers
  | write running wrote => exact Or.inl wrote.readers
  | opened running opened => exact Or.inl opened.silent.readers
  | closed running done => exact Or.inl (systemClose_closed done).silent.readers
  | stored running stored => exact Or.inl stored.silent.readers

theorem keyEvent_reloaded {code : UInt8} {regs : SaveRegs} {stale : Dentry}
    (done : k.keyEvent image code regs stale = some next) (away : next.current ≠ k.current)
    (visited : k.numProgs next.current ≠ 0) : Enabled next.regs.eflags := by
  rw [keyEvent] at done
  split at done
  · have terminal := @Tty.keyboardHandler_terminal k.tty code
    cases handled : k.tty.keyboardHandler code with
    | returned tty =>
        rw [handled] at done terminal
        cases done
        exact absurd terminal away
    | switched target tty =>
        rw [handled] at done
        cases switchTerminal_brought done with
        | shell unvisited loaded => exact absurd unvisited visited
        | program visited' top last loaded => exact enabled_or _
  · cases done

end Kernel

namespace Processor

variable {image : Image} {p next : Processor} {process : Slot} {k : Kernel} {value : UInt32}

def Pending (p : Processor) (terminal : TerminalId) : Prop :=
  p.kernel.readers terminal ≠ none ∨ p.waits terminal ≠ none

theorem program_running (running : p.program = some process) :
    p.kernel.running = some process ∧ p.waits p.kernel.current = none := by
  rw [program] at running
  split at running
  · cases running
  · rename_i awake
    exact ⟨running, awake⟩

theorem program_idle (running : p.program = some process) : ¬p.Pending p.kernel.current := by
  obtain ⟨front, awake⟩ := program_running running
  rintro (reading | waiting)
  · exact reading (Kernel.running_idle front)
  · exact waiting awake

theorem program_pending (waiting : p.Pending p.kernel.current) : p.program = none := by
  cases running : p.program with
  | none => rfl
  | some process => exact absurd waiting (program_idle running)

theorem enterCall_entry : (p.enterCall process).entry process = p.eflags := Function.update_self ..

inductive Taken (image : Image) (p : Processor) : ProcessorEvent → Processor → Prop where
  | compute {eflags : UInt32} {process : Slot} (running : p.program = some process)
      (same : eflags &&& interruptFlag = p.eflags &&& interruptFlag) :
      Taken image p (.compute eflags) { p with eflags := eflags }
  | rtcWait {fd : Int} {process : Slot} (running : p.program = some process) :
      Taken image p (.rtcWait fd) { p.enterCall process with
        eflags := sti (gate p.eflags)
        waits := Function.update p.waits p.kernel.current (some fd) }
  | rtcReturn {fd : Int} {process : Slot} {k : Kernel} (waiting : p.waits p.kernel.current = some fd)
      (running : p.kernel.running = some process)
      (read : p.kernel.step image (.read fd 0 0) = some k) :
      Taken image p .rtcReturn ({ p with
        kernel := k
        waits := Function.update p.waits p.kernel.current none }.leaveCall process)
  | key {code : UInt8} {regs : SaveRegs} {stale : Dentry} {k : Kernel} (enabled : Enabled p.eflags)
      (pressed : p.kernel.step image (.key code { regs with eflags := p.eflags } stale) = some k) :
      Taken image p (.kernel (.key code regs stale)) (p.afterKey k)
  | rtcTick {k : Kernel} (enabled : Enabled p.eflags)
      (ticked : p.kernel.step image .rtcTick = some k) :
      Taken image p (.kernel .rtcTick) ({ p with kernel := k }.iret p.eflags)
  | firstShell {stale : Stale} {k : Kernel}
      (executed : p.kernel.step image (.firstShell stale) = some k) :
      Taken image p (.kernel (.firstShell stale))
        ({ p with kernel := k }.iretUser (p.eflags ||| interruptFlag))
  | readAccess {process : Slot} {k : Kernel} (running : p.kernel.foreground = some process)
      (accessed : p.kernel.step image .readAccess = some k) :
      Taken image p (.kernel .readAccess) (p.afterAccess process k)
  | called {event : Event} {process : Slot} {k : Kernel} (running : p.program = some process)
      (plain : ∀ code regs stale, event ≠ .key code regs stale)
      (taken : p.kernel.step image event = some k) :
      Taken image p (.kernel event) (p.afterEvent image event process k)

theorem step_taken {event : ProcessorEvent} (done : p.step image event = some next) :
    Taken image p event next := by
  have program {event : Event} (plain : ∀ code regs stale, event ≠ .key code regs stale)
      (called : (p.program.bind fun process =>
        if isRtcRead process event p.kernel then none
        else (p.kernel.step image event).map (p.afterEvent image event process)) = some next) :
      Taken image p (.kernel event) next := by
    obtain ⟨process, running, called⟩ := Option.bind_eq_some_iff.mp called
    split at called
    · cases called
    · obtain ⟨k, taken, rfl⟩ := Option.map_eq_some_iff.mp called
      exact Taken.called running plain taken
  cases event with
  | compute eflags =>
      rw [step] at done
      split at done
      · rename_i allowed
        obtain ⟨process, running⟩ := Option.isSome_iff_exists.mp allowed.1
        cases done
        exact Taken.compute running allowed.2
      · cases done
  | rtcWait fd =>
      obtain ⟨process, running, done⟩ := Option.bind_eq_some_iff.mp done
      split at done
      · cases done
        exact Taken.rtcWait running
      · cases done
  | rtcReturn =>
      rw [step] at done
      split at done
      · rename_i fd process waiting running
        obtain ⟨k, read, rfl⟩ := Option.map_eq_some_iff.mp done
        exact Taken.rtcReturn waiting running read
      · cases done
  | kernel event =>
      cases event with
      | key code regs stale =>
          rw [step] at done
          split at done
          · rename_i enabled
            obtain ⟨k, pressed, rfl⟩ := Option.map_eq_some_iff.mp done
            exact Taken.key enabled pressed
          · cases done
      | rtcTick =>
          rw [step] at done
          split at done
          · rename_i enabled
            obtain ⟨k, ticked, rfl⟩ := Option.map_eq_some_iff.mp done
            exact Taken.rtcTick enabled ticked
          · cases done
      | firstShell stale =>
          obtain ⟨k, executed, rfl⟩ := Option.map_eq_some_iff.mp done
          exact Taken.firstShell executed
      | readAccess =>
          obtain ⟨process, running, done⟩ := Option.bind_eq_some_iff.mp done
          obtain ⟨k, accessed, rfl⟩ := Option.map_eq_some_iff.mp done
          exact Taken.readAccess running accessed
      | execute command stale => exact program nofun done
      | halt stale => exact program nofun done
      | read fd buf nbytes => exact program nofun done
      | write fd bytes => exact program nofun done
      | «open» filename => exact program nofun done
      | close fd => exact program nofun done
      | getargs buf nbytes behind => exact program nofun done
      | vidmap screenStart => exact program nofun done
      | store v byte => exact program nofun done

/-! ### The invariant -/

structure Backed (p : Processor) : Prop where
  sound : Kernel.Sound p.kernel
  loaded : ∀ value ∈ p.loaded, Enabled value
  returns : Returns p.kernel.table p.Pending p.entry

structure Armed (p : Processor) : Prop extends Backed p where
  user : ∀ process, p.program = some process → Enabled p.eflags

theorem Backed.inKernel (backed : Backed p) (waiting : p.Pending p.kernel.current) : Armed p := by
  refine ⟨backed, fun process running => ?_⟩
  cases (program_pending waiting).symm.trans running

theorem Backed.iretUser (backed : Backed p) (enabled : Enabled value) : Armed (p.iretUser value) := by
  refine ⟨⟨backed.sound, fun other listed => ?_, backed.returns⟩, fun _ _ => enabled⟩
  rcases List.mem_cons.mp listed with same | earlier
  · exact same ▸ enabled
  · exact backed.loaded other earlier

theorem Backed.iret (backed : Backed p) (enabled : Enabled value) : Armed (p.iret value) := by
  rw [Processor.iret]
  split
  · exact backed.iretUser enabled
  · exact ⟨⟨backed.sound, backed.loaded, backed.returns⟩, fun _ _ => enabled⟩

theorem Armed.front (armed : Armed p) (running : p.kernel.foreground = some process)
    (waiting : p.Pending p.kernel.current) : Enabled (p.entry process) := by
  obtain ⟨front, top, enabled⟩ := armed.returns.calls _ waiting
  cases running.symm.trans top
  exact enabled

theorem Armed.called {event : Event} (armed : Armed p) (running : p.program = some process)
    (done : p.kernel.step image event = some k) :
    Backed { p.enterCall process with kernel := k } := by
  have front := (program_running running).1
  have idle := program_idle running
  have enabled := armed.user process running
  have returns := (armed.returns.update enabled).step idle (fun top listed => by
    cases (Kernel.running_foreground front).symm.trans listed
    rw [Function.update_self]
    exact enabled) (Kernel.step_table done)
  refine ⟨armed.sound.step done, armed.loaded, returns.parents, fun terminal waiting => ?_⟩
  rcases Kernel.step_readers done with same | read
  · refine returns.calls terminal ?_
    rw [Pending, same] at waiting
    exact waiting
  · rcases eq_or_ne terminal p.kernel.current with here | away
    · refine ⟨process, ?_, ?_⟩
      · rw [here]
        exact (congrFun read.currPcb _).trans (Kernel.running_foreground front)
      · exact enterCall_entry.symm ▸ enabled
    · refine returns.calls terminal ?_
      rw [Pending, read.others terminal away] at waiting
      exact waiting

theorem Armed.moved {event : Event} {eflags : UInt32} (armed : Armed p)
    (done : p.kernel.step image event = some k) (readers : k.readers = p.kernel.readers)
    (returns : Returns k.table p.Pending p.entry) : Backed { p with kernel := k, eflags := eflags } := by
  refine ⟨armed.sound.step done, armed.loaded, returns.parents, fun terminal waiting => ?_⟩
  refine returns.calls terminal ?_
  rw [Pending, readers] at waiting
  exact waiting

def StartsShell (p : Processor) : ProcessorEvent → Prop
  | .kernel (.key code _ _) => (p.kernel.tty.afterKey code).currTerminal ≠ p.kernel.current ∧
      p.kernel.numProgs (p.kernel.tty.afterKey code).currTerminal = 0
  | _ => False

instance (p : Processor) : (event : ProcessorEvent) → Decidable (StartsShell p event)
  | .kernel (.key _ _ _) => inferInstanceAs (Decidable (_ ∧ _))
  | .compute _ | .rtcWait _ | .rtcReturn | .kernel .rtcTick | .kernel (.firstShell _)
  | .kernel (.execute ..) | .kernel (.halt _) | .kernel (.read ..) | .kernel .readAccess
  | .kernel (.write ..) | .kernel (.open _) | .kernel (.close _) | .kernel (.getargs ..)
  | .kernel (.vidmap _) | .kernel (.store ..) => isFalse id

theorem Armed.key {code : UInt8} {regs : SaveRegs} {stale : Dentry} (armed : Armed p)
    (visited : ¬StartsShell p (.kernel (.key code regs stale))) (enabled : Enabled p.eflags)
    (pressed : p.kernel.step image (.key code { regs with eflags := p.eflags } stale) = some k) :
    Armed (p.afterKey k) := by
  obtain ⟨-, tty, readers⟩ := Kernel.keyEvent_tty pressed
  have current : k.current = (p.kernel.tty.afterKey code).currTerminal := congrArg Tty.currTerminal tty
  have returns : Returns k.table p.Pending p.entry := by
    cases Kernel.keyEvent_turn pressed with
    | stays same =>
        have table := same.table
        rw [table]
        exact armed.returns
    | switched handled switched =>
        obtain ⟨-, currPcb, pcbTrack, -, parent⟩ :=
          (Kernel.switchTerminal_swapped handled switched).fields
        exact armed.returns.same currPcb pcbTrack parent
  have backed := @Armed.moved image p k _ (gate p.eflags) armed pressed readers returns
  rw [afterKey]
  dsimp only
  split
  · exact backed.iret enabled
  · rename_i away
    split
    · rename_i unvisited
      rw [current] at away unvisited
      exact absurd ⟨away, unvisited⟩ visited
    · rename_i before
      exact backed.iret (Kernel.keyEvent_reloaded pressed away before)

theorem Armed.rtcTick (armed : Armed p) (enabled : Enabled p.eflags)
    (ticked : p.kernel.step image .rtcTick = some k) :
    Armed ({ p with kernel := k }.iret p.eflags) := by
  have same : { p.kernel with rtc := rtcHandler p.kernel.rtc } = k := Option.some.inj ticked
  subst same
  have backed := @Armed.moved image p _ _ p.eflags armed ticked rfl armed.returns
  exact backed.iret enabled

theorem Armed.firstShell {stale : Stale} (armed : Armed p)
    (executed : p.kernel.step image (.firstShell stale) = some k) :
    Armed ({ p with kernel := k }.iretUser (p.eflags ||| interruptFlag)) := by
  have readers := (Kernel.executeStarted_silent (Kernel.firstShell_executed executed)).readers
  have empty : p.kernel.foreground = none := by
    change p.kernel.firstShell image stale = some k at executed
    rw [Kernel.firstShell] at executed
    split at executed
    · rename_i boot
      rw [Kernel.foreground, boot.1]
      exact boot.2
    · cases executed
  have idle : ¬p.Pending p.kernel.current := by
    intro waiting
    obtain ⟨front, top, -⟩ := armed.returns.calls _ waiting
    cases empty.symm.trans top
  have returns := armed.returns.step idle (fun top listed => by
    cases empty.symm.trans listed) (Kernel.step_table executed)
  have backed := @Armed.moved image p k _ p.eflags armed executed readers returns
  exact backed.iretUser (enabled_or _)

theorem Armed.readAccess (armed : Armed p) (running : p.kernel.foreground = some process)
    (accessed : p.kernel.step image .readAccess = some k) : Armed (p.afterAccess process k) := by
  obtain ⟨user, reading, access⟩ := Option.bind_eq_some_iff.mp accessed
  have waiting : p.Pending p.kernel.current := by
    refine Or.inl ?_
    rw [reading]
    exact Option.some_ne_none user
  have enabled := armed.front running waiting
  have same := Kernel.readAccess_quiet access
  have read := Kernel.readAccess_readers access
  have returns : Returns k.table p.Pending p.entry := by
    rw [same.table]
    exact armed.returns
  have backed : Backed { p with
      kernel := k, eflags := if spins p.kernel then sti p.eflags else p.eflags } := by
    refine ⟨armed.sound.step accessed, armed.loaded, returns.parents, fun terminal later => ?_⟩
    refine returns.calls terminal ?_
    rcases eq_or_ne terminal p.kernel.current with here | away
    · exact here ▸ waiting
    · rw [Pending, read.others terminal away] at later
      exact later
  rw [afterAccess]
  split
  · rename_i user' still
    refine backed.inKernel (Or.inl ?_)
    rw [still]
    exact Option.some_ne_none user'
  · exact backed.iretUser enabled

theorem Armed.rtcWait {fd : Int} (armed : Armed p) (running : p.program = some process) :
    Armed { p.enterCall process with
      eflags := sti (gate p.eflags)
      waits := Function.update p.waits p.kernel.current (some fd) } := by
  have enabled := armed.user process running
  have front := Kernel.running_foreground (program_running running).1
  have returns := @Returns.update _ _ _ process armed.returns _ enabled
  have backed : Backed { p.enterCall process with
      eflags := sti (gate p.eflags)
      waits := Function.update p.waits p.kernel.current (some fd) } := by
    refine ⟨armed.sound, armed.loaded, returns.parents, fun terminal waiting => ?_⟩
    rcases eq_or_ne terminal p.kernel.current with here | away
    · subst here
      exact ⟨process, front, enterCall_entry.symm ▸ enabled⟩
    · refine returns.calls terminal ?_
      rw [Pending] at waiting
      dsimp only at waiting
      rw [Function.update_of_ne away] at waiting
      exact waiting
  refine backed.inKernel (Or.inr ?_)
  change Function.update p.waits p.kernel.current (some fd) p.kernel.current ≠ none
  rw [Function.update_self]
  exact Option.some_ne_none fd

theorem Armed.rtcReturn {fd : Int} (armed : Armed p) (waiting : p.waits p.kernel.current = some fd)
    (running : p.kernel.running = some process)
    (read : p.kernel.step image (.read fd 0 0) = some k) :
    Armed ({ p with
      kernel := k
      waits := Function.update p.waits p.kernel.current none }.leaveCall process) := by
  have pending : p.Pending p.kernel.current := by
    refine Or.inr ?_
    rw [waiting]
    exact Option.some_ne_none fd
  have enabled := armed.front (Kernel.running_foreground running) pending
  have readers (terminal : TerminalId) (away : terminal ≠ p.kernel.current) :
      k.readers terminal = p.kernel.readers terminal := by
    rcases Kernel.step_readers read with same | moved
    · exact congrFun same terminal
    · exact moved.others terminal away
  cases Kernel.step_turn read with
  | stays same =>
      have table := same.table
      have backed : Backed { p with
          kernel := k
          waits := Function.update p.waits p.kernel.current none } := by
        refine ⟨armed.sound.step read, armed.loaded, ?_, fun terminal later => ?_⟩
        · rw [table]
          exact armed.returns.parents
        · rw [table]
          refine armed.returns.calls terminal ?_
          rcases eq_or_ne terminal p.kernel.current with here | away
          · exact here ▸ pending
          · rw [Pending] at later
            dsimp only at later
            rw [readers terminal away, Function.update_of_ne away] at later
            exact later
      exact backed.iretUser enabled

theorem Armed.parent {parent : Slot} (armed : Armed p) (running : p.program = some process)
    (linked : (p.kernel.pcbs process).parentPtr = some parent) :
    Enabled ((p.enterCall process).entry parent) := by
  have front := Kernel.running_foreground (program_running running).1
  have live := (armed.sound.live_foreground front).1
  have called := @Returns.update _ _ _ process armed.returns _ (armed.user process running)
  exact called.parents process parent live linked

theorem Armed.afterEvent {event : Event} (armed : Armed p) (running : p.program = some process)
    (done : p.kernel.step image event = some k) : Armed (p.afterEvent image event process k) := by
  have enabled := armed.user process running
  have backed := armed.called running done
  have own : Enabled ((p.enterCall process).entry process) := by
    rw [enterCall_entry]
    exact enabled
  have blocked (user : UserRead) (still : k.readers k.current = some user) :
      Armed { p.enterCall process with kernel := k } := by
    refine backed.inKernel (Or.inl ?_)
    change k.readers k.current ≠ none
    rw [still]
    exact Option.some_ne_none user
  cases event with
  | store v byte =>
      have same : Kernel.Local p.kernel k := by
        cases Kernel.step_turn done with
        | stays same => exact same.toLocal
      have readers : k.readers = p.kernel.readers := by
        obtain ⟨process', -, taken⟩ := Option.bind_eq_some_iff.mp done
        exact (Kernel.storeByte_stored taken).silent.readers
      have returns : Returns k.table p.Pending p.entry := by
        rw [same.table]
        exact armed.returns
      have backed := @Armed.moved image p k _ p.eflags armed done readers returns
      exact ⟨backed, fun _ _ => enabled⟩
  | execute command stale =>
      rw [Processor.afterEvent]
      dsimp only
      split
      · exact backed.iretUser (enabled_or _)
      · exact backed.iretUser own
  | halt stale =>
      rw [Processor.afterEvent]
      dsimp only
      split
      · rename_i parent linked
        exact backed.iretUser (armed.parent running linked)
      · exact backed.iretUser (enabled_or _)
  | _ =>
      simp only [Processor.afterEvent]
      split
      · rename_i user still
        exact blocked user still
      · exact backed.iretUser own

theorem Armed.step {event : ProcessorEvent} (armed : Armed p) (visited : ¬StartsShell p event)
    (done : p.step image event = some next) : Armed next := by
  cases step_taken done with
  | compute running same =>
      have enabled := (enabled_congr same).mpr (armed.user _ running)
      exact ⟨⟨armed.sound, armed.loaded, armed.returns⟩, fun _ _ => enabled⟩
  | rtcWait running => exact armed.rtcWait running
  | rtcReturn waiting running read => exact armed.rtcReturn waiting running read
  | key enabled pressed => exact armed.key visited enabled pressed
  | rtcTick enabled ticked => exact armed.rtcTick enabled ticked
  | firstShell executed => exact armed.firstShell executed
  | readAccess running accessed => exact armed.readAccess running accessed
  | called running plain taken => exact armed.afterEvent running taken

theorem Booted.armed (booted : Booted image p) : Armed p := by
  have consistent := booted.kernel.consistent
  have alone : ∀ terminal : TerminalId, Kernel.bootChain terminal = [] ∨
      Kernel.bootChain terminal = [Kernel.terminalSlot terminal] := by decide
  refine ⟨⟨?_, ?_, ⟨?_, ?_⟩⟩, fun _ _ => booted.enabled⟩
  · exact Kernel.sound_reachable ⟨p.kernel, [], booted.kernel, Path.nil p.kernel⟩
  · rw [booted.fresh]
    exact fun value listed => absurd listed List.not_mem_nil
  · intro slot parent live linked
    obtain ⟨terminal, member⟩ := (consistent.live slot).mp live
    have follows := consistent.follows terminal
    rcases alone terminal with none | base
    · rw [none] at member
      cases member
    · rw [base] at member follows
      cases List.mem_singleton.mp member
      cases follows.last.symm.trans linked
  · intro terminal waiting
    rw [Pending, booted.kernel.readers, booted.awake] at waiting
    rcases waiting with reading | waiting
    · exact absurd rfl reading
    · exact absurd rfl waiting

/-! ### Every `iret` of a run -/

theorem iret_loaded (listed : value ∈ p.loaded) (eflags : UInt32) : value ∈ (p.iret eflags).loaded := by
  rw [iret]
  split
  · exact List.mem_cons_of_mem _ listed
  · exact listed

theorem afterEvent_loaded (listed : value ∈ p.loaded) (event : Event) :
    value ∈ (p.afterEvent image event process k).loaded := by
  cases event with
  | store v byte => exact listed
  | execute command stale =>
      rw [afterEvent]
      split
      · exact List.mem_cons_of_mem _ listed
      · exact List.mem_cons_of_mem _ listed
  | halt stale =>
      rw [afterEvent]
      split
      · exact List.mem_cons_of_mem _ listed
      · exact List.mem_cons_of_mem _ listed
  | _ =>
      simp only [afterEvent]
      split
      · exact listed
      · exact List.mem_cons_of_mem _ listed

theorem afterKey_loaded (listed : value ∈ p.loaded) : value ∈ (p.afterKey k).loaded := by
  rw [afterKey]
  dsimp only
  split
  · apply iret_loaded
    exact listed
  · split
    · exact List.mem_cons_of_mem _ listed
    · apply iret_loaded
      exact listed

theorem step_loaded {event : ProcessorEvent} (done : p.step image event = some next)
    (listed : value ∈ p.loaded) : value ∈ next.loaded := by
  cases step_taken done with
  | compute running same => exact listed
  | rtcWait running => exact listed
  | rtcReturn waiting running read => exact List.mem_cons_of_mem _ listed
  | key enabled pressed => exact afterKey_loaded listed
  | rtcTick enabled ticked =>
      apply iret_loaded
      exact listed
  | firstShell executed => exact List.mem_cons_of_mem _ listed
  | readAccess running accessed =>
      rw [afterAccess]
      split
      · exact listed
      · exact List.mem_cons_of_mem _ listed
  | called running plain taken => exact afterEvent_loaded listed _

theorem startsShell_loaded {event : ProcessorEvent} (shell : StartsShell p event)
    (done : p.step image event = some next) : gate p.eflags ∈ next.loaded := by
  cases step_taken done with
  | @key code regs stale k enabled pressed =>
      obtain ⟨away, unvisited⟩ := shell
      have current : k.current = (p.kernel.tty.afterKey code).currTerminal :=
        congrArg Tty.currTerminal (Kernel.keyEvent_tty pressed).2.1
      rw [← current] at away unvisited
      rw [afterKey, if_neg away, if_pos unvisited]
      exact List.mem_cons_self
  | @called event process k running plain taken =>
      cases event with
      | key code regs stale => exact absurd rfl (plain code regs stale)
      | _ => exact shell.elim
  | _ => exact shell.elim

/-- In every run of the booted machine: all that was loaded by an `iret` into user mode has the
flag set, and so has the program that runs, exactly when no key of the run has started a shell. -/
theorem userInterruptible_iff {start : Processor} {events : List ProcessorEvent}
    (booted : Booted image start) (path : Path (step image) (fun _ _ => True) start events p) :
    ((∀ value ∈ p.loaded, Enabled value) ∧ ∀ process, p.program = some process → Enabled p.eflags) ↔
      Path (step image) (fun p event => ¬StartsShell p event) start events p := by
  constructor
  · rintro ⟨loaded, -⟩
    clear booted
    induction path with
    | nil state => exact Path.nil state
    | @cons state middle finish event events allowed taken rest ih =>
        refine Path.cons (fun shell => ?_) taken (ih loaded)
        have kept := rest.preserves (fun later => gate state.eflags ∈ later.loaded)
          (fun _ _ _ _ listed taken => step_loaded taken listed) (startsShell_loaded shell taken)
        exact not_enabled_gate _ (loaded _ kept)
  · intro visited
    have armed := visited.preserves Armed (fun state event next allowed armed taken =>
      armed.step allowed taken) booted.armed
    exact ⟨armed.loaded, armed.user⟩

/-! ### Two runs -/

open Kernel (bootSmall smallImage shellName noStale noRegs noDentry)

def atBoot (k : Kernel) : Processor where
  kernel := k
  eflags := 0x202
  entry _ := 0
  waits _ := none
  loaded := []

theorem booted_atBoot (computed : bootSmall = some k) : Booted smallImage (atBoot k) := by
  have enabled : Enabled 0x202 := by decide
  exact ⟨Kernel.bootSmall_booted computed, enabled, fun _ => rfl, rfl⟩

def secondTerminal : List ProcessorEvent :=
  [.kernel (.firstShell noStale), .kernel (.key alt noRegs noDentry), .kernel (.key f2 noRegs noDentry)]

theorem userInterruptible_secondTerminal :
    ∃ start p, Booted smallImage start ∧
      Path (step smallImage) (fun _ _ => True) start secondTerminal p ∧
      p.program = some 1 ∧ ¬Enabled p.eflags ∧ ∃ value ∈ p.loaded, ¬Enabled value := by
  have ran : (bootSmall.bind fun k =>
      (runWhere (step smallImage) (fun _ _ => True) (atBoot k) secondTerminal).map fun p =>
        decide (p.program = some 1 ∧ ¬Enabled p.eflags ∧ p.loaded = [0x002, 0x202, 0x202])) =
          some true := by
    decide +kernel
  obtain ⟨k, computed, ran⟩ := Option.bind_eq_some_iff.mp ran
  obtain ⟨p, taken, ends⟩ := Option.map_eq_some_iff.mp ran
  obtain ⟨front, clear, loaded⟩ := of_decide_eq_true ends
  refine ⟨atBoot k, p, booted_atBoot computed, runWhere_path taken, front, clear, 0x002, ?_, by decide⟩
  rw [loaded]
  exact List.mem_cons_self

theorem userInterruptible_firstTerminal :
    ∃ start p events, Booted smallImage start ∧
      Path (step smallImage) (fun _ _ => True) start events p ∧ p.loaded.length = 5 ∧
      ∀ value ∈ p.loaded, Enabled value := by
  let events : List ProcessorEvent :=
    [.kernel (.firstShell noStale), .kernel (.execute shellName noStale), .kernel .rtcTick,
      .kernel (.key alt noRegs noDentry), .kernel (.halt noStale)]
  have ran : (bootSmall.bind fun k =>
      (runWhere (step smallImage) (fun p event => ¬StartsShell p event) (atBoot k) events).map fun p =>
        decide (p.loaded.length = 5)) = some true := by
    decide +kernel
  obtain ⟨k, computed, ran⟩ := Option.bind_eq_some_iff.mp ran
  obtain ⟨p, taken, ends⟩ := Option.map_eq_some_iff.mp ran
  have visited := runWhere_path taken
  have path := visited.mono fun _ _ _ => trivial
  have booted := booted_atBoot computed
  exact ⟨atBoot k, p, events, booted, path, of_decide_eq_true ends,
    ((userInterruptible_iff booted path).mpr visited).1⟩

end Processor

end G29Os
