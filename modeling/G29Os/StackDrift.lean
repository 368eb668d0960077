import G29Os.ImageReads
import G29Os.KernelInput
import G29Os.KernelStack

/-!
Two terminals, and the keys that bring now the one and now the other to the front. The run can
go on for ever, and every round costs each of the two programs a frame of its kernel stack.
-/

namespace G29Os

open PageTables StepRun

namespace Tty

variable {tty : Tty} {code : UInt8} {target : TerminalId}

theorem modifiers_altFn (asked : switchTarget code = some target) (modifiers : Modifiers) :
    modifiers.key code = modifiers := by
  obtain ⟨shift, ctrl, alt, caps⟩ := modifiers
  revert shift ctrl alt caps
  rcases switchTarget_code asked with rfl | rfl | rfl <;> decide

theorem press_altFn (asked : switchTarget code = some target) (state : LineState) :
    state.press code = state := by
  rcases switchTarget_code asked with rfl | rfl | rfl <;> rfl

theorem keyboardHandler_altFn (altDown : tty.modifiers.alt = true)
    (asked : switchTarget code = some target) (other : target ≠ tty.currTerminal) :
    ∃ switched, tty.keyboardHandler code = .switched target switched := by
  have held : (heldKeys code tty).modifiers = tty.modifiers := by
    rw [← modifiers_altFn asked tty.modifiers]
    exact modifiers_heldKeys code
  have altHeld : (heldKeys code tty).altPressed = true :=
    (congrArg Modifiers.alt held).trans altDown
  rw [keyboardHandler]
  simp only [altHeld, if_true, asked, if_neg other]
  exact ⟨_, rfl⟩

theorem lineState_altFn (altDown : tty.modifiers.alt = true) (asked : switchTarget code = some target) :
    (tty.afterKey code).lineState = tty.lineState := by
  rw [lineState_afterKey, modifiers_altFn asked, LineState.key, if_pos altDown, press_altFn asked,
    Function.update_eq_self]

end Tty

namespace Kernel

variable {k next : Kernel} {here there : TerminalId}

theorem shellFile_fits :
    imageAddr = mb128 + 0x48000 ∧
      0x48000 + (programBytes smallImage 0 (smallImage.inodeLength 0)).length ≤ mb4 := by
  decide +kernel

structure Shuttle (k : Kernel) (here there : TerminalId) : Prop where
  mapped : Mapped k
  current : k.current = here
  altDown : k.tty.modifiers.alt = true
  lines : ∀ terminal, (k.tty.lineState terminal).position = 0 ∧ (k.tty.lineState terminal).size = 0
  idle : ∀ terminal, k.readers terminal = none
  visited : ∀ terminal, terminal = here ∨ terminal = there → k.numProgs terminal ≠ 0
  top : ∀ terminal, terminal = here ∨ terminal = there → ∃ process, k.currPcb terminal = some process ∧
    k.pcbTrack process = true ∧ (k.pcbs process).pid = process ∧
      (smallImage.readDentryByName (k.pcbs process).name).map Dentry.inode = some 0

theorem Shuttle.inRange (shuttle : Shuttle k here there) : k.tty.InRange := by
  obtain ⟨position, size⟩ := shuttle.lines k.current
  have zero : k.tty.curBufferPosition k.tty.currTerminal = 0 := position
  have empty : k.tty.curBufferSize k.tty.currTerminal = 0 := size
  rw [Tty.InRange, zero, empty]
  decide

theorem reloadProgram_some {process : Slot} (mapped : Mapped k) {tty : Tty}
    {saved : TerminalId → SaveRegs} {stale : Dentry} (top : k.currPcb tty.currTerminal = some process)
    (live : k.pcbTrack process = true) (placed : (k.pcbs process).pid = process)
    (named : (smallImage.readDentryByName (k.pcbs process).name).map Dentry.inode = some 0) :
    ∃ next, { k with tty := tty, saveProgRegs := saved }.reloadProgram smallImage stale = some next := by
  obtain ⟨dentry, found, inode⟩ := Option.map_eq_some_iff.mp named
  obtain ⟨address, fits⟩ := shellFile_fits
  obtain ⟨mem, loaded⟩ := pokes_some (mapped.program process live) fits k.mem
  rw [reloadProgram]
  have front : ({ k with tty := tty, saveProgRegs := saved } : Kernel).foreground = some process := top
  simp only [front, programDentry, found, Option.getD_some, inode, loadProgram, storeBytes_pokes,
    placed, address, loaded, Option.map_some]
  exact ⟨_, rfl⟩

theorem Shuttle.step {code : UInt8} {regs : SaveRegs} {stale : Dentry}
    (shuttle : Shuttle k here there) (other : there ≠ here)
    (asked : Tty.switchTarget code = some there) :
    ∃ next, k.step smallImage (.key code regs stale) = some next ∧ Swapped k next there regs ∧
      Shuttle next there here := by
  have visited := shuttle.visited there (Or.inr rfl)
  obtain ⟨process, top, live, placed, named⟩ := shuttle.top there (Or.inr rfl)
  have elsewhere : there ≠ k.tty.currTerminal := by
    rw [show k.tty.currTerminal = here from shuttle.current]
    exact other
  obtain ⟨switched, handled⟩ := Tty.keyboardHandler_altFn shuttle.altDown asked elsewhere
  have begun : k.keyEvent smallImage code regs stale =
      { k with tty := switched }.switchTerminal smallImage there regs stale := by
    rw [keyEvent, if_pos shuttle.inRange.keyInRow, handled]
  obtain ⟨next, reloaded⟩ : ∃ next,
      { k with tty := switched }.switchTerminal smallImage there regs stale = some next := by
    rw [switchTerminal, if_neg visited]
    exact reloadProgram_some shuttle.mapped top live placed named
  have done : k.step smallImage (.key code regs stale) = some next := begun.trans reloaded
  have swapped := switchTerminal_swapped handled reloaded
  obtain ⟨-, tty, readers⟩ := keyEvent_tty done
  obtain ⟨current, currPcb, pcbTrack, -⟩ := swapped.fields
  have numProgs : next.numProgs = k.numProgs := by
    have counts := congrArg ProcessTable.numProgs swapped.table
    have nonzero : ¬k.table.numProgs there = 0 := visited
    rw [ProcessTable.switch, if_neg nonzero] at counts
    exact counts
  refine ⟨next, done, swapped, (step_transition done).mapped shuttle.mapped, current, ?_, ?_, ?_, ?_, ?_⟩
  · rw [tty, Tty.modifiers_afterKey, Tty.modifiers_altFn asked]
    exact shuttle.altDown
  · rw [tty, Tty.lineState_altFn shuttle.altDown asked]
    exact shuttle.lines
  · rw [readers]
    exact shuttle.idle
  · intro terminal either
    rw [numProgs]
    exact shuttle.visited terminal either.symm
  · intro terminal either
    rw [currPcb, pcbTrack, swapped.pcbs]
    exact shuttle.top terminal either.symm

theorem shellReads_mapped :
    ∀ span ∈ smallImage.lookSpan :: loadSpans smallImage 0 (smallImage.inodeLength 0), span.Mapped := by
  decide +kernel

theorem Shuttle.readsMapped {code : UInt8} {regs : SaveRegs} {stale : Dentry} (shuttle : Shuttle k here there)
    (other : there ≠ here) (asked : Tty.switchTarget code = some there) :
    ReadsMapped smallImage k (.key code regs stale) := by
  obtain ⟨process, top, -, -, named⟩ := shuttle.top there (Or.inr rfl)
  obtain ⟨dentry, found, inode⟩ := Option.map_eq_some_iff.mp named
  have elsewhere : there ≠ k.tty.currTerminal := by
    rw [show k.tty.currTerminal = here from shuttle.current]
    exact other
  obtain ⟨switched, handled⟩ := Tty.keyboardHandler_altFn shuttle.altDown asked elsewhere
  have spans : k.eventSpans smallImage (.key code regs stale) =
      smallImage.lookSpan :: loadSpans smallImage 0 (smallImage.inodeLength 0) := by
    simp only [eventSpans, handled, switchSpans, if_neg (shuttle.visited there (Or.inr rfl)), top, programDentry,
      found, Option.getD_some, inode]
  rw [ReadsMapped, spans]
  exact shellReads_mapped

def UserKey (k : Kernel) (event : Event) : Prop :=
  (FromUserMode k event ∧ ReadsMapped smallImage k event) ∧ ∃ code regs stale, event = .key code regs stale

theorem Shuttle.user {code : UInt8} {stale : Dentry} (shuttle : Shuttle k here there) (other : there ≠ here)
    (asked : Tty.switchTarget code = some there) : UserKey k (.key code { noRegs with esp := k.wrapperEsp } stale) :=
  ⟨⟨fun _ => ⟨shuttle.idle k.current, rfl⟩, shuttle.readsMapped other asked⟩, _, _, _, rfl⟩

structure SamePcbs (k next : Kernel) : Prop where
  pcbs : next.pcbs = k.pcbs
  pcbTrack : next.pcbTrack = k.pcbTrack
  currPcb : next.currPcb = k.currPcb

theorem Swapped.samePcbs {target : TerminalId} {regs : SaveRegs} (swapped : Swapped k next target regs) :
    SamePcbs k next :=
  ⟨swapped.pcbs, swapped.fields.2.2.1, swapped.fields.2.1⟩

theorem SamePcbs.trans {middle : Kernel} (first : SamePcbs k middle) (second : SamePcbs middle next) :
    SamePcbs k next :=
  ⟨second.pcbs.trans first.pcbs, second.pcbTrack.trans first.pcbTrack, second.currPcb.trans first.currPcb⟩

theorem Shuttle.rounds {code code' : UInt8} (shuttle : Shuttle k here there) (other : there ≠ here)
    (away : Tty.switchTarget code = some there) (home : Tty.switchTarget code' = some here)
    (trips : TerminalId → Nat) (count : Nat) :
    ∃ events finish, Path (Kernel.step smallImage) UserKey k events finish ∧
      Shuttle finish here there ∧ SamePcbs k finish ∧
      recorded (Kernel.step smallImage) (noteTrips smallImage) k events trips here = trips here + count := by
  induction count generalizing k trips with
  | zero => exact ⟨[], k, Path.nil k, shuttle, ⟨rfl, rfl, rfl⟩, rfl⟩
  | succ count ih =>
      let key (code : UInt8) (k : Kernel) : Event := .key code { noRegs with esp := k.wrapperEsp } noDentry
      obtain ⟨gone, left, swapped, shuttle'⟩ : ∃ gone, k.step smallImage (key code k) = some gone ∧
        Swapped k gone there _ ∧ Shuttle gone there here := shuttle.step other away
      obtain ⟨back, returned, swapped', shuttle''⟩ : ∃ back,
        gone.step smallImage (key code' gone) = some back ∧ Swapped gone back here _ ∧
          Shuttle back here there := shuttle'.step other.symm home
      let noted := noteTrips smallImage gone (key code' gone) back
        (noteTrips smallImage k (key code k) gone trips)
      obtain ⟨events, finish, path, ends, same, counted⟩ := ih shuttle'' noted
      refine ⟨key code k :: key code' gone :: events, finish, ?_, ends,
        (swapped.samePcbs.trans swapped'.samePcbs).trans same, ?_⟩
      · exact Path.cons (shuttle.user other away) left (Path.cons (shuttle'.user other.symm home) returned path)
      · have once : noted here = trips here + 1 := by
          have visited := shuttle'.visited here (Or.inr rfl)
          have visited' := shuttle.visited there (Or.inr rfl)
          simp only [noted, key, noteTrips, shuttle.current, shuttle'.current, shuttle''.current,
            if_neg other, if_neg other.symm, if_neg visited, if_neg visited', Function.update_self,
            Function.update_of_ne other.symm]
        rw [recorded_cons left, recorded_cons returned, counted, once]
        omega

instance (k : Kernel) : (event : Event) → Decidable (FromUserMode k event)
  | .key code regs _ => inferInstanceAs (Decidable ((k.tty.afterKey code).currTerminal ≠ k.current →
      k.readers k.current = none ∧ regs.esp = k.wrapperEsp))
  | .rtcTick | .firstShell _ | .execute .. | .halt _ | .read .. | .readAccess | .write .. | .open _
  | .close _ | .getargs .. | .vidmap _ | .store .. => isTrue trivial

def twoShells : List Event :=
  [.firstShell noStale, .key alt noRegs noDentry,
    .key f2 { noRegs with esp := UInt32.ofNat (stackTop 0) - 36 } noDentry]

theorem twoShells_shuttle :
    ∃ start k, Booted smallImage start ∧
      Path (step smallImage) (fun k event => FromUserMode k event ∧ ReadsMapped smallImage k event) start twoShells k ∧
      Shuttle k 1 0 ∧ k.running = some 1 ∧ (∀ terminal, roundTrips smallImage start twoShells terminal = 0) ∧
      k.freeSlot = some 3 ∧ (k.pcbs 1).parentPtr = none ∧ (k.pcbs 1).fileArray 7 = Fd.closed := by
  have ran : (bootSmall.bind fun start =>
      (runWhere (step smallImage) (fun k event => FromUserMode k event ∧ ReadsMapped smallImage k event) start
          twoShells).map fun k =>
        decide ((k.current = 1 ∧ k.tty.modifiers.alt = true ∧ k.running = some 1 ∧
          (∀ terminal, roundTrips smallImage start twoShells terminal = 0) ∧ k.freeSlot = some 3 ∧
          (k.pcbs 1).parentPtr = none ∧ (k.pcbs 1).fileArray 7 = Fd.closed) ∧
        (∀ terminal, (k.tty.lineState terminal).position = 0 ∧ (k.tty.lineState terminal).size = 0) ∧
        (∀ terminal, k.readers terminal = none) ∧
        (∀ terminal, terminal = 1 ∨ terminal = 0 → k.numProgs terminal ≠ 0) ∧
        ∀ terminal, terminal = 1 ∨ terminal = 0 → ∃ process, k.currPcb terminal = some process ∧
          k.pcbTrack process = true ∧ (k.pcbs process).pid = process ∧
            (smallImage.readDentryByName (k.pcbs process).name).map Dentry.inode = some 0)) =
      some true := by
    decide +kernel
  obtain ⟨start, booted, found⟩ := Option.bind_eq_some_iff.mp ran
  obtain ⟨k, computed, holds⟩ := Option.map_eq_some_iff.mp found
  obtain ⟨⟨current, altDown, running, trips, pcbs⟩, lines, idle, visited, top⟩ := of_decide_eq_true holds
  have path := runWhere_path computed
  have started := bootSmall_booted booted
  have reached : Reachable (step smallImage) (Booted smallImage) k :=
    ⟨start, twoShells, started, path.mono fun _ _ _ => trivial⟩
  exact ⟨start, k, started, path, ⟨(sound_reachable reached).mapped, current, altDown, lines, idle, visited, top⟩,
    running, trips, pcbs⟩

/-- The second terminal's shell, left and brought back 217 times, has its entry point in the PCB. -/
theorem esp0_leaves :
    ¬∀ (start k : Kernel) (events : List Event) (process : Slot), Booted smallImage start →
      Path (step smallImage) FromUserMode start events k → k.running = some process →
        InStack process k.esp0 := by
  obtain ⟨start, k, booted, path, shuttle, running, none, -⟩ := twoShells_shuttle
  obtain ⟨events, finish, keys, ends, -, counted⟩ :=
    shuttle.rounds (by decide) (show Tty.switchTarget f1 = some 0 from rfl)
      (show Tty.switchTarget f2 = some 1 from rfl) (roundTrips smallImage start twoShells) 217
  intro claimed
  obtain ⟨process, top, -⟩ := ends.top 1 (Or.inl rfl)
  have front : finish.running = some process := by
    rw [Kernel.running, ends.idle, foreground, ends.current]
    exact top
  have early : Path (step smallImage) FromUserMode start twoShells k := path.mono fun _ _ => And.left
  have later : Path (step smallImage) FromUserMode k events finish := keys.mono fun _ _ key => key.1.1
  have whole := early.append later
  have inside := claimed start finish _ process booted whole front
  have trips : roundTrips smallImage start (twoShells ++ events) finish.current = 217 := by
    rw [ends.current, roundTrips, early.recorded_append later]
    exact counted.trans (congrArg (· + 217) (none 1))
  obtain ⟨drift, bound⟩ := (booted.drifts whole).front process (running_foreground front)
  rw [trips] at drift
  exact absurd ((inStack_iff drift bound).mp inside) (by decide)

theorem esp0_twoShells :
    ∃ start k, Booted smallImage start ∧ Path (step smallImage) FromUserMode start twoShells k ∧
      k.running = some 1 ∧ InStack 1 k.esp0 := by
  obtain ⟨start, k, booted, early, shuttle, running, none, -⟩ := twoShells_shuttle
  have path : Path (step smallImage) FromUserMode start twoShells k := early.mono fun _ _ => And.left
  refine ⟨start, k, booted, path, running, (esp0_inStack_iff booted path running).mpr (Or.inl ?_)⟩
  rw [shuttle.current, none 1]
  decide

end Kernel

end G29Os
