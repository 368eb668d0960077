import G29Os.ProcessInvariant
import G29Os.ProcessTurns

/-!
Where `tss.esp0` points. Every change of program sets it to the top of a kernel stack, except
a reload: that one takes the stack pointer that `keyboard_wrapper` saved when the program was
left, below what the interrupt had pushed.
-/

namespace G29Os

open StepRun

namespace Kernel

variable {image : Image} {k next : Kernel} {trips : TerminalId → Nat} {process : Slot}
  {terminal : TerminalId}

def pcbSize : Nat := 396

def pcbAddr (slot : Slot) : Nat := kernelMemEnd - stackSize - slot.val * stackSize

def InStack (process : Slot) (esp0 : Nat) : Prop :=
  pcbAddr process + pcbSize < esp0 ∧ esp0 ≤ pcbAddr process + stackSize

/-- An interrupt in user mode pushes five words at `esp0`, and `keyboard_wrapper` four
registers before it pushes `%esp`. -/
def wrapperEsp (k : Kernel) : UInt32 := UInt32.ofNat k.esp0 - (5 + 4) * 4

/-- A key that switches terminals comes while a program runs in user mode. -/
def FromUserMode (k : Kernel) : Event → Prop
  | .key code regs _ => (k.tty.afterKey code).currTerminal ≠ k.current →
      k.readers k.current = none ∧ regs.esp = k.wrapperEsp
  | _ => True

/-- Counts, for each terminal, how often its program was left and reloaded since `esp0` was
last set to the top of a stack there. -/
def noteTrips (image : Image) (k : Kernel) (event : Event) (next : Kernel) (trips : TerminalId → Nat) :
    TerminalId → Nat :=
  match event with
  | .key .. =>
      if next.current = k.current then trips
      else if k.numProgs next.current = 0 then Function.update trips next.current 0
      else Function.update trips next.current (trips next.current + 1)
  | .execute command stale =>
      if (started (k.systemExecute image command stale)).isSome then
        Function.update trips k.current 0
      else trips
  | .firstShell _ => Function.update trips k.current 0
  | .halt _ => Function.update trips k.current 0
  | _ => trips

def roundTrips (image : Image) (start : Kernel) (events : List Event) : TerminalId → Nat :=
  recorded (step image) (noteTrips image) start events fun _ => 0

structure Drifted (k : Kernel) (trips : TerminalId → Nat) : Prop where
  front : ∀ process, k.foreground = some process →
    (k.esp0 + 36 * trips k.current) % 4294967296 = stackTop process ∧ k.esp0 < 4294967296
  away : ∀ terminal process, terminal ≠ k.current → k.numProgs terminal ≠ 0 →
    k.currPcb terminal = some process →
      ((k.saveProgRegs terminal).esp.toNat + 36 * (trips terminal + 1)) % 4294967296 =
        stackTop process

theorem stackTop_lt (slot : Slot) : stackTop slot < 4294967296 := by
  have bound := slot.isLt
  simp only [stackTop, kernelMemEnd, stackSize]
  omega

theorem Drifted.entered {top : Slot} (drifted : Drifted k trips) (entered : Entered k next top) :
    Drifted next (Function.update trips k.current 0) := by
  constructor
  · intro process running
    rw [Kernel.foreground, entered.current, entered.tops, Function.update_self] at running
    cases running
    rw [entered.current, Function.update_self, entered.esp0]
    exact ⟨Nat.mod_eq_of_lt (stackTop_lt top), stackTop_lt top⟩
  · intro terminal process away visited there
    rw [entered.current] at away
    rw [entered.counts terminal away] at visited
    rw [entered.tops, Function.update_of_ne away] at there
    rw [entered.saveProgRegs, Function.update_of_ne away]
    exact drifted.away terminal process away visited there

theorem toNat_wrapperEsp (bound : k.esp0 < 4294967296) :
    (k.wrapperEsp.toNat + 36) % 4294967296 = k.esp0 := by
  have frame : ((5 + 4) * 4 : UInt32).toNat = 36 := rfl
  rw [wrapperEsp, UInt32.toNat_sub, frame, UInt32.toNat_ofNat']
  omega

theorem Drifted.swapped {target : TerminalId} {regs : SaveRegs} (drifted : Drifted k trips)
    (swapped : Swapped k next target regs) (saved : regs.esp = k.wrapperEsp) :
    Drifted next (Function.update trips target
      (if k.numProgs target = 0 then 0 else trips target + 1)) := by
  obtain ⟨current, currPcb, -⟩ := swapped.fields
  have others (terminal : TerminalId) (apart : terminal ≠ target) :
      next.numProgs terminal = k.numProgs terminal := by
    have counts := congrArg (fun table => ProcessTable.numProgs table terminal) swapped.table
    rw [ProcessTable.switch] at counts
    split at counts
    · exact counts.trans (Function.update_of_ne apart ..)
    · exact counts
  constructor
  · intro process running
    rw [Kernel.foreground, current, currPcb] at running
    rw [current, Function.update_self]
    rcases swapped.esp0 with ⟨unvisited, top⟩ | ⟨visited, reloaded⟩
    · rw [if_pos unvisited, top, running]
      exact ⟨Nat.mod_eq_of_lt (stackTop_lt process), stackTop_lt process⟩
    · rw [if_neg visited, reloaded, swapped.saveProgRegs, Function.update_of_ne swapped.other]
      exact ⟨drifted.away target process swapped.other visited running, UInt32.toNat_lt _⟩
  · intro terminal process away visited there
    rw [current] at away
    rw [currPcb] at there
    rw [swapped.saveProgRegs, Function.update_of_ne away]
    rcases eq_or_ne terminal k.current with left | elsewhere
    · subst left
      obtain ⟨front, bound⟩ := drifted.front process there
      have pushed := toNat_wrapperEsp bound
      rw [Function.update_self, saved]
      omega
    · rw [others terminal away] at visited
      rw [Function.update_of_ne elsewhere]
      exact drifted.away terminal process elsewhere visited there

theorem noteTrips_stays {event : Event} (current : next.current = k.current)
    (silent : ∀ stale, event ≠ .firstShell stale ∧ event ≠ .halt stale)
    (failed : ∀ command stale, event = .execute command stale →
      started (k.systemExecute image command stale) = none) :
    noteTrips image k event next trips = trips := by
  cases event with
  | firstShell stale => exact absurd rfl (silent stale).1
  | halt stale => exact absurd rfl (silent stale).2
  | execute command stale =>
      have unstarted := failed command stale rfl
      simp only [noteTrips, unstarted, Option.isSome_none, Bool.false_eq_true, if_false]
  | key code regs stale => simp only [noteTrips, current, if_true]
  | rtcTick | read | readAccess | write | «open» | close | getargs | vidmap | store =>
      simp only [noteTrips]

theorem Drifted.step {event : Event} (drifted : Drifted k trips) (user : FromUserMode k event)
    (done : k.step image event = some next) : Drifted next (noteTrips image k event next trips) := by
  cases step_turn done with
  | stays same silent failed =>
      have current : next.current = k.current := congrArg ProcessTable.current same.table
      have numProgs : next.numProgs = k.numProgs := congrArg ProcessTable.numProgs same.table
      have currPcb : next.currPcb = k.currPcb := congrArg ProcessTable.currPcb same.table
      rw [noteTrips_stays current silent failed]
      constructor
      · rw [Kernel.foreground, current, currPcb, same.esp0]
        exact drifted.front
      · rw [current, numProgs, currPcb, same.saveProgRegs]
        exact drifted.away
  | firstShell front empty done =>
      obtain ⟨slot, entered⟩ := executeStarted_entered done
      exact drifted.entered entered
  | started running done =>
      obtain ⟨slot, entered⟩ := executeStarted_entered done
      rw [noteTrips, done]
      exact drifted.entered entered
  | halted running done =>
      obtain ⟨top, entered⟩ := systemHalt_entered done
      exact drifted.entered entered
  | @switched code regs stale target tty next handled done =>
      have swapped := switchTerminal_swapped handled done
      have moved : (k.tty.afterKey code).currTerminal ≠ k.current := by
        rw [Tty.afterKey_of_switched handled]
        exact swapped.other
      have kept := drifted.swapped swapped (user moved).2
      have current := swapped.fields.1
      rw [noteTrips, current, if_neg swapped.other]
      split at kept
      · rename_i unvisited
        rwa [if_pos unvisited]
      · rename_i visited
        rwa [if_neg visited]

theorem Booted.drifted (booted : Booted image k) : Drifted k fun _ => 0 := by
  constructor
  · intro process running
    cases booted.foreground.symm.trans running
  · intro terminal process away visited
    rw [booted.current] at away
    exact absurd (booted.unstarted away) visited

theorem inStack_iff {esp0 count : Nat} (drift : (esp0 + 36 * count) % 4294967296 = stackTop process)
    (bound : esp0 < 4294967296) :
    InStack process esp0 ↔
      36 * count % 4294967296 < 7792 ∨ 36 * count % 4294967296 = 4294967292 := by
  have slot := process.isLt
  have words : 36 * count % 4294967296 % 4 = 0 := by omega
  have small : 36 * count % 4294967296 < 4294967296 := Nat.mod_lt _ (by decide)
  rw [← Nat.add_mod_mod] at drift
  generalize 36 * count % 4294967296 = lost at drift words small ⊢
  simp only [stackTop, kernelMemEnd, stackSize] at drift
  simp only [InStack, pcbAddr, pcbSize, kernelMemEnd, stackSize]
  omega

theorem Booted.drifts {start : Kernel} {events : List Event} (booted : Booted image start)
    (path : Path (step image) FromUserMode start events k) :
    Drifted k (roundTrips image start events) :=
  path.recorded_invariant Drifted (fun _ _ _ _ user drifted done => drifted.step user done)
    booted.drifted

/-- `esp0` is inside the stack of the program that runs exactly while the frames that its
terminal's round trips have left there fit above the PCB: 216 of them, before addresses wrap. -/
theorem esp0_inStack_iff {start : Kernel} {events : List Event} (booted : Booted image start)
    (path : Path (step image) FromUserMode start events k) (running : k.running = some process) :
    InStack process k.esp0 ↔
      36 * roundTrips image start events k.current % 4294967296 < 7792 ∨
        36 * roundTrips image start events k.current % 4294967296 = 4294967292 := by
  obtain ⟨drift, bound⟩ := (booted.drifts path).front process (running_foreground running)
  exact inStack_iff drift bound

end Kernel

end G29Os
