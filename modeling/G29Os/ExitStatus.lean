import G29Os.CallFrames

/-!
The value that `system_execute` returns when the program it started has halted. The status
is the argument of `system_halt`, which jumps away from the frame that holds it.
-/

namespace G29Os

open StepRun

namespace Kernel

variable {image : Image} {k next : Kernel} {process : Slot}

/-- `returnSyscall` with the `return` statement that ends each of its two branches. -/
def returnSyscallValue (image : Image) (stale : Stale) (process : Slot) (k : Kernel) :
    Option (Int × Kernel) :=
  match (k.pcbs process).parentPtr with
  | none => (k.returnSyscall image stale process).map fun next => (0, next)
  | some _ => (k.returnSyscall image stale process).map fun next => (0, next)

/-- `system_halt(status)`; the value is that of the `system_execute` it goes back to. -/
def haltStatus (image : Image) (_status : UInt8) (stale : Stale) (process : Slot) (k : Kernel) :
    Option (Int × Kernel) :=
  (k.closeAll process maxFd).bind (returnSyscallValue image stale process)

theorem returnSyscallValue_eq (stale : Stale) :
    k.returnSyscallValue image stale process =
      (k.returnSyscall image stale process).map fun next => (0, next) := by
  rw [returnSyscallValue]
  split <;> rfl

theorem haltStatus_eq (status : UInt8) (stale : Stale) :
    k.haltStatus image status stale process =
      (k.systemHalt image stale process).map fun next => (0, next) := by
  rw [haltStatus, systemHalt, Option.map_bind]
  congr 1
  funext closed
  exact returnSyscallValue_eq stale

theorem haltStatus_value {status : UInt8} {stale : Stale} {value : Int}
    (halted : k.haltStatus image status stale process = some (value, next)) :
    value = 0 ∧ k.systemHalt image stale process = some next := by
  rw [haltStatus_eq] at halted
  obtain ⟨resumed, taken, same⟩ := Option.map_eq_some_iff.mp halted
  cases same
  exact ⟨rfl, taken⟩

/-- The status reaches the parent through the activation that the parent's call made, and the
value there is the status exactly when the status is 0. -/
theorem exitStatus_delivered_iff {start : Kernel} {events : List Event} {parent : Slot}
    {status : UInt8} {stale : Stale} {value : Int} (booted : Booted image start)
    (path : Path (step image) (fun _ _ => True) start events k) (running : k.running = some process)
    (child : (k.pcbs process).parentPtr = some parent)
    (halted : k.haltStatus image status stale process = some (value, next)) :
    (∃ activation, (framesAfter image start events).saved process = some (.execute activation) ∧
      activation.program = process ∧ activation.caller = some parent ∧
      ((framesAfter image start events).active k.current).head? = some activation) ∧
    next.foreground = some parent ∧ (value = (status.toNat : Int) ↔ status = 0) := by
  obtain ⟨chain, leftover, tracked⟩ := framesAfter_tracked booted path
  obtain ⟨zero, halt⟩ := haltStatus_value halted
  have front := running_foreground running
  rcases systemHalt_effect front halt with ⟨above, ended, -⟩ | ⟨middle, slot, ended, -⟩
  · cases child.symm.trans ended.linked
    obtain ⟨rest, activation, started, caller, innermost, -⟩ := tracked.resumed ended
    refine ⟨⟨activation, activation_saved started, tracked.program process activation started, caller,
      innermost⟩, ended.foreground, ?_⟩
    rw [zero]
    constructor
    · intro same
      have nothing : status.toNat = 0 := by omega
      exact UInt8.toNat_inj.mp nothing
    · rintro rfl
      rfl
  · cases child.symm.trans ended.linked

def childShell : List Event := [.firstShell noStale, .execute shellName noStale]

theorem childShell_halts (status : UInt8) :
    ∃ start k value next, Booted smallImage start ∧
      Path (step smallImage) (fun _ _ => True) start childShell k ∧ k.running = some 3 ∧
      (k.pcbs 3).parentPtr = some 0 ∧ k.haltStatus smallImage status noStale 3 = some (value, next) := by
  have ran : (bootSmall.bind fun start =>
      (runWhere (step smallImage) (fun _ _ => True) start childShell).map fun k =>
        decide (k.running = some 3 ∧ (k.pcbs 3).parentPtr = some 0 ∧
          (k.systemHalt smallImage noStale 3).isSome = true)) = some true := by decide +kernel
  obtain ⟨start, booted, found⟩ := Option.bind_eq_some_iff.mp ran
  obtain ⟨k, computed, holds⟩ := Option.map_eq_some_iff.mp found
  obtain ⟨running, child, halts⟩ := of_decide_eq_true holds
  obtain ⟨next, halted⟩ := Option.isSome_iff_exists.mp halts
  exact ⟨start, k, 0, next, bootSmall_booted booted, runWhere_path computed, running, child,
    by rw [haltStatus_eq, halted]; rfl⟩

theorem exitStatus_zero :
    ∃ start k value next, Booted smallImage start ∧
      Path (step smallImage) (fun _ _ => True) start childShell k ∧
      k.haltStatus smallImage 0 noStale 3 = some (value, next) ∧ next.foreground = some 0 ∧
      value = ((0 : UInt8).toNat : Int) := by
  obtain ⟨start, k, value, next, booted, path, running, child, halted⟩ := childShell_halts 0
  obtain ⟨-, front, same⟩ := exitStatus_delivered_iff booted path running child halted
  exact ⟨start, k, value, next, booted, path, halted, front, same.mpr rfl⟩

/-- A child that halts with status 1 looks to its parent as if it had halted with 0. -/
theorem exitStatus_lost :
    ¬∀ (start k next : Kernel) (events : List Event) (parent process : Slot) (status : UInt8)
      (stale : Stale) (value : Int), Booted smallImage start →
      Path (step smallImage) (fun _ _ => True) start events k → k.running = some process →
      (k.pcbs process).parentPtr = some parent →
      k.haltStatus smallImage status stale process = some (value, next) →
        value = (status.toNat : Int) := by
  intro claimed
  obtain ⟨start, k, value, next, booted, path, running, child, halted⟩ := childShell_halts 1
  have delivered := claimed start k next childShell 0 3 1 noStale value booted path running child halted
  rw [(haltStatus_value halted).1] at delivered
  exact absurd delivered (by decide)

end Kernel

end G29Os
