import G29Os.AddressSpace
import G29Os.ProcessInvariant

/-! The address space of every live process, and which directory is loaded. -/

namespace G29Os

open PageTables PointerChain StepRun

theorem frameOf_eq (slot : Slot) : frameOf slot = 2 * mb4 + slot.val * mb4 := rfl

theorem processSpace_kernel {pid : Slot} {v address : Nat} (mapped : processSpace pid v = some address)
    (low : v < mb128) : address < kernelMemEnd := by
  rw [processSpace] at mapped
  split at mapped
  · rename_i kernel
    cases mapped
    exact kernel.2
  · split at mapped
    · rename_i program
      exact absurd low (Nat.not_lt_of_le program.1)
    · cases mapped

theorem processSpace_program {pid : Slot} {v address : Nat}
    (mapped : processSpace pid v = some address) (user : kernelMemEnd ≤ address) :
    mb128 ≤ v ∧ frameOf pid ≤ address ∧ address < frameOf pid + mb4 := by
  have high : ¬v < mb128 := fun low => absurd (processSpace_kernel mapped low) (Nat.not_lt_of_le user)
  rw [processSpace] at mapped
  split at mapped
  · rename_i kernel
    simp only [mb128, mb4] at high kernel
    omega
  · split at mapped
    · rename_i program
      have place := Option.some.inj mapped
      rw [frameOf_eq]
      refine ⟨program.1, ?_, ?_⟩ <;> omega
    · cases mapped

theorem frameOf_apart {slot other : Slot} {address : Nat}
    (inside : frameOf slot ≤ address ∧ address < frameOf slot + mb4)
    (inside' : frameOf other ≤ address ∧ address < frameOf other + mb4) : slot = other := by
  simp only [frameOf_eq, mb4] at inside inside'
  exact Fin.ext (by omega)

theorem walk_frame {tables : PageTables} {pid : Slot} (program : ProgramMapped tables pid)
    {offset : Nat} (inside : offset < mb4) :
    tables.walk pid (mb128 + offset) = some (frameOf pid + offset) := by
  have walked := @walk_program tables pid (mb128 + offset) program (Nat.le_add_right ..)
    (Nat.add_lt_add_left inside _)
  rw [Nat.add_sub_cancel_left] at walked
  rw [frameOf_eq]
  exact walked

theorem walk_beyond {tables : PageTables} {pid : Slot} (kernel : KernelMapped tables) {offset : Nat}
    (beyond : mb4 ≤ offset) (bound : mb128 + offset < 4294967296) :
    tables.walk pid (mb128 + offset) = none := by
  refine walk_rest kernel ?_ bound (Or.inr (Nat.add_le_add_left beyond _))
  simp only [mb4, mb128]
  omega

theorem poke_frame {tables : PageTables} {pid : Slot} (program : ProgramMapped tables pid)
    {offset : Nat} (inside : offset < mb4) (byte : UInt8) (mem : Nat → UInt8) :
    Kernel.poke tables pid (mb128 + offset) byte mem =
      some (Function.update mem (frameOf pid + offset) byte) := by
  have user : kernelMemEnd ≤ frameOf pid + offset := by
    rw [frameOf]
    omega
  rw [Kernel.poke, walk_frame program inside]
  exact if_pos user

theorem pokes_some {tables : PageTables} {pid : Slot} (program : ProgramMapped tables pid)
    {offset : Nat} {bytes : List UInt8} (fits : offset + bytes.length ≤ mb4) (mem : Nat → UInt8) :
    ∃ mem', Kernel.pokes tables pid (mb128 + offset) bytes mem = some mem' := by
  induction bytes generalizing offset mem with
  | nil => exact ⟨mem, rfl⟩
  | cons byte bytes ih =>
      rw [List.length_cons] at fits
      have rest : offset + 1 + bytes.length ≤ mb4 := by omega
      obtain ⟨mem', later⟩ := ih rest (Function.update mem (frameOf pid + offset) byte)
      refine ⟨mem', ?_⟩
      rw [Kernel.pokes, poke_frame program (by omega)]
      exact later

namespace Kernel

variable {image : Image} {k next middle : Kernel} {process slot other : Slot}

structure Mapped (k : Kernel) : Prop where
  kernel : KernelMapped k.paging
  program : ∀ slot, k.pcbTrack slot = true → ProgramMapped k.paging slot

def FrontLoaded (k : Kernel) : Prop := ∀ process, k.foreground = some process → k.cr3 = process

theorem Mapped.walk (mapped : Mapped k) (live : k.pcbTrack slot = true) {v : Nat}
    (bound : v < 4294967296) : k.paging.walk slot v = processSpace slot v :=
  walk_process mapped.kernel (mapped.program slot live) bound

theorem Written.page {tables : PageTables} {pid : Slot} (written : Written tables pid k next)
    (kernel : KernelMapped tables) (program : ProgramMapped tables pid) (apart : slot ≠ pid)
    {j : Nat} (bound : j < mb4) : next.mem (frameOf slot + j) = k.mem (frameOf slot + j) := by
  by_contra changed
  obtain ⟨user, v, walked⟩ := written _ changed
  have wrapped : v % 4294967296 < 4294967296 := Nat.mod_lt _ (by decide)
  rw [← walk_mod, walk_process kernel program wrapped] at walked
  obtain ⟨-, inside⟩ := processSpace_program walked user
  exact apart (frameOf_apart ⟨Nat.le_add_right .., Nat.add_lt_add_left bound _⟩ inside)

/-! ### Every transition keeps the spaces -/

theorem Local.mapped (same : Local k next) (mapped : Mapped k) : Mapped next := by
  have pcbTrack : next.pcbTrack = k.pcbTrack := congrArg ProcessTable.pcbTrack same.table
  refine ⟨same.paging ▸ mapped.kernel, fun slot live => ?_⟩
  rw [pcbTrack] at live
  rw [same.paging]
  exact mapped.program slot live

theorem Launched.mapped (launched : Launched k next slot) (mapped : Mapped k) : Mapped next := by
  have pcbTrack : next.pcbTrack = Function.update k.pcbTrack slot true :=
    congrArg ProcessTable.pcbTrack launched.table
  refine ⟨launched.paging ▸ mapped.kernel.addPage, fun other live => ?_⟩
  rw [launched.paging]
  rcases eq_or_ne other slot with same | apart
  · subst same
    exact programMapped_addPage
  · rw [pcbTrack, Function.update_of_ne apart] at live
    exact (mapped.program other live).addPage

theorem Ended.mapped {resumed : Option Slot} (ended : Ended k next process resumed)
    (mapped : Mapped k) : Mapped next := by
  have pcbTrack : next.pcbTrack = Function.update k.pcbTrack (k.pcbs process).pid false :=
    congrArg ProcessTable.pcbTrack ended.table
  refine ⟨ended.paging ▸ mapped.kernel, fun other live => ?_⟩
  rw [ended.paging]
  rcases eq_or_ne other (k.pcbs process).pid with same | apart
  · subst same
    rw [pcbTrack, Function.update_self] at live
    cases live
  · rw [pcbTrack, Function.update_of_ne apart] at live
    exact mapped.program other live

theorem Switched.table_eq {target : TerminalId} (switched : Switched k next target) :
    next.current = target ∧ next.currPcb = k.currPcb ∧ next.pcbTrack = k.pcbTrack := by
  have table := switched.table
  rw [ProcessTable.switch] at table
  split at table
  · exact ⟨congrArg ProcessTable.current table, congrArg ProcessTable.currPcb table,
      congrArg ProcessTable.pcbTrack table⟩
  · exact ⟨congrArg ProcessTable.current table, congrArg ProcessTable.currPcb table,
      congrArg ProcessTable.pcbTrack table⟩

theorem Switched.mapped {target : TerminalId} (switched : Switched k next target)
    (mapped : Mapped k) : Mapped next := by
  refine ⟨switched.paging ▸ mapped.kernel, fun slot live => ?_⟩
  rw [switched.table_eq.2.2] at live
  rw [switched.paging]
  exact mapped.program slot live

theorem Transition.mapped (transition : Transition image k next) (mapped : Mapped k) :
    Mapped next := by
  cases transition with
  | stay same => exact same.mapped mapped
  | launched started => exact started.mapped mapped
  | resumed ended => exact ended.mapped mapped
  | relaunched ended started => exact started.mapped (ended.mapped mapped)
  | shellStarted switched => exact switched.mapped mapped
  | reloaded switched => exact switched.mapped mapped

theorem Local.foreground (same : Local k next) : next.foreground = k.foreground :=
  congrArg (fun table => ProcessTable.currPcb table table.current) same.table

theorem Launched.foreground (launched : Launched k next slot) : next.foreground = some slot := by
  have top := congrArg (fun table => ProcessTable.currPcb table table.current) launched.table
  exact top.trans (Function.update_self ..)

theorem Ended.foreground {resumed : Option Slot} (ended : Ended k next process resumed) :
    next.foreground = resumed := by
  have top := congrArg (fun table => ProcessTable.currPcb table table.current) ended.table
  exact top.trans (Function.update_self ..)

theorem Switched.foreground {target : TerminalId} (switched : Switched k next target) :
    next.foreground = k.currPcb target := by
  obtain ⟨current, currPcb, -⟩ := switched.table_eq
  rw [Kernel.foreground, current, currPcb]

theorem Transition.frontLoaded {chain : TerminalId → List Slot} (transition : Transition image k next)
    (consistent : k.table.Consistent chain) (front : FrontLoaded k) : FrontLoaded next := by
  intro process running
  cases transition with
  | stay same => exact same.cr3.trans (front process (same.foreground.symm.trans running))
  | launched started =>
      rw [started.foreground] at running
      cases running
      exact started.cr3
  | @resumed ending parent ended cr3 =>
      rw [ended.foreground] at running
      cases running
      obtain ⟨rest, stack, under⟩ := consistent.toLinked.top ended.top
      rw [show k.table.parent ending = some process from ended.linked] at under
      have listed : process ∈ chain k.current := by
        rw [show chain k.current = _ from stack]
        exact List.mem_cons_of_mem ending under.head_mem
      exact cr3.trans (consistent.placed _ process listed)
  | relaunched ended started =>
      rw [started.foreground] at running
      cases running
      exact started.cr3
  | @shellStarted target switched unvisited cr3 =>
      rw [switched.foreground] at running
      have nonzero : target ≠ 0 := by
        rintro rfl
        have first : k.numProgs 0 = _ := consistent.first
        omega
      obtain ⟨rest, stack, -⟩ := consistent.toLinked.top running
      rw [(consistent.waiting target nonzero unvisited).2] at stack
      cases stack
      exact cr3
  | @reloaded target process' stale switched visited top again =>
      rw [switched.foreground, top] at running
      cases running
      obtain ⟨rest, stack, -⟩ := consistent.toLinked.top top
      have listed : process ∈ chain target := by
        rw [stack]
        exact List.mem_cons_self
      exact again.cr3.trans (consistent.placed target process listed)

theorem Booted.mapped (booted : Booted image k) : Mapped k := by
  obtain ⟨raw, ready, middle, statics, paging, -, pcbTrack, -, -, -, second, third⟩ := booted.prebuilt
  have mappable : Mappable raw.paging :=
    ⟨fun pid => statics.noTable pid 0, fun pid index _ _ _ => statics.noDirectory pid index⟩
  have kernel : KernelMapped ready.paging := paging ▸ pagingInit_mapped mappable
  have one : KernelMapped middle.paging := second.paging ▸ kernel.addPage
  have tracked : k.pcbTrack = Function.update (Function.update (fun _ => false) (terminalSlot 1) true)
      (terminalSlot 2) true := by
    have later : k.pcbTrack = Function.update middle.pcbTrack (terminalSlot 2) true :=
      congrArg ProcessTable.pcbTrack third.table
    have early : middle.pcbTrack = Function.update ready.pcbTrack (terminalSlot 1) true :=
      congrArg ProcessTable.pcbTrack second.table
    rw [later, early, pcbTrack, funext statics.noProcess]
  refine ⟨third.paging ▸ one.addPage, fun slot live => ?_⟩
  rw [third.paging]
  rcases eq_or_ne slot (terminalSlot 2) with same | apart
  · subst same
    exact programMapped_addPage
  · rw [tracked, Function.update_of_ne apart] at live
    rcases eq_or_ne slot (terminalSlot 1) with same | apart'
    · subst same
      have own : ProgramMapped middle.paging (terminalSlot 1) := by
        rw [second.paging]
        exact programMapped_addPage
      exact own.addPage
    · rw [Function.update_of_ne apart'] at live
      cases live

theorem Booted.frontLoaded (booted : Booted image k) : FrontLoaded k := by
  intro process running
  cases booted.foreground.symm.trans running

structure Sound (k : Kernel) : Prop where
  consistent : ∃ chain, k.table.Consistent chain
  mapped : Mapped k
  front : FrontLoaded k

theorem Sound.transition (sound : Sound k) (moved : Transition image k next) : Sound next := by
  obtain ⟨chain, consistent⟩ := sound.consistent
  exact ⟨moved.table.consistent consistent, moved.mapped sound.mapped,
    moved.frontLoaded consistent sound.front⟩

theorem Sound.step {event : Event} (sound : Sound k) (done : k.step image event = some next) :
    Sound next := sound.transition (step_transition done)

theorem Booted.sound (booted : Booted image k) : Sound k :=
  ⟨⟨bootChain, booted.consistent⟩, booted.mapped, booted.frontLoaded⟩

theorem sound_reachable (reached : Reachable (step image) (Booted image) k) : Sound k :=
  reached.invariant Sound (fun _ booted => Booted.sound booted) fun _ _ _ sound done => sound.step done

theorem Sound.live_foreground (sound : Sound k) (running : k.foreground = some process) :
    k.pcbTrack process = true ∧ (k.pcbs process).pid = process := by
  obtain ⟨chain, consistent⟩ := sound.consistent
  obtain ⟨rest, stack, -⟩ := consistent.toLinked.top running
  have listed : process ∈ chain k.current := by
    rw [show chain k.current = _ from stack]
    exact List.mem_cons_self
  exact ⟨(consistent.live process).mpr ⟨k.current, listed⟩, consistent.placed _ process listed⟩

theorem Sound.storeBytes_page (sound : Sound k) (running : k.foreground = some process)
    {offset : Nat} {bytes : List UInt8} (fits : offset + bytes.length ≤ mb4) :
    ∃ mem, k.storeBytes (mb128 + offset) bytes = some { k with mem := mem } := by
  have live := (sound.live_foreground running).1
  obtain ⟨mem, written⟩ := pokes_some (sound.mapped.program process live) fits k.mem
  refine ⟨mem, ?_⟩
  rw [storeBytes_pokes, sound.front process running, written]
  rfl

theorem addressSpaces_reachable (reached : Reachable (step image) (Booted image) k) :
    (∀ pid, k.pcbTrack pid = true → ∀ v, v < 4294967296 →
      k.paging.walk pid v = processSpace pid v) ∧
    (∀ pid other, k.pcbTrack pid = true → k.pcbTrack other = true → pid ≠ other →
      ∀ v v' address, v < 4294967296 → v' < 4294967296 → mb128 ≤ v →
        k.paging.walk pid v = some address →
          kernelMemEnd ≤ address ∧ k.paging.walk other v' ≠ some address) ∧
    ∀ process, k.foreground = some process →
      k.cr3 = process ∧ (k.pcbs process).pid = process ∧ k.pcbTrack process = true := by
  have sound := sound_reachable reached
  refine ⟨fun pid live v bound => sound.mapped.walk live bound, ?_, fun process running => ?_⟩
  · intro pid other live live' apart v v' address bound bound' program walked
    rw [sound.mapped.walk live bound] at walked
    have user : kernelMemEnd ≤ address := by
      rw [processSpace] at walked
      split at walked
      · rename_i kernel
        simp only [mb128, mb4] at program kernel
        omega
      · split at walked
        · have place := Option.some.inj walked
          have base : kernelMemEnd = 2 * mb4 := rfl
          omega
        · cases walked
    refine ⟨user, fun walked' => apart ?_⟩
    rw [sound.mapped.walk live' bound'] at walked'
    exact frameOf_apart (processSpace_program walked user).2 (processSpace_program walked' user).2
  · obtain ⟨live, placed⟩ := sound.live_foreground running
    exact ⟨sound.front process running, placed, live⟩

theorem shell_running : ∃ k, Reachable (step smallImage) (Booted smallImage) k ∧ k.foreground = some 0 := by
  have ran : (runSmall [.firstShell noStale]).map (fun k => decide (k.foreground = some 0)) = some true := by
    decide +kernel
  obtain ⟨k, computed, checks⟩ := Option.map_eq_some_iff.mp ran
  exact ⟨k, runSmall_reachable computed, of_decide_eq_true checks⟩

end Kernel

end G29Os
