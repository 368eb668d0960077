import G29Os.InterruptFlag
import G29Os.StackBank

/-!
The processes of each terminal are a stack: `system_execute` pushes, `system_halt` pops, and the
base shell of a terminal is replaced when it halts. A process lives until it halts, and so does
everyone below it.
-/

namespace G29Os

open StackBank StepRun

def Event.Makes : Event → Move TerminalId Slot → Prop
  | .key .., move => move = .stay ∨ ∃ target, move = .bring target
  | .firstShell _, move => ∃ slot, move = .push slot
  | .execute .., move => move = .stay ∨ ∃ slot, move = .push slot
  | .halt _, move => move = .pop ∨ ∃ slot, move = .replace slot
  | _, move => move = .stay

namespace Kernel

variable {image : Image} {k next : Kernel} {process slot : Slot} {event : Event} {terminal : TerminalId}
  {bank later : Bank TerminalId Slot}

/-- Each stack is what `parent_ptr` links, and together they list the slots in use. -/
structure Stacked (k : Kernel) (bank : Bank TerminalId Slot) : Prop where
  front : bank.front = k.current
  table : k.table.Consistent bank.stack

theorem Stacked.apart (stacked : Stacked k bank) : bank.Apart :=
  ⟨fun i => (stacked.table.follows i).nodup, stacked.table.apart⟩

theorem Stacked.fresh (stacked : Stacked k bank) (free : k.pcbTrack slot = false) :
    ∀ i, slot ∉ bank.stack i := stacked.table.toLinked.dead free

theorem Stacked.top (stacked : Stacked k bank) (top : k.currPcb terminal = some process) :
    ∃ below, bank.stack terminal = process :: below := by
  obtain ⟨below, stack, -⟩ := stacked.table.toLinked.top top
  exact ⟨below, stack⟩

theorem Stacked.visited (stacked : Stacked k bank) : k.numProgs k.current ≠ 0 := by
  intro zero
  by_cases first : k.current = 0
  · have counted := stacked.table.first
    rw [first] at zero
    change k.numProgs 0 = _ at counted
    omega
  · exact (stacked.table.waiting k.current first zero).1 rfl

structure Moved (k next : Kernel) (event : Event) (bank later : Bank TerminalId Slot)
    (move : Move TerminalId Slot) : Prop where
  makes : event.Makes move
  applied : bank.apply move = some later
  stacked : Stacked next later
  taken : ∀ process, bank.taken move = some process → k.running = some process ∧ ∃ stale, event = .halt stale
  identity : ∀ i, ∀ process ∈ bank.stack i, bank.taken move ≠ some process →
    next.pcbs process = { k.pcbs process with fileArray := (next.pcbs process).fileArray }

theorem same_identity (same : next.pcbs process = k.pcbs process) :
    next.pcbs process = { k.pcbs process with fileArray := (next.pcbs process).fileArray } := by
  rw [same]

theorem Stacked.stays (stacked : Stacked k bank) (same : Local k next) (makes : event.Makes .stay) :
    Moved k next event bank bank .stay where
  makes := makes
  applied := rfl
  stacked := ⟨stacked.front.trans (congrArg ProcessTable.current same.table).symm,
    same.table ▸ stacked.table⟩
  taken _ none := by cases none
  identity _ process _ _ := same.identity process

theorem Stacked.launched (stacked : Stacked k bank) (launched : Launched k next slot)
    (makes : event.Makes (.push slot)) :
    Moved k next event bank (bank.put (slot :: bank.stack bank.front)) (.push slot) where
  makes := makes
  applied := if_pos (stacked.fresh launched.free)
  stacked := by
    have current : next.current = k.current := congrArg ProcessTable.current launched.table
    refine ⟨stacked.front.trans current.symm, ?_⟩
    rw [launched.table]
    have entered := stacked.table.started launched.free
    have front : k.table.current = bank.front := stacked.front.symm
    rwa [front] at entered
  taken _ none := by cases none
  identity i other listed _ := by
    have apart : other ≠ slot := fun same => stacked.fresh launched.free i (same ▸ listed)
    exact same_identity (launched.others other apart)

theorem Stacked.resumed {parent : Slot} (stacked : Stacked k bank) (running : k.running = some process)
    (ended : Ended k next process (some parent)) {stale : Stale} :
    ∃ later, Moved k next (.halt stale) bank later .pop := by
  have front : k.table.current = bank.front := stacked.front.symm
  obtain ⟨rest, stack, kept⟩ := stacked.table.resumed ended.top ended.linked
  rw [front] at stack kept
  have current : next.current = k.current := congrArg ProcessTable.current ended.table
  rw [← ended.table] at kept
  have occupied : ∃ below others, rest = below :: others := by
    have follows := stacked.table.follows bank.front
    have top : k.table.currPcb bank.front = some process := front ▸ ended.top
    rw [stack, top] at follows
    obtain ⟨rest', same, under⟩ := follows.pop
    cases same
    have linked : k.table.parent process = some parent := ended.linked
    rw [linked] at under
    obtain ⟨others, same, -⟩ := under.pop
    exact ⟨parent, others, same⟩
  obtain ⟨below, others, rfl⟩ := occupied
  refine ⟨bank.put (below :: others), Or.inl rfl, ?_, ⟨stacked.front.trans current.symm, kept⟩, ?_, ?_⟩
  · simp only [Bank.apply, stack]
  · intro other taken
    rw [Bank.taken, stack] at taken
    cases taken
    exact ⟨running, stale, rfl⟩
  · intro i other listed kept
    have apart : other ≠ process := by
      rintro rfl
      exact kept (by rw [Bank.taken, stack]; rfl)
    exact same_identity (ended.others other apart)

theorem Stacked.relaunched {middle : Kernel} (stacked : Stacked k bank) (running : k.running = some process)
    (ended : Ended k middle process none) (launched : Launched middle next slot) {stale : Stale} :
    ∃ later, Moved k next (.halt stale) bank later (.replace slot) := by
  have front : k.table.current = bank.front := stacked.front.symm
  have free : (k.table.leave process none).pcbTrack slot = false := by
    have free : middle.table.pcbTrack slot = false := launched.free
    rwa [ended.table] at free
  obtain ⟨stack, kept⟩ := stacked.table.relaunched ended.top ended.linked free
  rw [front] at stack kept
  have table : next.table = (((k.table.leave process none).count (-1)).enter slot).count 1 := by
    rw [launched.table, ended.table]
  have current : next.current = k.current := congrArg ProcessTable.current table
  rw [← table] at kept
  have others (i : TerminalId) (away : i ≠ bank.front) : slot ∉ bank.stack i := by
    intro listed
    have again : slot ∈ (Function.update bank.stack bank.front [slot]) i := by
      rwa [Function.update_of_ne away]
    exact kept.apart i bank.front away slot again (by simp)
  refine ⟨bank.put [slot], Or.inr ⟨slot, rfl⟩, ?_, ⟨stacked.front.trans current.symm, kept⟩, ?_, ?_⟩
  · simp only [Bank.apply, stack]
    exact if_pos others
  · intro other taken
    rw [Bank.taken, stack] at taken
    cases taken
    exact ⟨running, stale, rfl⟩
  · intro i other listed left
    have apart : other ≠ process := by
      rintro rfl
      exact left (by rw [Bank.taken, stack]; rfl)
    have new : other ≠ slot := by
      rintro rfl
      by_cases here : i = bank.front
      · subst here
        rw [stack, List.mem_singleton] at listed
        exact apart listed
      · exact others i here listed
    exact same_identity ((launched.others other new).trans (ended.others other apart))

theorem Stacked.switched {target : TerminalId} {regs : SaveRegs} (stacked : Stacked k bank)
    (swapped : Swapped k next target regs) {code : UInt8} {stale : Dentry} :
    Moved k next (.key code regs stale) bank { bank with front := target } (.bring target) where
  makes := Or.inr ⟨target, rfl⟩
  applied := if_pos (stacked.front ▸ swapped.other)
  stacked := by
    refine ⟨swapped.fields.1.symm, ?_⟩
    rw [swapped.table]
    exact stacked.table.switched
  taken _ none := by cases none
  identity _ process _ _ := same_identity (by rw [swapped.pcbs])

theorem step_moved (stacked : Stacked k bank) (done : k.step image event = some next) :
    ∃ move later, Moved k next event bank later move := by
  have turn := step_turn done
  cases turn with
  | stays same silent =>
      refine ⟨.stay, bank, stacked.stays same.toLocal ?_⟩
      cases event with
      | key => exact Or.inl rfl
      | execute => exact Or.inl rfl
      | firstShell stale => exact absurd rfl (silent stale).1
      | halt stale => exact absurd rfl (silent stale).2
      | rtcTick => rfl
      | readAccess => rfl
      | read => rfl
      | write => rfl
      | «open» => rfl
      | close => rfl
      | getargs => rfl
      | vidmap => rfl
      | store => rfl
  | firstShell front empty done =>
      obtain ⟨slot, launched⟩ := executeStarted_launched done
      exact ⟨_, _, stacked.launched launched ⟨slot, rfl⟩⟩
  | started running done =>
      obtain ⟨slot, launched⟩ := executeStarted_launched done
      exact ⟨_, _, stacked.launched launched (Or.inr ⟨slot, rfl⟩)⟩
  | halted running done =>
      rcases systemHalt_effect (running_foreground running) done with
        ⟨parent, ended, -⟩ | ⟨middle, slot, ended, launched⟩
      · obtain ⟨later, moved⟩ := stacked.resumed running ended
        exact ⟨_, later, moved⟩
      · obtain ⟨later, moved⟩ := stacked.relaunched running ended launched
        exact ⟨_, later, moved⟩
  | switched handled done => exact ⟨_, _, stacked.switched (switchTerminal_swapped handled done)⟩

theorem path_moves {events : List Event} (stacked : Stacked k bank)
    (path : Path (step image) (fun _ _ => True) k events next) :
    ∃ moves later, List.Forall₂ Event.Makes events moves ∧
      Path (fun bank move => Bank.apply bank move) (fun _ _ => True) bank moves later ∧ Stacked next later := by
  induction path generalizing bank with
  | nil => exact ⟨[], bank, List.Forall₂.nil, Path.nil bank, stacked⟩
  | cons allowed taken _ ih =>
      obtain ⟨move, middle, moved⟩ := step_moved stacked taken
      obtain ⟨moves, later, makes, path, ends⟩ := ih moved.stacked
      exact ⟨move :: moves, later, List.Forall₂.cons moved.makes makes,
        Path.cons trivial moved.applied path, ends⟩

theorem stacked_reachable (reached : Reachable (step image) (Booted image) k) : ∃ bank, Stacked k bank := by
  obtain ⟨chain, consistent⟩ := (sound_reachable reached).consistent
  exact ⟨⟨k.current, chain⟩, rfl, consistent⟩

/-! ### A process lives until it halts -/

def Parent (k : Kernel) (process parent : Slot) : Prop := (k.pcbs process).parentPtr = some parent

structure Alive (k : Kernel) (terminal : TerminalId) (process : Slot) (below : List Slot) (next : Kernel) :
    Prop where
  stacked : ∃ bank, Stacked next bank ∧ process :: below <:+ bank.stack terminal
  identity : ∀ other ∈ process :: below,
    next.pcbs other = { k.pcbs other with fileArray := (next.pcbs other).fileArray }

theorem Alive.step {middle : Kernel} {below : List Slot} (alive : Alive k terminal process below middle)
    (done : middle.step image event = some next)
    (other : (∃ stale, event = .halt stale) → middle.running ≠ some process) :
    Alive k terminal process below next := by
  obtain ⟨bank, stacked, listed⟩ := alive.stacked
  obtain ⟨move, later, moved⟩ := step_moved stacked done
  have kept : bank.taken move ≠ some process := fun taken => by
    obtain ⟨running, halts⟩ := moved.taken process taken
    exact other halts running
  refine ⟨⟨later, moved.stacked, Bank.apply_below moved.applied listed fun _ => kept⟩, fun cell member => ?_⟩
  have remains : bank.taken move ≠ some cell := by
    rcases List.mem_cons.mp member with rfl | under
    · exact kept
    · exact fun taken => Bank.taken_above stacked.apart listed taken under
  have before := alive.identity cell member
  have after := moved.identity terminal cell (listed.subset member) remains
  rw [after, before]

theorem Stacked.ancestors {other : Slot} {above below : List Slot} (stacked : Stacked k bank)
    (stack : bank.stack terminal = above ++ process :: below)
    (ancestor : Relation.ReflTransGen (Parent k) process other) : other ∈ process :: below := by
  have follows := stacked.table.follows terminal
  rw [stack] at follows
  have chain := follows.drop
  clear follows stack
  induction ancestor using Relation.ReflTransGen.head_induction_on generalizing below with
  | refl => exact List.mem_cons_self
  | @head first second linked _ ih =>
      obtain ⟨rest, same, tail⟩ := chain.pop
      cases same
      have parent : k.table.parent first = some second := linked
      rw [parent] at tail
      obtain ⟨rest, rfl, -⟩ := tail.pop
      exact List.mem_cons_of_mem first (ih tail)

theorem Alive.kept {below : List Slot} (alive : Alive k terminal process below next) {other : Slot}
    (member : other ∈ process :: below) : next.pcbTrack other = true ∧
      next.pcbs other = { k.pcbs other with fileArray := (next.pcbs other).fileArray } := by
  obtain ⟨later, ends, remains⟩ := alive.stacked
  exact ⟨(ends.table.live other).mpr ⟨terminal, remains.subset member⟩, alive.identity other member⟩

theorem path_alive {events : List Event} (reached : Reachable (step image) (Booted image) k)
    (live : k.pcbTrack process = true)
    (path : Path (step image)
      (fun state event => (∃ stale, event = .halt stale) → state.running ≠ some process) k events next) :
    ∃ terminal below, Alive k terminal process below next ∧
      ∀ other, Relation.ReflTransGen (Parent k) process other → other ∈ process :: below := by
  obtain ⟨bank, stacked⟩ := stacked_reachable reached
  obtain ⟨terminal, listed⟩ := (stacked.table.live process).mp live
  obtain ⟨above, below, stack⟩ := List.append_of_mem listed
  have start : Alive k terminal process below k :=
    ⟨⟨bank, stacked, above, stack.symm⟩, fun _ _ => rfl⟩
  have alive := path.preserves (Alive k terminal process below)
    (fun _ _ _ other alive done => alive.step done other) start
  exact ⟨terminal, below, alive, fun other ancestor => stacked.ancestors stack ancestor⟩

theorem kept_until_halt {events : List Event} (reached : Reachable (step image) (Booted image) k)
    (live : k.pcbTrack process = true)
    (path : Path (step image)
      (fun state event => (∃ stale, event = .halt stale) → state.running ≠ some process) k events next) :
    ∀ other, Relation.ReflTransGen (Parent k) process other → next.pcbTrack other = true ∧
      next.pcbs other = { k.pcbs other with fileArray := (next.pcbs other).fileArray } := by
  obtain ⟨terminal, below, alive, ancestors⟩ := path_alive reached live path
  exact fun other ancestor => alive.kept (ancestors other ancestor)

/-! ### A terminal in the background -/

structure Suspended (terminal : TerminalId) (k next : Kernel) : Prop where
  top : next.currPcb terminal = k.currPcb terminal
  saved : next.saveProgRegs terminal = k.saveProgRegs terminal
  reader : next.readers terminal = k.readers terminal
  visited : k.numProgs terminal ≠ 0 → next.numProgs terminal ≠ 0

theorem Suspended.refl (terminal : TerminalId) (k : Kernel) : Suspended terminal k k :=
  ⟨rfl, rfl, rfl, id⟩

theorem Suspended.trans {middle : Kernel} (first : Suspended terminal k middle)
    (second : Suspended terminal middle next) : Suspended terminal k next :=
  ⟨second.top.trans first.top, second.saved.trans first.saved, second.reader.trans first.reader,
    fun visited => second.visited (first.visited visited)⟩

theorem Swapped.visited {target : TerminalId} {regs : SaveRegs} (swapped : Swapped k next target regs)
    (visited : k.numProgs terminal ≠ 0) : next.numProgs terminal ≠ 0 := by
  have counts := congrArg ProcessTable.numProgs swapped.table
  change next.numProgs = _ at counts
  rw [counts, ProcessTable.switch]
  split
  · rename_i unvisited
    rcases eq_or_ne terminal target with rfl | other
    · exact absurd unvisited visited
    · exact (Function.update_of_ne other ..).trans_ne visited
  · exact visited

theorem Alive.background {middle : Kernel} {below : List Slot} (alive : Alive k terminal process below middle)
    (away : terminal ≠ middle.current) : middle.running ≠ some process := by
  intro running
  obtain ⟨bank, stacked, listed⟩ := alive.stacked
  obtain ⟨under, stack⟩ := stacked.top (running_foreground running)
  have member : process ∈ bank.stack middle.current := stack ▸ List.mem_cons_self
  exact stacked.table.apart terminal middle.current away process (listed.subset List.mem_cons_self) member

end Kernel

end G29Os
