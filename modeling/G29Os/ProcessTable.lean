import G29Os.Kernel
import G29Os.PointerChain

/-!
The process table as it is meant: over the six slots, each terminal has a stack of
processes, whose bottom is its shell and whose top is the one that runs there.
-/

namespace G29Os

open PointerChain

structure ProcessTable where
  current : TerminalId
  numProgs : TerminalId → Int
  currPcb : TerminalId → Option Slot
  pcbTrack : Slot → Bool
  parent : Slot → Option Slot
  pid : Slot → Slot

namespace Kernel

def table (k : Kernel) : ProcessTable where
  current := k.current
  numProgs := k.numProgs
  currPcb := k.currPcb
  pcbTrack := k.pcbTrack
  parent slot := (k.pcbs slot).parentPtr
  pid slot := (k.pcbs slot).pid

end Kernel

namespace ProcessTable

def count (change : Int) (table : ProcessTable) : ProcessTable :=
  { table with
    numProgs := Function.update table.numProgs table.current (table.numProgs table.current + change) }

def enter (slot : Slot) (table : ProcessTable) : ProcessTable :=
  { table with
    currPcb := Function.update table.currPcb table.current (some slot)
    pcbTrack := Function.update table.pcbTrack slot true
    parent := Function.update table.parent slot (table.currPcb table.current)
    pid := Function.update table.pid slot slot }

def leave (process : Slot) (resumed : Option Slot) (table : ProcessTable) : ProcessTable :=
  { table with
    currPcb := Function.update table.currPcb table.current resumed
    pcbTrack := Function.update table.pcbTrack (table.pid process) false }

/-- The terminal `target` in front; on the first visit its shell is counted. -/
def switch (target : TerminalId) (table : ProcessTable) : ProcessTable :=
  let front := { table with current := target }
  if table.numProgs target = 0 then front.count 1 else front

inductive Step : ProcessTable → ProcessTable → Prop
  | stay (table : ProcessTable) : Step table table
  | started {table : ProcessTable} {slot : Slot} (free : table.pcbTrack slot = false) :
      Step table ((table.enter slot).count 1)
  | resumed {table : ProcessTable} {process parent : Slot}
      (top : table.currPcb table.current = some process) (linked : table.parent process = some parent) :
      Step table ((table.leave process (some parent)).count (-1))
  | relaunched {table : ProcessTable} {process slot : Slot}
      (top : table.currPcb table.current = some process) (base : table.parent process = none)
      (free : (table.leave process none).pcbTrack slot = false) :
      Step table ((((table.leave process none).count (-1)).enter slot).count 1)
  | switched {table : ProcessTable} {target : TerminalId} (other : target ≠ table.current) :
      Step table (table.switch target)

/-- `chain` is what `parent_ptr` links from the top of each terminal, and the slots in use
are exactly the ones it lists. -/
structure Linked (table : ProcessTable) (chain : TerminalId → List Slot) : Prop where
  follows : ∀ terminal, Chain table.parent (table.currPcb terminal) (chain terminal)
  apart : ∀ terminal other, terminal ≠ other → ∀ slot ∈ chain terminal, slot ∉ chain other
  live : ∀ slot, table.pcbTrack slot = true ↔ ∃ terminal, slot ∈ chain terminal
  placed : ∀ terminal, ∀ slot ∈ chain terminal, table.pid slot = slot

/-- `num_progs` counts the chains: one too many on the first terminal, and 0 on a terminal
whose prepared shell waits for its first visit. -/
structure Counted (table : ProcessTable) (chain : TerminalId → List Slot) : Prop where
  first : table.numProgs 0 = (chain 0).length + 1
  waiting : ∀ terminal, terminal ≠ 0 → table.numProgs terminal = 0 →
    terminal ≠ table.current ∧ chain terminal = [Kernel.terminalSlot terminal]
  visited : ∀ terminal, terminal ≠ 0 → table.numProgs terminal ≠ 0 →
    table.numProgs terminal = (chain terminal).length

structure Consistent (table : ProcessTable) (chain : TerminalId → List Slot) : Prop
    extends Linked table chain, Counted table chain

section Steps

variable {table next : ProcessTable} {chain : TerminalId → List Slot} {slot process : Slot}
  {terminal : TerminalId}

theorem Linked.dead (linked : Linked table chain) (free : table.pcbTrack slot = false)
    (terminal : TerminalId) : slot ∉ chain terminal := by
  intro member
  have tracked : table.pcbTrack slot = true := (linked.live slot).mpr ⟨terminal, member⟩
  rw [free] at tracked
  cases tracked

theorem Linked.top (linked : Linked table chain) (top : table.currPcb terminal = some process) :
    ∃ rest, chain terminal = process :: rest ∧ Chain table.parent (table.parent process) rest := by
  have follows := linked.follows terminal
  rw [top] at follows
  exact follows.pop

theorem Linked.enter (linked : Linked table chain) (free : table.pcbTrack slot = false) :
    Linked (table.enter slot)
      (Function.update chain table.current (slot :: chain table.current)) := by
  have fresh := linked.dead free
  have kept (cell : Slot) (different : cell ≠ slot) :
      (table.enter slot).parent cell = table.parent cell := Function.update_of_ne different ..
  constructor
  · intro terminal
    rcases eq_or_ne terminal table.current with here | away
    · subst here
      simp only [ProcessTable.enter, Function.update_self]
      exact (linked.follows table.current).push (fresh table.current)
        (Function.update_self ..) kept
    · simp only [ProcessTable.enter, Function.update_of_ne away]
      exact (linked.follows terminal).congr fun cell member =>
        kept cell fun same => fresh terminal (same ▸ member)
  · intro terminal other different cell member
    rcases eq_or_ne terminal table.current with here | away
    · subst here
      rw [Function.update_self] at member
      rw [Function.update_of_ne different.symm]
      rcases List.mem_cons.mp member with same | below
      · exact same ▸ fresh other
      · exact linked.apart _ _ different cell below
    · rw [Function.update_of_ne away] at member
      rcases eq_or_ne other table.current with there | elsewhere
      · subst there
        rw [Function.update_self]
        have below : cell ∉ chain table.current := linked.apart _ _ different cell member
        have new : cell ≠ slot := fun same => fresh terminal (same ▸ member)
        exact List.not_mem_cons_of_ne_of_not_mem new below
      · rw [Function.update_of_ne elsewhere]
        exact linked.apart _ _ different cell member
  · intro cell
    rcases eq_or_ne cell slot with same | different
    · subst same
      have listed : cell ∈ Function.update chain table.current (cell :: chain table.current)
          table.current := by
        rw [Function.update_self]
        exact List.mem_cons_self
      simp only [ProcessTable.enter, Function.update_self, true_iff]
      exact ⟨table.current, listed⟩
    · have listed (terminal : TerminalId) :
          cell ∈ Function.update chain table.current (slot :: chain table.current) terminal ↔
            cell ∈ chain terminal := by
        rcases eq_or_ne terminal table.current with here | away
        · subst here
          simp [different]
        · rw [Function.update_of_ne away]
      simp only [ProcessTable.enter, Function.update_of_ne different, listed]
      exact linked.live cell
  · intro terminal cell member
    rcases eq_or_ne cell slot with same | different
    · subst same
      exact Function.update_self ..
    · simp only [ProcessTable.enter, Function.update_of_ne different]
      rcases eq_or_ne terminal table.current with here | away
      · subst here
        rw [Function.update_self] at member
        exact linked.placed _ cell ((List.mem_cons.mp member).resolve_left different)
      · rw [Function.update_of_ne away] at member
        exact linked.placed terminal cell member

theorem Linked.leave {rest : List Slot} (linked : Linked table chain)
    (top : chain table.current = process :: rest)
    (under : Chain table.parent (table.parent process) rest) :
    Linked (table.leave process (table.parent process))
      (Function.update chain table.current rest) := by
  have listed : process ∈ chain table.current := by
    rw [top]
    exact List.mem_cons_self
  have own : table.pid process = process := linked.placed _ process listed
  -- a process listed below itself would stay on the chain after its slot is free
  have gone : process ∉ rest := by
    have nodup := (linked.follows table.current).nodup
    rw [top] at nodup
    exact (List.nodup_cons.mp nodup).1
  have below {cell : Slot} (member : cell ∈ rest) : cell ∈ chain table.current := by
    rw [top]
    exact List.mem_cons_of_mem process member
  have shrinks (terminal : TerminalId) {cell : Slot}
      (member : cell ∈ Function.update chain table.current rest terminal) : cell ∈ chain terminal := by
    rcases eq_or_ne terminal table.current with here | away
    · subst here
      rw [Function.update_self] at member
      exact below member
    · rwa [Function.update_of_ne away] at member
  constructor
  · intro terminal
    rcases eq_or_ne terminal table.current with here | away
    · subst here
      simp only [ProcessTable.leave, Function.update_self]
      exact under
    · simp only [ProcessTable.leave, Function.update_of_ne away]
      exact linked.follows terminal
  · intro terminal other different cell member again
    exact linked.apart _ _ different cell (shrinks terminal member) (shrinks other again)
  · intro cell
    simp only [ProcessTable.leave, own]
    rcases eq_or_ne cell process with same | different
    · subst same
      simp only [Function.update_self, Bool.false_eq_true, false_iff]
      rintro ⟨terminal, member⟩
      rcases eq_or_ne terminal table.current with here | away
      · subst here
        rw [Function.update_self] at member
        exact gone member
      · exact linked.apart _ _ away cell (shrinks terminal member) listed
    · rw [Function.update_of_ne different, linked.live cell]
      constructor
      · rintro ⟨terminal, member⟩
        refine ⟨terminal, ?_⟩
        rcases eq_or_ne terminal table.current with here | away
        · subst here
          rw [top] at member
          rw [Function.update_self]
          exact (List.mem_cons.mp member).resolve_left different
        · rwa [Function.update_of_ne away]
      · rintro ⟨terminal, member⟩
        exact ⟨terminal, shrinks terminal member⟩
  · intro terminal cell member
    exact linked.placed terminal cell (shrinks terminal member)

theorem Linked.congr (linked : Linked table chain) (currPcb : next.currPcb = table.currPcb)
    (pcbTrack : next.pcbTrack = table.pcbTrack) (parent : next.parent = table.parent)
    (pid : next.pid = table.pid) : Linked next chain := by
  constructor
  · rw [currPcb, parent]
    exact linked.follows
  · exact linked.apart
  · rw [pcbTrack]
    exact linked.live
  · rw [pid]
    exact linked.placed

theorem Linked.count (linked : Linked table chain) (change : Int) :
    Linked (table.count change) chain := linked.congr rfl rfl rfl rfl

theorem Counted.current (counted : Counted table chain) :
    table.numProgs table.current =
      (chain table.current).length + if table.current = 0 then 1 else 0 := by
  by_cases first : table.current = 0
  · rw [if_pos first, first]
    exact counted.first
  · rw [if_neg first]
    have started : table.numProgs table.current ≠ 0 := fun zero =>
      (counted.waiting _ first zero).1 rfl
    rw [counted.visited _ first started, Int.add_zero]

theorem Counted.update (counted : Counted table chain) {cells : List Slot}
    (current : next.current = table.current)
    (others : ∀ terminal, terminal ≠ table.current → next.numProgs terminal = table.numProgs terminal)
    (here : next.numProgs table.current = cells.length + if table.current = 0 then 1 else 0)
    (occupied : cells ≠ []) : Counted next (Function.update chain table.current cells) := by
  have positive : 0 < cells.length := List.length_pos_of_ne_nil occupied
  constructor
  · rcases eq_or_ne 0 table.current with zero | other
    · rw [← zero] at here ⊢
      rw [Function.update_self, here, if_pos rfl]
    · rw [Function.update_of_ne other, others 0 other]
      exact counted.first
  · intro terminal nonzero unvisited
    have away : terminal ≠ table.current := by
      rintro rfl
      rw [if_neg nonzero] at here
      omega
    rw [current, Function.update_of_ne away]
    rw [others terminal away] at unvisited
    exact counted.waiting terminal nonzero unvisited
  · intro terminal nonzero started
    rcases eq_or_ne terminal table.current with same | away
    · subst same
      rw [Function.update_self, here, if_neg nonzero, Int.add_zero]
    · rw [Function.update_of_ne away]
      rw [others terminal away] at started ⊢
      exact counted.visited terminal nonzero started

theorem Consistent.started (consistent : Consistent table chain)
    (free : table.pcbTrack slot = false) :
    Consistent ((table.enter slot).count 1)
      (Function.update chain table.current (slot :: chain table.current)) := by
  have counts : ((table.enter slot).count 1).numProgs table.current =
      (slot :: chain table.current).length + if table.current = 0 then 1 else 0 := by
    have before := consistent.toCounted.current
    simp only [count, enter, Function.update_self, List.length_cons]
    omega
  exact ⟨(consistent.toLinked.enter free).count 1,
    consistent.toCounted.update rfl (fun _ away => Function.update_of_ne away ..) counts
      (List.cons_ne_nil _ _)⟩

theorem Consistent.resumed {parent : Slot} (consistent : Consistent table chain)
    (top : table.currPcb table.current = some process) (linked : table.parent process = some parent) :
    ∃ rest, chain table.current = process :: rest ∧
      Consistent ((table.leave process (some parent)).count (-1))
        (Function.update chain table.current rest) := by
  obtain ⟨rest, stack, under⟩ := consistent.toLinked.top top
  have left := consistent.toLinked.leave stack under
  rw [linked] at left under
  have occupied : rest ≠ [] := List.ne_nil_of_mem under.head_mem
  have counts : ((table.leave process (some parent)).count (-1)).numProgs table.current =
      rest.length + if table.current = 0 then 1 else 0 := by
    have before := consistent.toCounted.current
    rw [stack, List.length_cons] at before
    simp only [count, leave, Function.update_self]
    omega
  exact ⟨rest, stack, left.count (-1), consistent.toCounted.update rfl
    (fun _ away => Function.update_of_ne away ..) counts occupied⟩

theorem Consistent.relaunched (consistent : Consistent table chain)
    (top : table.currPcb table.current = some process) (base : table.parent process = none)
    (free : (table.leave process none).pcbTrack slot = false) :
    chain table.current = [process] ∧
      Consistent ((((table.leave process none).count (-1)).enter slot).count 1)
        (Function.update chain table.current [slot]) := by
  obtain ⟨rest, stack, under⟩ := consistent.toLinked.top top
  have left := consistent.toLinked.leave stack under
  rw [base] at left under
  have alone : rest = [] := under.eq_nil
  subst alone
  -- between the two halves the terminal has no chain, so only the links are carried across
  have entered := ((left.count (-1)).enter free).count 1
  have counts : ((((table.leave process none).count (-1)).enter slot).count 1).numProgs table.current =
      [slot].length + if table.current = 0 then 1 else 0 := by
    have before := consistent.toCounted.current
    rw [stack] at before
    simp only [count, leave, enter, Function.update_self, List.length_singleton] at before ⊢
    omega
  refine ⟨stack, ?_, consistent.toCounted.update rfl (fun terminal away => ?_) counts
    (List.cons_ne_nil _ _)⟩
  · simpa [count, leave, enter] using entered
  · simp only [count, leave, enter, Function.update_of_ne away]

theorem Consistent.switched {target : TerminalId} (consistent : Consistent table chain) :
    Consistent (table.switch target) chain := by
  rw [switch]
  split
  · rename_i unvisited
    have nonzero : target ≠ 0 := by
      rintro rfl
      have first := consistent.first
      omega
    obtain ⟨-, alone⟩ := consistent.waiting target nonzero unvisited
    refine ⟨consistent.toLinked.congr rfl rfl rfl rfl, ?_, ?_, ?_⟩
    · simp only [count, Function.update_of_ne nonzero.symm]
      exact consistent.first
    · intro terminal other zero
      rcases eq_or_ne terminal target with same | away
      · subst same
        simp [count, unvisited] at zero
      · simp only [count, Function.update_of_ne away] at zero
        exact ⟨away, (consistent.waiting terminal other zero).2⟩
    · intro terminal other started
      rcases eq_or_ne terminal target with same | away
      · subst same
        simp [count, unvisited, alone]
      · simp only [count, Function.update_of_ne away] at started ⊢
        exact consistent.visited terminal other started
  · rename_i visited
    refine ⟨consistent.toLinked.congr rfl rfl rfl rfl, consistent.first, ?_, consistent.visited⟩
    intro terminal other zero
    have away : terminal ≠ target := fun same => visited (same ▸ zero)
    exact ⟨away, (consistent.waiting terminal other zero).2⟩

theorem Step.consistent (step : Step table next) (consistent : Consistent table chain) :
    ∃ chain', Consistent next chain' := by
  cases step with
  | stay => exact ⟨chain, consistent⟩
  | started free => exact ⟨_, consistent.started free⟩
  | resumed top linked =>
      obtain ⟨rest, -, kept⟩ := consistent.resumed top linked
      exact ⟨_, kept⟩
  | relaunched top base free => exact ⟨_, (consistent.relaunched top base free).2⟩
  | switched other => exact ⟨chain, consistent.switched⟩

theorem Step.unvisited (step : Step table next) (consistent : Consistent table chain)
    (nonzero : terminal ≠ 0) :
    next.numProgs terminal ≠ 0 ↔ table.numProgs terminal ≠ 0 ∨ next.current = terminal := by
  obtain ⟨chain', after⟩ := step.consistent consistent
  have counted : next.current = terminal → next.numProgs terminal ≠ 0 := fun here zero =>
    (after.waiting terminal nonzero zero).1 here.symm
  rcases eq_or_ne next.current terminal with here | away
  · exact ⟨fun _ => Or.inr here, fun _ => counted here⟩
  · have same : next.numProgs terminal = table.numProgs terminal := by
      cases step with
      | stay => rfl
      | started => exact Function.update_of_ne (Ne.symm away) ..
      | resumed => exact Function.update_of_ne (Ne.symm away) ..
      | relaunched =>
          exact (Function.update_of_ne (Ne.symm away) ..).trans (Function.update_of_ne (Ne.symm away) ..)
      | @switched target other =>
          by_cases unvisited : table.numProgs target = 0
          · rw [switch, if_pos unvisited] at away ⊢
            exact Function.update_of_ne (Ne.symm away) ..
          · rw [switch, if_neg unvisited]
    rw [same]
    exact ⟨Or.inl, fun either => either.resolve_right away⟩

end Steps

end ProcessTable

end G29Os
