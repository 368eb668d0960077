import G29Os.KernelEffects

/-! The process table in every state that a run of the booted kernel reaches. -/

namespace G29Os

open PointerChain StepRun

namespace Kernel

variable {image : Image} {k next raw : Kernel}

structure Prebuilt (k next : Kernel) (terminal : TerminalId) : Prop where
  table : next.table = { { k.table with current := terminal }.enter (terminalSlot terminal) with
    current := k.current }
  paging : next.paging = k.paging.addPage (frameOf (terminalSlot terminal)) (terminalSlot terminal)

theorem prebuildShell_prebuilt {terminal : TerminalId} {pcb : Pcb}
    (unused : k.currPcb terminal = none) (orphan : pcb.parentPtr = none)
    (done : k.prebuildShell image terminal pcb = some next) : Prebuilt k next terminal := by
  obtain ⟨⟨mem, rfl⟩, -⟩ := storeBytes_stored done
  have table := @table_occupy k (terminalSlot terminal) pcb
  have parent : _ = Function.update k.table.parent (terminalSlot terminal) (k.currPcb terminal) :=
    (congrArg ProcessTable.parent table).trans (by rw [orphan, unused])
  have pid := congrArg ProcessTable.pid table
  refine ⟨?_, rfl⟩
  exact congrArg₂ (fun parent pid => ProcessTable.mk k.current k.numProgs
    (Function.update k.currPcb terminal (some (terminalSlot terminal)))
    (Function.update k.pcbTrack (terminalSlot terminal) true) parent pid) parent pid

theorem Prebuilt.linked {terminal : TerminalId} {chain : TerminalId → List Slot}
    (prebuilt : Prebuilt k next terminal) (linked : k.table.Linked chain)
    (unused : chain terminal = []) (free : k.pcbTrack (terminalSlot terminal) = false) :
    next.table.Linked (Function.update chain terminal [terminalSlot terminal]) := by
  have front : ({ k.table with current := terminal } : ProcessTable).Linked chain :=
    linked.congr rfl rfl rfl rfl
  have entered := front.enter free
  rw [unused] at entered
  rw [prebuilt.table]
  exact entered.congr rfl rfl rfl rfl

def bootChain : TerminalId → List Slot :=
  Function.update (Function.update (fun _ => []) 1 [terminalSlot 1]) 2 [terminalSlot 2]

theorem Booted.prebuilt (booted : Booted image k) :
    ∃ raw ready middle, Raw raw ∧ ready.paging = raw.paging.pagingInit ∧
      ready.currPcb = raw.currPcb ∧ ready.pcbTrack = raw.pcbTrack ∧ ready.readers = raw.readers ∧
      ready.current = 0 ∧ ready.numProgs = (fun terminal => if terminal = 0 then 1 else 0) ∧
      Prebuilt ready middle 1 ∧ Prebuilt middle k 2 := by
  obtain ⟨raw, stale2, stale3, fileHeader, statics, done⟩ := booted
  obtain ⟨middle, second, third⟩ := initTerminals_built done
  generalize found : findShell image fileHeader { raw with paging := raw.paging.pagingInit } = ready
    at second
  have paging : ready.paging = raw.paging.pagingInit := found ▸ rfl
  have currPcb : ready.currPcb = raw.currPcb := found ▸ rfl
  have prebuilt : Prebuilt ready middle 1 := by
    have unused : ready.currPcb 1 = none := currPcb ▸ statics.noProgram 1
    exact prebuildShell_prebuilt unused rfl second
  have unused : middle.currPcb 2 = none := by
    have others : middle.table.currPcb 2 = ready.currPcb 2 := by
      rw [prebuilt.table]
      rfl
    exact others.trans (currPcb ▸ statics.noProgram 2)
  exact ⟨raw, ready, middle, statics, paging, currPcb, found ▸ rfl, found ▸ rfl, found ▸ rfl,
    found ▸ rfl, prebuilt, prebuildShell_prebuilt unused rfl third⟩

theorem Booted.consistent (booted : Booted image k) : k.table.Consistent bootChain := by
  obtain ⟨raw, ready, middle, statics, -, currPcb, pcbTrack, -, current, numProgs, second, third⟩ :=
    booted.prebuilt
  have empty : ready.table.Linked fun _ => [] := by
    constructor
    · intro terminal
      have none : ready.table.currPcb terminal = none :=
        (congrFun currPcb terminal).trans (statics.noProgram terminal)
      rw [none]
      exact Chain.nil
    · exact fun _ _ _ _ member => absurd member List.not_mem_nil
    · intro slot
      have free : ready.table.pcbTrack slot = false :=
        (congrFun pcbTrack slot).trans (statics.noProcess slot)
      simp [free]
    · exact fun _ _ member => absurd member List.not_mem_nil
  have free (slot : Slot) : ready.pcbTrack slot = false :=
    (congrFun pcbTrack slot).trans (statics.noProcess slot)
  have one := second.linked empty rfl (free _)
  have free' : middle.pcbTrack (terminalSlot 2) = false := by
    have tracked : middle.pcbTrack (terminalSlot 2) = _ :=
      congrArg (fun table => ProcessTable.pcbTrack table (terminalSlot 2)) second.table
    exact tracked.trans (free _)
  have counts : k.table.numProgs = fun terminal => if terminal = 0 then 1 else 0 := by
    rw [third.table]
    have kept : middle.table.numProgs = ready.numProgs := by
      rw [second.table]
      rfl
    exact kept.trans numProgs
  have front : k.table.current = 0 := by
    rw [third.table]
    have kept : middle.current = ready.current := congrArg ProcessTable.current second.table
    exact kept.trans current
  refine ⟨third.linked one rfl free', ?_, ?_, ?_⟩
  · rw [counts]
    rfl
  · intro terminal nonzero _
    have alone : ∀ terminal : TerminalId, terminal ≠ 0 →
        bootChain terminal = [terminalSlot terminal] := by decide
    exact ⟨fun here => nonzero (here.trans front), alone terminal nonzero⟩
  · intro terminal nonzero started
    rw [counts] at started
    simp [nonzero] at started

theorem Booted.current (booted : Booted image k) : k.current = 0 := by
  obtain ⟨-, ready, middle, -, -, -, -, -, current, -, second, third⟩ := booted.prebuilt
  exact (congrArg ProcessTable.current third.table).trans
    ((congrArg ProcessTable.current second.table).trans current)

theorem Booted.foreground (booted : Booted image k) : k.foreground = none := by
  have follows := booted.consistent.follows k.current
  cases front : k.foreground with
  | none => rfl
  | some process =>
      rw [Kernel.foreground] at front
      rw [show k.table.currPcb k.current = _ from front, booted.current] at follows
      exact absurd follows.head_mem List.not_mem_nil

theorem Booted.unstarted {terminal : TerminalId} (booted : Booted image k) (nonzero : terminal ≠ 0) :
    k.numProgs terminal = 0 := by
  obtain ⟨-, ready, middle, -, -, -, -, -, -, numProgs, second, third⟩ := booted.prebuilt
  have later : k.numProgs = middle.numProgs := congrArg ProcessTable.numProgs third.table
  have early : middle.numProgs = ready.numProgs := congrArg ProcessTable.numProgs second.table
  rw [later, early, numProgs]
  exact if_neg nonzero

theorem consistent_step {event : Event} (done : k.step image event = some next)
    (consistent : ∃ chain, k.table.Consistent chain) : ∃ chain, next.table.Consistent chain := by
  obtain ⟨chain, before⟩ := consistent
  exact (step_table done).consistent before

theorem Booted.consistent_reachable (reached : Reachable (step image) (Booted image) k) :
    ∃ chain, k.table.Consistent chain :=
  reached.invariant (fun k => ∃ chain, k.table.Consistent chain)
    (fun _ booted => ⟨bootChain, booted.consistent⟩) fun _ _ _ before done => consistent_step done before

def Visited (image : Image) (start : Kernel) (events : List Event) (terminal : TerminalId) : Prop :=
  passes (step image) (fun k => k.current = terminal) start events

theorem numProgs_visited {start : Kernel} {events : List Event} {terminal : TerminalId}
    (booted : Booted image start) (path : Path (step image) (fun _ _ => True) start events k)
    (nonzero : terminal ≠ 0) : k.numProgs terminal ≠ 0 ↔ Visited image start events terminal := by
  have unstarted : ¬start.numProgs terminal ≠ 0 := not_not.mpr (booted.unstarted nonzero)
  have flagged := path.flag_iff (fun k => ∃ chain, k.table.Consistent chain)
    (fun k => k.numProgs terminal ≠ 0) (fun k => k.current = terminal)
    (fun _ _ _ before done => consistent_step done before)
    (fun k ⟨chain, before⟩ here zero => (before.waiting terminal nonzero zero).1 here.symm)
    (fun k _ next ⟨chain, before⟩ done => (step_table done).unvisited before nonzero)
    ⟨bootChain, booted.consistent⟩
  rw [flagged]
  exact or_iff_right unstarted

theorem processTable_reachable {start : Kernel} {events : List Event} (booted : Booted image start)
    (path : Path (step image) (fun _ _ => True) start events k) :
    ∃ chain, k.table.Linked chain ∧ k.numProgs 0 = (chain 0).length + 1 ∧
      ∀ terminal, terminal ≠ 0 →
        (Visited image start events terminal →
          k.numProgs terminal = (chain terminal).length ∧ 0 < k.numProgs terminal) ∧
        (¬Visited image start events terminal →
          k.numProgs terminal = 0 ∧ chain terminal = [terminalSlot terminal]) := by
  obtain ⟨chain, consistent⟩ := Booted.consistent_reachable ⟨start, events, booted, path⟩
  refine ⟨chain, consistent.toLinked, consistent.first, fun terminal nonzero => ⟨?_, ?_⟩⟩
  · intro visited
    have started : k.numProgs terminal ≠ 0 := (numProgs_visited booted path nonzero).mpr visited
    have counted : k.numProgs terminal = (chain terminal).length :=
      consistent.visited terminal nonzero started
    exact ⟨counted, by omega⟩
  · intro unvisited
    have zero : k.numProgs terminal = 0 := by
      by_contra started
      exact unvisited ((numProgs_visited booted path nonzero).mp started)
    exact ⟨zero, (consistent.waiting terminal nonzero zero).2⟩

end Kernel

end G29Os
