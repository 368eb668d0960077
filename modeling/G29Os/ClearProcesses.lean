import G29Os.ProcessStacks
import G29Os.TornCaller

/-!
The processes as their PCBs in memory have them, in runs whose frames stay off the PCBs, and the runs whose
frames do not.
-/

namespace G29Os

open Kernel PageTables PointerChain StepRun StrayWrites

/-- The links that lead on from an address: of each PCB the pid and `parent_ptr`, as they are in memory. -/
inductive Traced (table : FopsTable) (s : StackedKernel) : Nat → List Slot → Prop
  | nil : Traced table s 0 []
  | cons {slot : Slot} {rest : List Slot} (pid : s.word table slot 0 = slot.val)
      (tail : Traced table s (s.word table slot parentAt) rest) : Traced table s (pcbAddr slot) (slot :: rest)

/-- From `curr_pcb` on, the links in memory are the chain of each terminal. -/
def StackedKernel.Holds (table : FopsTable) (s : StackedKernel) (chain : TerminalId → List Slot) : Prop :=
  ∀ terminal, Traced table s (parentWord (s.state.currPcb terminal)) (chain terminal)

namespace Kernel

variable {table : FopsTable} {image : Image} {start : Kernel} {moves later : List StackMove}
  {s finish : StackedKernel} {process : Slot}

theorem traced_word {address : Nat} {chain : List Slot} (traced : Traced table s address chain) :
    address = 0 ∨ ∃ slot, address = pcbAddr slot := by
  cases traced with
  | nil => exact Or.inl rfl
  | cons pid tail => exact Or.inr ⟨_, rfl⟩

theorem traced_slot {slot : Slot} {chain : List Slot} (traced : Traced table s (pcbAddr slot) chain) :
    ∃ rest, chain = slot :: rest ∧ Traced table s (s.word table slot parentAt) rest := by
  generalize place : pcbAddr slot = address at traced
  cases traced with
  | nil => exact absurd place (pcbAddr_bounds slot).1.ne'
  | @cons other rest pid tail =>
      cases pcbAddr_injective place
      exact ⟨rest, rfl, tail⟩

theorem intact_traced (intact : s.Intact table) {head : Option Slot} {chain : List Slot}
    (follows : Chain s.state.table.parent head chain) (placed : ∀ slot ∈ chain, (s.state.pcbs slot).pid = slot) :
    Traced table s (parentWord head) chain := by
  induction follows with
  | nil => exact Traced.nil
  | @cons slot rest tail ih =>
      refine Traced.cons ?_ ?_
      · rw [intact.pid, placed slot List.mem_cons_self]
      · rw [intact.parent]
        exact ih fun other member => placed other (List.mem_cons_of_mem slot member)

theorem holds_linked (intact : s.Intact table) {chain : TerminalId → List Slot} (linked : s.state.table.Linked chain) :
    s.Holds table chain := fun terminal =>
  intact_traced intact (linked.follows terminal) (linked.placed terminal)

/-- As long as the frames stay off the PCBs the `parent_ptr` chains in memory end, are disjoint, hold exactly
the slots in use, each PCB in its own slot, and `num_progs` counts them. -/
theorem processTable_clear (run : ClearRun table image start moves s) :
    ∃ chain, s.Holds table chain ∧ s.state.table.Linked chain ∧ s.state.numProgs 0 = (chain 0).length + 1 ∧
      ∀ terminal, terminal ≠ 0 →
        (Visited image start (moves.map Move.event) terminal →
          s.state.numProgs terminal = (chain terminal).length ∧ 0 < s.state.numProgs terminal) ∧
        (¬Visited image start (moves.map Move.event) terminal →
          s.state.numProgs terminal = 0 ∧ chain terminal = [terminalSlot terminal]) := by
  obtain ⟨chain, linked, first, others⟩ := processTable_reachable run.1 run.path.1
  exact ⟨chain, holds_linked run.intact linked, linked, first, others⟩

def relaunchEvents : List Event :=
  [.firstShell noStale, .execute shellName noStale] ++ keys [alt, f2] ++
    [.halt noStale, .execute shellName noStale, .halt noStale]

theorem relaunch_run : ∃ start k, ClearRun FopsTable.sample smallImage start (relaunchEvents.map Move.quiet)
    (Strayed.alone k) ∧ k.pcbTrack 3 = true := by
  have ran : (runMapped smallImage relaunchEvents).map (fun k => k.pcbTrack 3) = some true := by decide +kernel
  obtain ⟨k, computed, live⟩ := Option.map_eq_some_iff.mp ran
  obtain ⟨start, run⟩ := runMapped_clear FopsTable.sample computed
  exact ⟨start, k, run, live⟩

theorem processTable_relaunched : ∃ (k : Kernel) (chain : TerminalId → List Slot),
    StackedKernel.Holds FopsTable.sample (Strayed.alone k) chain ∧ k.table.Linked chain ∧
      k.numProgs 0 = (chain 0).length + 1 := by
  obtain ⟨start, k, run, -⟩ := relaunch_run
  obtain ⟨chain, holds, linked, first, -⟩ := processTable_clear run
  exact ⟨k, chain, holds, linked, first⟩

/-- The letters of a command that names no program end up in `parent_ptr` of the shell that runs. -/
theorem processTable_overwritten :
    ¬∀ (table : FopsTable) (start : Kernel) (moves : List StackMove) (s : StackedKernel), Booted smallImage start →
      Path (pcbLayout table smallImage).run (Real table smallImage) (Strayed.alone start) moves s →
        ∃ chain, s.Holds table chain := by
  intro claimed
  let table := FopsTable.sample
  obtain ⟨start, k, events, booted, path, tripped⟩ := tripped_reached table 197 (by decide)
  obtain ⟨next, taken, currPcb, word⟩ := tripped.overwritten table
  have call : Real table smallImage (Strayed.alone k) (executeMove table strayCommand noStale k) :=
    ⟨executeMove_faithful, trivial⟩
  obtain ⟨chain, holds⟩ := claimed table start _ next booted (path.append (Path.cons call taken (Path.nil next)))
  have second := holds 1
  rw [currPcb, tripped.front.1] at second
  obtain ⟨rest, -, behind⟩ := traced_slot second
  rw [word] at behind
  rcases traced_word behind with null | ⟨slot, place⟩
  · cases null
  · exact absurd place (Nat.lt_trans (pcbAddr_bounds slot).2 (by decide)).ne'

/-- As long as the frames stay off the PCBs the walk of a live process is the kernel below 8 MB and its own frame
at 128 MB, the frames of two processes and the kernel are apart, and the directory loaded is that of the program
that runs, by its pid in memory too. -/
theorem addressSpaces_clear (run : ClearRun table image start moves s) :
    (∀ pid, s.state.pcbTrack pid = true → ∀ v, v < 4294967296 →
      s.state.paging.walk pid v = processSpace pid v) ∧
    (∀ pid other, s.state.pcbTrack pid = true → s.state.pcbTrack other = true → pid ≠ other →
      ∀ v v' address, v < 4294967296 → v' < 4294967296 → mb128 ≤ v →
        s.state.paging.walk pid v = some address →
          kernelMemEnd ≤ address ∧ s.state.paging.walk other v' ≠ some address) ∧
    ∀ process, s.state.foreground = some process →
      s.state.cr3 = process ∧ s.word table process 0 = process.val ∧ s.state.pcbTrack process = true := by
  obtain ⟨walks, apart, front⟩ := addressSpaces_reachable run.reachable
  refine ⟨walks, apart, fun process running => ?_⟩
  obtain ⟨loaded, placed, live⟩ := front process running
  exact ⟨loaded, run.intact.pid.trans (congrArg Fin.val placed), live⟩

theorem addressSpaces_relaunched : ∃ k : Kernel,
    k.paging.walk 3 imageAddr = some (kernelMemEnd + 3 * mb4 + 0x48000) := by
  obtain ⟨start, k, run, live⟩ := relaunch_run
  exact ⟨k, (addressSpaces_clear run).1 3 live imageAddr (by decide)⟩

/-- The second terminal's shell goes on with the directory of the first one's. -/
theorem addressSpaces_torn :
    ¬∀ (table : FopsTable) (start : Kernel) (moves : List StackMove) (s : StackedKernel), Booted smallImage start →
      Path (pcbLayout table smallImage).run (Real table smallImage) (Strayed.alone start) moves s →
        ∀ process, s.state.running = some process → s.state.cr3 = process := by
  intro claimed
  obtain ⟨start, moves, s, booted, path, running, cr3⟩ := cr3_torn FopsTable.sample
  have loaded := claimed FopsTable.sample start moves s booted path 1 running
  rw [cr3] at loaded
  cases loaded

/-! ### Further runs -/

theorem nested_halts : ∃ (start : Kernel) (moves later : List StackMove) (s finish : StackedKernel),
    ClearRun FopsTable.sample smallImage start moves s ∧ s.state.pcbTrack 0 = true ∧
      Path (pcbLayout FopsTable.sample smallImage).run (fun cur move => move.Clear ∧
        ((∃ stale, move.event = .halt stale) → cur.state.running ≠ some 0)) s later finish := by
  have ran : ((runMapped smallImage [.firstShell noStale, .execute shellName noStale]).bind fun k =>
      (runWhere (step smallImage) (fun k event => k.running ≠ some 0 ∧ ReadsMapped smallImage k event) k
        [.halt noStale]).map fun _ => k.pcbTrack 0) = some true := by
    decide +kernel
  obtain ⟨k, computed, ran⟩ := Option.bind_eq_some_iff.mp ran
  obtain ⟨next, halted, live⟩ := Option.map_eq_some_iff.mp ran
  obtain ⟨start, run⟩ := runMapped_clear FopsTable.sample computed
  have steps := (sound_reachable run.reachable).mappedPath (runWhere_path halted)
  exact ⟨start, _, _, Strayed.alone k, Strayed.alone next, run, live,
    Layout.path_quiet (fun _ _ other => ⟨fun _ => rfl, fun _ => other⟩) steps⟩

/-- As long as the frames stay off the PCBs a run is one of the bank, and the stacks of the bank are the chains
in memory. -/
theorem stacks_refine (run : ClearRun table image start moves s)
    (path : Path (pcbLayout table image).run (fun _ move => move.Clear) s later finish) :
    ∃ bank changes last, Stacked s.state bank ∧ s.Holds table bank.stack ∧
      List.Forall₂ Event.Makes (later.map Move.event) changes ∧
      Path (fun bank change => StackBank.Bank.apply bank change) (fun _ _ => True) bank changes last ∧
      Stacked finish.state last ∧ finish.Holds table last.stack := by
  obtain ⟨whole, onward⟩ := run.onward path
  obtain ⟨bank, stacked⟩ := stacked_reachable run.reachable
  obtain ⟨changes, last, makes, changed, ends⟩ := path_moves stacked onward
  exact ⟨bank, changes, last, stacked, holds_linked run.intact stacked.table.toLinked, makes, changed, ends,
    holds_linked whole.intact ends.table.toLinked⟩

theorem stacks_refine_nested : ∃ (s finish : StackedKernel) (bank last : StackBank.Bank TerminalId Slot),
    s.Holds FopsTable.sample bank.stack ∧ finish.Holds FopsTable.sample last.stack := by
  obtain ⟨start, moves, later, s, finish, run, -, path⟩ := nested_halts
  obtain ⟨bank, changes, last, -, holds, -, -, -, ends⟩ := stacks_refine run (path.mono fun _ _ => And.left)
  exact ⟨s, finish, bank, last, holds, ends⟩

/-- As long as the frames stay off the PCBs a process that does not halt itself stays, with everyone it returns
to, and so does every byte of their PCBs but the descriptors'. -/
theorem lives_until_halt (run : ClearRun table image start moves s) (live : s.state.pcbTrack process = true)
    (path : Path (pcbLayout table image).run (fun cur move => move.Clear ∧
      ((∃ stale, move.event = .halt stale) → cur.state.running ≠ some process)) s later finish) :
    ∀ other, Relation.ReflTransGen (Parent s.state) process other → finish.state.pcbTrack other = true ∧
      ∀ j < pcbSize, j < fileArrayAt ∨ physicalAddrAt ≤ j → finish.byte table other j = s.byte table other j := by
  obtain ⟨made, alone⟩ := @Layout.path_clear _ _ _ _ (pcbLayout table image) s finish _
    (fun k event => (∃ stale, event = .halt stale) → k.running ≠ some process) (fun _ _ allowed => allowed) later path
    run.path.2
  have steps := path_mapped made
  intro other ancestor
  obtain ⟨stays, same⟩ := kept_until_halt run.reachable live steps other ancestor
  have intact : finish.Intact table := StackedKernel.intact_of_alone alone
  refine ⟨stays, fun j inside outside => ?_⟩
  rw [intact other j inside, run.intact other j inside, same, pcbByte_files outside]

theorem lives_until_halt_child : ∃ s finish : StackedKernel, finish.state.pcbTrack 0 = true ∧
    finish.byte FopsTable.sample 0 nameAt = s.byte FopsTable.sample 0 nameAt := by
  obtain ⟨start, moves, later, s, finish, run, live, path⟩ := nested_halts
  obtain ⟨stays, bytes⟩ := lives_until_halt run live path 0 Relation.ReflTransGen.refl
  exact ⟨s, finish, stays, bytes nameAt (by decide) (Or.inl (by decide))⟩

end Kernel

end G29Os
