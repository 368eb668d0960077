import G29Os.ExecuteBracket
import G29Os.ExecuteEffect
import G29Os.StruckParent

/-!
What calls leave of the PCBs in memory, in runs whose frames stay off them, and a run whose frames do not.
-/

namespace G29Os

open Kernel PageTables StepRun StrayWrites

namespace Kernel

variable {table : FopsTable} {image : Image} {start begun : Kernel} {moves inner : List StackMove}
  {s started returning back : StackedKernel} {call last : StackMove} {process : Slot} {command : List UInt8}
  {stale : Stale}

/-- As long as the frames stay off the PCBs, whatever the child and its descendants do on the terminal, when
`system_execute` is back in its caller the process table, the loaded directory, the caller's page and every byte
of its PCB are as before the call. -/
theorem executeBracket_clear (run : ClearRun table image start moves s) (running : s.state.running = some process)
    (calls : call.event = .execute command stale)
    (called : s.state.systemExecute image command stale = some (.started begun)) (entry : call.Clear)
    (begins : (pcbLayout table image).run s call = some started)
    (child : Path (pcbLayout table image).run
      (fun cur move => move.Clear ∧ Inside s.state.current process cur.state) started inner returning)
    (inside : Inside s.state.current process returning.state) (leaving : last.Clear)
    (returned : (pcbLayout table image).run returning last = some back) (stays : back.state.current = s.state.current)
    (home : back.state.currPcb s.state.current = some process) :
    Restored s.state back.state process ∧ ∀ j < pcbSize, back.byte table process j = s.byte table process j := by
  obtain ⟨made, alone⟩ := Layout.run_clear entry run.path.2 begins
  have stepped : s.state.step image (.execute command stale) = some started.state := calls ▸ mappedStep_step made
  have same : started.state = begun := by
    simp only [step, running, Option.bind_some, programEvent, called, executed] at stepped
    exact (Option.some.inj stepped).symm
  obtain ⟨path, alone'⟩ := @Layout.path_clear _ _ _ _ (pcbLayout table image) started returning _
    (fun k _ => Inside s.state.current process k) (fun _ _ allowed => allowed) inner child alone
  have steps := path_mapped path
  obtain ⟨made', alone''⟩ := Layout.run_clear leaving alone' returned
  rw [same] at steps
  have restored := executeBracket_restores run.reachable running called steps inside (mappedStep_step made') stays home
  refine ⟨restored, fun j within => ?_⟩
  have intact : back.Intact table := StackedKernel.intact_of_alone alone''
  rw [intact process j within, run.intact process j within, restored.pcb]

def childEvents : List Event :=
  [.open shellName, .read 2 (mb128 + 16) 4, .store mb128 7, .execute shellName noStale,
    .open shellName, .halt noStale, .read 2 (mb128 + 16) 4]

theorem executeBracket_shell : ∃ k next : Kernel, Restored k next 0 := by
  have ran : ((runMapped smallImage [.firstShell noStale]).bind fun k =>
      (Kernel.started (k.systemExecute smallImage shellName noStale)).bind fun begun =>
        (runWhere (step smallImage) (fun cur event => Inside 0 0 cur ∧ ReadsMapped smallImage cur event) begun
          childEvents).bind fun returning => (returning.step smallImage (.halt noStale)).map fun next =>
            decide (k.current = 0 ∧ k.running = some 0 ∧ ReadsMapped smallImage k (.execute shellName noStale) ∧
              Inside 0 0 returning ∧ ReadsMapped smallImage returning (.halt noStale) ∧ next.current = 0 ∧
              next.currPcb 0 = some 0)) = some true := by
    decide +kernel
  obtain ⟨k, computed, ran⟩ := Option.bind_eq_some_iff.mp ran
  obtain ⟨begun, called, ran⟩ := Option.bind_eq_some_iff.mp ran
  obtain ⟨returning, child, ran⟩ := Option.bind_eq_some_iff.mp ran
  obtain ⟨next, returned, ran⟩ := Option.map_eq_some_iff.mp ran
  obtain ⟨here, running, reads, inside, reads', stays, back⟩ := of_decide_eq_true ran
  obtain ⟨start, run⟩ := runMapped_clear FopsTable.sample computed
  have sound := sound_reachable run.reachable
  have executed_ := started_some called
  have stepped : k.step smallImage (.execute shellName noStale) = some begun := by
    simp only [step, running, Option.bind_some, programEvent, executed_, executed]
  have sound' : Sound begun := sound.step stepped
  have steps := sound'.mappedPath (runWhere_path child)
  have sound'' : Sound returning :=
    steps.preserves Sound (fun _ _ _ _ sound made => sound.step (mappedStep_step made)) sound'
  rw [← here] at stays back
  refine ⟨k, next, (@executeBracket_clear FopsTable.sample smallImage start begun _ (childEvents.map Move.quiet)
    (Strayed.alone k) (Strayed.alone begun) (Strayed.alone returning) (Strayed.alone next)
    (Move.quiet (.execute shellName noStale)) (Move.quiet (.halt noStale)) 0 shellName noStale run running rfl executed_
    (fun _ => rfl) ?_ ?_ (here.symm ▸ inside) (fun _ => rfl) ?_ stays back).1⟩
  · exact pcbLayout_quiet ((mappedStep_mapped sound.mapped.kernel reads).trans stepped)
  · exact Layout.path_quiet (fun _ _ within => ⟨fun _ => rfl, here.symm ▸ within⟩) steps
  · exact pcbLayout_quiet ((mappedStep_mapped sound''.mapped.kernel reads').trans returned)

def letterCommand : List UInt8 := shellName ++ [0x20, 0x61]

theorem Tripped.settles {k : Kernel} (tripped : Tripped k 197) (j : Fin pcbSize) (low : j.val < argsAt) (byte : UInt8)
    (written : struck table letterCommand (Strayed.alone k) (1, j) = some byte) :
    byteAt (struckPcb table letterCommand (Strayed.alone k)).pid j = byte := by
  have off : newPcbFrame table letterCommand k (1, j) = none := by
    refine if_neg ?_
    rw [tripped.base]
    simp only [argsAt, newPcbDepth] at low ⊢
    omega
  change (newPcbFrame table letterCommand k (1, j)).or none = some byte at written
  rw [off] at written
  cases written

theorem Tripped.struck_letter {k : Kernel} (tripped : Tripped k 197) :
    struck table letterCommand (Strayed.alone k) (1, 376) = some 0x61 := by
  have place : pcbAddr 1 + (376 : Fin pcbSize).val + newPcbDepth = k.esp0 + argsAt := by
    rw [tripped.base]
    rfl
  have stored := @newPcbFrame_at table k letterCommand (1, 376) _ place
  have byte : newPcbByte table letterCommand argsAt = some 0x61 := rfl
  change (newPcbFrame table letterCommand k (1, 376)).or none = some 0x61
  rw [stored, byte]
  rfl

theorem Tripped.lastByte {k : Kernel} (tripped : Tripped k 197) :
    StackedKernel.byte table (Strayed.alone k) 1 376 = 0 := by
  refine (StackedKernel.byte_alone (by decide)).trans ?_
  have cell := @pcbByte_fd table (k.pcbs 1) 4 7 (by decide)
  rw [tripped.lastFile] at cell
  exact cell.trans rfl

/-- The argument of `shell a` lies on the last descriptor of the caller when the child has halted. -/
theorem executeBracket_struck :
    ¬∀ (table : FopsTable) (start begun : Kernel) (moves inner : List StackMove) (s started returning back : StackedKernel)
      (call last : StackMove) (process : Slot) (command : List UInt8) (stale : Stale), Booted smallImage start →
      Path (pcbLayout table smallImage).run (Real table smallImage) (Strayed.alone start) moves s →
      s.state.running = some process → call.event = .execute command stale →
      s.state.systemExecute smallImage command stale = some (.started begun) → Real table smallImage s call →
      (pcbLayout table smallImage).run s call = some started →
      Path (pcbLayout table smallImage).run (fun cur move => Real table smallImage cur move ∧
        Inside s.state.current process cur.state) started inner returning →
      Inside s.state.current process returning.state → Real table smallImage returning last →
      (pcbLayout table smallImage).run returning last = some back → back.state.current = s.state.current →
      back.state.currPcb s.state.current = some process →
      ∀ j < pcbSize, back.byte table process j = s.byte table process j := by
  intro claimed
  let table := FopsTable.sample
  obtain ⟨start, k, events, booted, path, tripped⟩ := tripped_reached table 197 (by decide)
  have high : pcbAddr 1 ≤ k.esp0 := by
    rw [tripped.base]
    exact Nat.le_add_right ..
  obtain ⟨begun, started, called, begins, runs⟩ := @struck_childRuns table (Strayed.alone k) letterCommand
    tripped.shuttle.mapped tripped.shuttle.idle tripped.running tripped.freeSlot high (by decide)
  obtain ⟨back, halts, returns⟩ := runs.halts
  have inside : Inside k.current 1 started.state := by
    refine ⟨runs.current, fun home => ?_⟩
    have third : started.state.currPcb started.state.current = some 3 := running_foreground runs.running
    rw [runs.current] at third
    cases home.symm.trans third
  have again : back.state.currPcb back.state.current = some 1 := running_foreground returns.running
  rw [returns.current] at again
  have unchanged := claimed table start begun _ [] (Strayed.alone k) started started back
    (executeMove table letterCommand noStale k) (Move.quiet (.halt noStale)) 1 letterCommand noStale booted path
    tripped.running rfl called ⟨executeMove_faithful, trivial⟩ begins (Path.nil started) inside
    ⟨runs.faithful tripped.settles, trivial⟩ halts returns.current again 376 (by decide)
  have after : StackedKernel.byte table back 1 376 = 0x61 := by
    rw [StackedKernel.byte, show (Fin.ofNat pcbSize 376) = 376 from rfl, returns.stray, tripped.struck_letter]
    rfl
  rw [after, tripped.lastByte] at unchanged
  cases unchanged

/-! ### Descriptors -/

end Kernel

namespace Saved

variable {table : FopsTable} {image : Image} {start : Kernel} {moves : List StackMove} {t : StackedKernel}
  {s : Saved} {command : List UInt8} {call : CallStack} {writes : PcbCell → Option UInt8}

/-- The copy of the reserved bytes of the entry that is found ends in `name` of `system_execute`. -/
def executeContained (image : Image) (command : List UInt8) : Prop :=
  ∀ dentry ∈ image.readDentryByName (textOf (commandName command)), dentry.Contained lineBuffer

instance (image : Image) (command : List UInt8) : Decidable (executeContained image command) := by
  unfold executeContained
  infer_instance

/-- `executeUntil` on its stack frame, which an entry can overwrite, and in the kernel's pages, beside which a
read of the image faults. -/
def executeMapped (image : Image) (command : List UInt8) (call : CallStack) (count : Nat) (s : Saved) :
    Option (Progress × Saved) :=
  if s.kernel.seesAll (s.kernel.executeSpans image command call.stale) ∧ executeContained image command then
    s.executeUntil image command call count
  else none

theorem executeMapped_followed {count : Nat} (kernel : KernelMapped s.kernel.paging)
    (reads : ReadsMapped image s.kernel (.execute command call.stale)) (contained : executeContained image command) :
    s.executeMapped image command call count = s.executeUntil image command call count :=
  if_pos ⟨fun span listed j inside => sees_mapped kernel (reads span listed j inside), contained⟩

theorem executeMapped_until {count : Nat} {reached : Progress × Saved}
    (done : s.executeMapped image command call count = some reached) :
    s.executeUntil image command call count = some reached := by
  rw [executeMapped] at done
  split at done
  · exact done
  · cases done

/-- Byte `j` of the PCB of a slot, once the call has come to `next` and left `writes` on PCBs. -/
def left (table : FopsTable) (image : Image) (t : StackedKernel) (command : List UInt8) (call : CallStack)
    (writes : PcbCell → Option UInt8) (next : Saved) (slot : Slot) (j : Nat) : UInt8 :=
  StackedKernel.byte table ((pcbLayout table image).settled t { event := .execute command call.stale, writes := writes }
    next.kernel) slot j

/-- As long as the frames stay off the PCBs, a call that is refused changes nothing, in the kernel, in the arrays or
in the bytes of a PCB; any other takes the lowest free slot and leaves what belongs to the other slots alone, however
far it gets. -/
theorem executeEffect_clear (run : ClearRun table image start moves t) (same : s.kernel = t.state)
    (clear : ∀ cell, writes cell = none)
    (reads : ReadsMapped image s.kernel (.execute command call.stale)) (contained : executeContained image command) :
    (Refused image command call.stale.fileHeader s.kernel → ∃ ret next, Untouched s next ∧
      (∀ count, s.executeMapped image command call count = some (.returned ret, next)) ∧
      ∀ slot, ∀ j < pcbSize, left table image t command call writes next slot j = t.byte table slot j) ∧
    (¬Refused image command call.stale.fileHeader s.kernel →
      ∃ slot, IsLeast {slot | s.kernel.pcbTrack slot = false} slot ∧
        ∀ count progress next, s.executeMapped image command call count = some (progress, next) →
          (∀ ret, progress ≠ .returned ret) ∧ Occupies slot s next ∧ ∀ other, other ≠ slot → ∀ j < pcbSize,
            left table image t command call writes next other j = t.byte table other j) := by
  have reached : Reachable (step image) (Booted image) s.kernel := same ▸ run.reachable
  have kernel := (sound_reachable reached).mapped.kernel
  have bytes (next : Saved) {slot : Slot} (kept : next.kernel.pcbs slot = s.kernel.pcbs slot) (j : Nat)
      (inside : j < pcbSize) : left table image t command call writes next slot j = t.byte table slot j := by
    rw [left, pcbLayout_settled clear run.path.2, StackedKernel.byte_alone inside, run.intact slot j inside, kept, same]
  obtain ⟨refuses, accepts⟩ := executeEffect_reachable reached command call
  constructor
  · intro refused
    obtain ⟨ret, next, untouched, returns⟩ := refuses refused
    refine ⟨ret, next, untouched, fun count => ?_, fun slot j inside => ?_⟩
    · rw [executeMapped_followed kernel reads contained]
      exact returns count
    · exact bytes next (congrFun untouched.pcbs slot) j inside
  · intro accepted
    obtain ⟨slot, least, goes⟩ := accepts accepted
    refine ⟨slot, least, fun count progress next done => ?_⟩
    obtain ⟨open_, occupies⟩ := goes count progress next (executeMapped_until done)
    exact ⟨open_, occupies, fun other apart j inside => bytes next (occupies.pcbs other apart) j inside⟩

theorem secondShell_run : ∃ (start k : Kernel) (s next : Saved), ClearRun FopsTable.sample smallImage start
    ([Event.firstShell noStale].map Move.quiet) (Strayed.alone k) ∧ s.kernel = k ∧
      s.executeUntil smallImage shellName noCall 4 = some (.entered, next) ∧ k.freeSlot = some 3 ∧
      ReadsMapped smallImage k (.execute shellName noStale) ∧ ReadsMapped smallImage k (.execute [0x7a] noStale) := by
  let saved (k : Kernel) : Saved := { kernel := k, saveEsp := fun _ => 0, saveEbp := fun _ => 0 }
  have ran : ((runMapped smallImage [.firstShell noStale]).bind fun k =>
      ((saved k).executeUntil smallImage shellName noCall 4).map fun done =>
        (match done.1 with
        | .entered => true
        | _ => false) && decide (k.freeSlot = some 3 ∧ ReadsMapped smallImage k (.execute shellName noStale) ∧
          ReadsMapped smallImage k (.execute [0x7a] noStale))) = some true := by
    decide +kernel
  obtain ⟨k, computed, ran⟩ := Option.bind_eq_some_iff.mp ran
  obtain ⟨⟨progress, next⟩, executed, ends⟩ := Option.map_eq_some_iff.mp ran
  obtain ⟨entered, rest⟩ := Bool.and_eq_true_iff.mp ends
  obtain ⟨start, run⟩ := runMapped_clear FopsTable.sample computed
  cases progress with
  | returned ret => cases entered
  | loading => cases entered
  | entered => exact ⟨start, k, saved k, next, run, rfl, executed, of_decide_eq_true rest⟩

/-- One more shell on top of the first takes slot 3, since boot took 1 and 2. No file is named "z". -/
theorem executeEffect_secondShell : ∃ s next : Saved,
    s.executeMapped smallImage shellName noCall 4 = some (.entered, next) ∧ Occupies 3 s next ∧
      ∃ ret last, Untouched s last ∧ s.executeMapped smallImage [0x7a] noCall 4 = some (.returned ret, last) := by
  obtain ⟨start, k, s, next, run, rfl, executed, free, reads, reads'⟩ := secondShell_run
  have contained : executeContained smallImage shellName ∧ executeContained smallImage [0x7a] := by decide +kernel
  have unknown : Refused smallImage [0x7a] noCall.stale.fileHeader s.kernel :=
    Refused.unknown (Option.isNone_iff_eq_none.mp (by decide +kernel))
  have accepted : ¬Refused smallImage shellName noCall.stale.fileHeader s.kernel := fun refused => by
    obtain ⟨ret, _, -, returned⟩ := @executeUntil_refused _ _ _ s refused
    cases (returned 4).symm.trans executed
  have kernel := (sound_reachable run.reachable).mapped.kernel
  have followed := (executeMapped_followed kernel reads contained.1).trans executed
  let quiet : PcbCell → Option UInt8 := fun _ => none
  obtain ⟨slot, least, goes⟩ := (@executeEffect_clear FopsTable.sample smallImage start _ (Strayed.alone s.kernel) s
    shellName noCall quiet run rfl (fun _ => rfl) reads contained.1).2 accepted
  obtain ⟨ret, last, untouched, returns, -⟩ := (@executeEffect_clear FopsTable.sample smallImage start _
    (Strayed.alone s.kernel) s [0x7a] noCall quiet run rfl (fun _ => rfl) reads' contained.2).1 unknown
  cases least.unique (freeSlot_least free)
  exact ⟨s, next, followed, (goes 4 _ next followed).2.1, ret, last, untouched, returns 4⟩

/-- The letters of a command that names no program end up in `parent_ptr` of the shell that runs. -/
theorem executeEffect_overwritten :
    ¬∀ (table : FopsTable) (start : Kernel) (moves : List StackMove) (t next : StackedKernel) (call : StackMove)
      (command : List UInt8) (stale : Stale), Booted smallImage start →
      Path (pcbLayout table smallImage).run (Real table smallImage) (Strayed.alone start) moves t →
      call.event = .execute command stale → Refused smallImage command stale.fileHeader t.state →
      Real table smallImage t call → (pcbLayout table smallImage).run t call = some next →
      ∀ slot, t.state.pcbTrack slot = true → ∀ j < pcbSize, next.byte table slot j = t.byte table slot j := by
  intro claimed
  let table := FopsTable.sample
  obtain ⟨start, k, events, booted, path, tripped⟩ := tripped_reached table 197 (by decide)
  obtain ⟨next, taken, -, word⟩ := tripped.overwritten table
  have unknown : Refused smallImage strayCommand noStale.fileHeader k :=
    Refused.unknown (Option.isNone_iff_eq_none.mp (by decide +kernel))
  have same := claimed table start _ (Strayed.alone k) next (executeMove table strayCommand noStale k) strayCommand
    noStale booted path rfl unknown ⟨executeMove_faithful, trivial⟩ taken 1 tripped.front.2
  have before : StackedKernel.word table (Strayed.alone k) 1 parentAt = 0 := by
    rw [StackedKernel.intact_alone.parent]
    exact congrArg parentWord tripped.parent
  have kept : StackedKernel.word table next 1 parentAt = StackedKernel.word table (Strayed.alone k) 1 parentAt :=
    wordFrom_congr fun j inside => same (parentAt + j) (by simp only [parentAt, pcbSize]; omega)
  rw [word, before] at kept
  cases kept

end Saved

end G29Os
