import G29Os.DescriptorTable
import G29Os.ExecuteCases
import G29Os.FrameDamage

/-!
A shell that executes another one. The call has stored in the PCB of its caller, and goes on by what is there
when the child has halted.
-/

namespace G29Os

open PageTables StepRun StrayWrites

namespace Kernel

variable {table : FopsTable} {s : StackedKernel} {k : Kernel} {command : List UInt8} {slot : Slot}

theorem shellFile_found : ∃ dentry entry, findProgram smallImage shellName noStale.fileHeader = some (dentry, entry) ∧
    smallImage.readDentryByName (textOf shellName) = some dentry ∧ dentry.inode = 0 ∧
      (spilledName dentry shellName).length < lineBuffer := by
  have ran : (findProgram smallImage shellName noStale.fileHeader).bind (fun program =>
      (smallImage.readDentryByName (textOf shellName)).map fun dentry =>
        decide (program.1.inode = 0 ∧ dentry.inode = 0 ∧ (spilledName dentry shellName).length < lineBuffer)) =
      some true := by
    decide +kernel
  obtain ⟨⟨dentry, entry⟩, found, ran⟩ := Option.bind_eq_some_iff.mp ran
  obtain ⟨named, looked, checks⟩ := Option.map_eq_some_iff.mp ran
  obtain ⟨-, inode, short⟩ := of_decide_eq_true checks
  have same : named = dentry := by
    rw [findProgram, looked] at found
    dsimp only at found
    split at found
    · exact congrArg Prod.fst (Option.some.inj found)
    · cases found
  exact ⟨dentry, entry, found, same ▸ looked, same ▸ inode, same ▸ short⟩

theorem shellReads_execute (free : k.freeSlot = some slot) (named : commandName command = shellName) :
    ReadsMapped smallImage k (.execute command noStale) := by
  obtain ⟨dentry, entry, found, looked, inode, -⟩ := shellFile_found
  have spans : k.eventSpans smallImage (.execute command noStale) = smallImage.lookSpan ::
      (readDataSpans smallImage 0 0 elfSize ++ loadSpans smallImage 0 (smallImage.inodeLength 0)) := by
    simp only [eventSpans, executeSpans, named, looked, found, free, inode]
  rw [ReadsMapped, spans]
  decide +kernel

theorem shell_executes (mapped : Mapped k) (running : k.running = some 1) (free : k.freeSlot = some slot)
    (named : commandName command = shellName) : ∃ dentry entry mem,
      let child := k.launched slot (namedPcb command (spilledName dentry shellName) noStale.pcb) entry mem
      k.systemExecute smallImage command noStale = some (.started child) ∧
        k.mappedStep smallImage (.execute command noStale) = some child := by
  obtain ⟨dentry, entry, found, -, inode, short⟩ := shellFile_found
  obtain ⟨address, fits⟩ := shellFile_fits
  have own : ProgramMapped (k.paging.addPage (frameOf slot) slot) slot := programMapped_addPage
  obtain ⟨mem, loaded⟩ := pokes_some own fits k.mem
  rw [← address, ← inode] at loaded
  rw [← named] at found short
  have executed_ := systemExecute_iff.mpr (Executing.started found free short loaded)
  rw [named] at executed_
  refine ⟨dentry, entry, mem, executed_, ?_⟩
  rw [mappedStep_mapped mapped.kernel (shellReads_execute free named)]
  simp only [step, running, Option.bind_some, programEvent, executed_, executed]

theorem halt_returns {image : Image} {stale : Stale} {process parent : Slot} (idle : k.readers k.current = none)
    (running : k.running = some process) (linked : (k.pcbs process).parentPtr = some parent)
    (closed : ∀ fd : Fin 8, fdBegin ≤ fd.val → (k.descriptor process fd).flags = false) :
    ∃ after, k.mappedStep image (.halt stale) = some after ∧ after.current = k.current ∧
      after.running = some parent ∧ after.cr3 = (k.pcbs parent).pid := by
  let after : Kernel := { (k.countProgram k.current (-1)).endProcess process with
    esp0 := stackTop parent
    cr3 := (k.pcbs parent).pid
    currPcb := Function.update k.currPcb k.current (some parent) }
  have halts : k.systemHalt image stale process = some after := by
    rw [systemHalt, closeAll_unopened closed, Option.bind_some, returnSyscall, linked]
  have quiet : after.readers after.current = none := idle
  refine ⟨after, ?_, rfl, ?_, rfl⟩
  · have spans : k.eventSpans image (.halt stale) = [] := by
      simp only [eventSpans, running, linked]
    rw [mappedStep, spans, if_pos seesAll_nil]
    simp only [step, running, Option.bind_some, programEvent, halts]
  · rw [running_idle_iff quiet]
    exact Function.update_self ..

theorem newPcbFrame_apart {j : Fin pcbSize} (high : pcbAddr 1 ≤ k.esp0) : newPcbFrame table command k (3, j) = none := by
  have inside := j.isLt
  refine if_neg ?_
  simp only [pcbAddr, kernelMemEnd, stackSize, pcbSize, newPcbDepth, show (3 : Slot).val = 3 from rfl,
    show (1 : Slot).val = 1 from rfl] at *
  omega

def struck (table : FopsTable) (command : List UInt8) (s : StackedKernel) (cell : PcbCell) : Option UInt8 :=
  (newPcbFrame table command s.state cell).or (s.stray cell)

def struckPcb (table : FopsTable) (command : List UInt8) (s : StackedKernel) : Pcb :=
  rereadPcb table (strayAt (struck table command s) 1) (s.state.pcbs 1)

/-- The caller goes on by the pid that it reads, and the bytes that were struck are still there. -/
structure Returns (table : FopsTable) (command : List UInt8) (s back : StackedKernel) : Prop where
  current : back.state.current = s.state.current
  running : back.state.running = some 1
  cr3 : back.state.cr3 = (struckPcb table command s).pid
  stray : ∀ j, back.stray (1, j) = struck table command s (1, j)

structure ChildRuns (table : FopsTable) (command : List UInt8) (s started : StackedKernel) : Prop where
  running : started.state.running = some 3
  idle : started.state.readers started.state.current = none
  current : started.state.current = s.state.current
  stray : ∀ j, started.stray (1, j) = struck table command s (1, j)
  clean : ∀ j, started.stray (3, j) = none
  caller : started.state.pcbs 1 = struckPcb table command s
  parent : (started.state.pcbs 3).parentPtr = some 1
  closed : ∀ fd : Fin 8, fdBegin ≤ fd.val → (started.state.descriptor 3 fd).flags = false

theorem strayAt_congr {stray other : PcbCell → Option UInt8} {slot : Slot}
    (same : ∀ j, stray (slot, j) = other (slot, j)) : strayAt stray slot = strayAt other slot := by
  funext j
  rw [strayAt, strayAt]
  split
  · exact same _
  · rfl

theorem struck_childRuns (mapped : Mapped s.state) (idle : ∀ terminal, s.state.readers terminal = none)
    (running : s.state.running = some 1) (free : s.state.freeSlot = some 3) (high : pcbAddr 1 ≤ s.state.esp0)
    (named : commandName command = shellName) :
    ∃ begun started, s.state.systemExecute smallImage command noStale = some (.started begun) ∧
      (pcbLayout table smallImage).run s (executeMove table command noStale s.state) = some started ∧
      ChildRuns table command s started := by
  obtain ⟨dentry, entry, mem, called, made⟩ := shell_executes mapped running free named
  let child := s.state.launched 3 (namedPcb command (spilledName dentry shellName) noStale.pcb) entry mem
  let started := (pcbLayout table smallImage).settled s (executeMove table command noStale s.state) child
  have occupied : child.foreground = some 3 := launched_foreground mem
  have renewed : makes smallImage s.state (.execute command noStale) child = some 3 := by
    rw [makes, called]
    exact occupied
  have left (cell : PcbCell) : started.stray cell = (newPcbFrame table command s.state cell).or
      (if decide (makes smallImage s.state (.execute command noStale) child = some cell.1) then none
        else s.stray cell) := rfl
  have stray (j : Fin pcbSize) : started.stray (1, j) = struck table command s (1, j) := by
    rw [left, renewed]
    rfl
  have clean (j : Fin pcbSize) : started.stray (3, j) = none := by
    rw [left, renewed, newPcbFrame_apart high]
    rfl
  have own : started.state.pcbs 3 = child.pcbs 3 := by
    have none : strayAt started.stray 3 = fun _ => none := by
      funext j
      rw [strayAt]
      split
      · exact clean _
      · rfl
    change rereadPcb table (strayAt started.stray 3) (child.pcbs 3) = child.pcbs 3
    rw [none, rereadPcb_none]
  have quiet : started.state.readers started.state.current = none := idle s.state.current
  refine ⟨child, started, called, pcbLayout_run made, ?_, quiet, rfl, stray, clean, ?_, ?_, fun fd above => ?_⟩
  · rw [running_idle_iff quiet]
    exact occupied
  · have kept : child.pcbs 1 = s.state.pcbs 1 := launched_other (by decide) mem
    rw [struckPcb, ← strayAt_congr stray, ← kept]
    rfl
  · have top : s.state.foreground = some 1 := running_foreground running
    rw [own, launched_own, top]
  · have low : ¬fd.val < fdBegin := Nat.not_lt_of_le above
    rw [descriptor, own, launched_own]
    change (if fd.val < fdBegin then Fd.console else Fd.closed).flags = false
    rw [if_neg low]
    rfl

theorem ChildRuns.faithful {started : StackedKernel} (runs : ChildRuns table command s started)
    (settles : ∀ j : Fin pcbSize, j.val < argsAt → ∀ byte, struck table command s (1, j) = some byte →
      byteAt (struckPcb table command s).pid j = byte) :
    Faithful table smallImage started (Move.quiet (.halt noStale)) := by
  refine ⟨?_, fun command stale same => by cases same⟩
  rintro cell ⟨process, top, looked⟩
  cases (running_foreground runs.running).symm.trans top
  refine ⟨rfl, ?_⟩
  obtain ⟨slot, j⟩ := cell
  rcases looked with rfl | ⟨linked, low⟩
  · rw [Layout.memory, runs.clean]
    rfl
  · obtain rfl : slot = 1 := Option.some.inj (linked.symm.trans runs.parent)
    have pid : pcbByte table (started.state.pcbs 1) j = byteAt (struckPcb table command s).pid j := by
      have first : pcbByte table (struckPcb table command s) (0 + j.val) = _ := pcbByte_pid low
      rw [Nat.zero_add] at first
      rw [runs.caller, first]
    rw [Layout.memory, runs.stray]
    change (struck table command s (1, j)).getD (pcbByte table (started.state.pcbs 1) j) = _
    cases written : struck table command s (1, j) with
    | none => rfl
    | some byte => exact (settles j low byte written).symm.trans pid.symm

theorem ChildRuns.halts {started : StackedKernel} (runs : ChildRuns table command s started) :
    ∃ back, (pcbLayout table smallImage).run started (Move.quiet (.halt noStale)) = some back ∧
      Returns table command s back := by
  obtain ⟨after, halted, current, again, cr3⟩ :=
    @halt_returns started.state smallImage noStale 3 1 runs.idle runs.running runs.parent runs.closed
  have kept : makes smallImage started.state (.halt noStale) after = none := by
    rw [makes, running_foreground runs.running, Option.bind_some, runs.parent]
  refine ⟨(pcbLayout table smallImage).settled started (Move.quiet (.halt noStale)) after, pcbLayout_run halted,
    current.trans runs.current, again, cr3.trans (congrArg Pcb.pid runs.caller), fun j => ?_⟩
  change (none).or (if decide (makes smallImage started.state (.halt noStale) after = some 1) then none
    else started.stray (1, j)) = _
  rw [kept]
  exact runs.stray j

end Kernel

end G29Os
