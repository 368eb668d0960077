import G29Os.ImageReads
import G29Os.PcbBytes

/-!
The kernel with its PCBs where they are: at the bottom of the blocks whose upper parts are the kernel
stacks. A handler that runs far enough down leaves bytes of its frames on a PCB, and which ones is an
input of the step.
-/

namespace G29Os

open StepRun StrayWrites

abbrev PcbCell := Slot × Fin Kernel.pcbSize

abbrev StackedKernel := Strayed Kernel PcbCell UInt8

/-- An event with the bytes that the frames of its handlers leave on PCBs. -/
abbrev StackMove := Move Event PcbCell UInt8

instance : NeZero Kernel.pcbSize := ⟨by decide⟩

namespace Kernel

def makes (image : Image) (k : Kernel) (event : Event) (next : Kernel) : Option Slot :=
  match event with
  | .firstShell _ => next.foreground
  | .execute command stale =>
      if (started (k.systemExecute image command stale)).isSome then next.foreground else none
  | .halt _ =>
      match k.foreground.bind fun process => (k.pcbs process).parentPtr with
      | none => next.foreground
      | some _ => none
  | _ => none

/-- A reload goes by the pid and the name of the program it brings back, a halt by the PCB of the
program and the pid of its parent, a call on descriptors by the PCBs it can find them in. -/
def looksAt (k : Kernel) (event : Event) (cell : PcbCell) : Prop :=
  match event with
  | .key code _ _ =>
      let target := (k.tty.afterKey code).currTerminal
      target ≠ k.current ∧ k.numProgs target ≠ 0 ∧ k.currPcb target = some cell.1 ∧
        (cell.2 < argsAt ∨ nameAt ≤ cell.2 ∧ cell.2 < nameAt + nameSize)
  | .halt _ => ∃ process, k.foreground = some process ∧
      (cell.1 = process ∨ (k.pcbs process).parentPtr = some cell.1 ∧ cell.2 < argsAt)
  | .read .. | .write .. | .open _ | .close _ | .getargs .. =>
      k.foreground = some cell.1 ∨ k.fsPcb = some cell.1
  | .rtcTick | .firstShell _ | .execute .. | .readAccess | .vidmap _ | .store .. => False

def strayAt (stray : PcbCell → Option UInt8) (slot : Slot) (j : Nat) : Option UInt8 :=
  if inside : j < pcbSize then stray (slot, ⟨j, inside⟩) else none

def rereadPcbs (table : FopsTable) (stray : PcbCell → Option UInt8) (k : Kernel) : Kernel :=
  { k with pcbs := fun slot => rereadPcb table (strayAt stray slot) (k.pcbs slot) }

theorem rereadPcbs_none (table : FopsTable) (k : Kernel) : k.rereadPcbs table (fun _ => none) = k := by
  have none (slot : Slot) : strayAt (fun _ => Option.none) slot = fun _ => Option.none := by
    funext j
    rw [strayAt, dite_eq_ite, ite_self]
  simp only [rereadPcbs, none, rereadPcb_none]

end Kernel

def pcbLayout (table : FopsTable) (image : Image) : Layout Kernel Event PcbCell UInt8 where
  step := Kernel.mappedStep image
  cell k cell := pcbByte table (k.pcbs cell.1) cell.2
  reads := Kernel.looksAt
  renews k event next cell := decide (k.makes image event next = some cell.1)
  reload := Kernel.rereadPcbs table
  reload_none := Kernel.rereadPcbs_none table

theorem pcbLayout_run {table : FopsTable} {image : Image} {s : StackedKernel} {move : StackMove} {after : Kernel}
    (taken : s.state.mappedStep image move.event = some after) :
    (pcbLayout table image).run s move = some ((pcbLayout table image).settled s move after) :=
  Layout.run_taken taken

theorem pcbLayout_settled {table : FopsTable} {image : Image} {s : StackedKernel} {event : Event}
    {writes : PcbCell → Option UInt8} {after : Kernel} (clear : ∀ cell, writes cell = none)
    (before : s = Strayed.alone s.state) :
    (pcbLayout table image).settled s { event := event, writes := writes } after = Strayed.alone after :=
  Layout.settled_clear clear before

theorem pcbLayout_quiet {table : FopsTable} {image : Image} {k after : Kernel} {event : Event}
    (taken : k.mappedStep image event = some after) :
    (pcbLayout table image).run (Strayed.alone k) (Move.quiet event) = some (Strayed.alone after) :=
  Layout.run_quiet taken

namespace StackedKernel

variable {table : FopsTable} {image : Image} {s : StackedKernel} {k : Kernel}

def byte (table : FopsTable) (s : StackedKernel) (slot : Slot) (j : Nat) : UInt8 :=
  (s.stray (slot, Fin.ofNat _ j)).getD (pcbByte table (s.state.pcbs slot) (Fin.ofNat Kernel.pcbSize j).val)

def word (table : FopsTable) (s : StackedKernel) (slot : Slot) (offset : Nat) : Nat :=
  wordFrom fun j => s.byte table slot (offset + j)

/-- Every PCB in memory is the one that the kernel stored. -/
def Intact (table : FopsTable) (s : StackedKernel) : Prop :=
  ∀ slot, ∀ j < Kernel.pcbSize, s.byte table slot j = pcbByte table (s.state.pcbs slot) j

theorem byte_alone {slot : Slot} {j : Nat} (inside : j < Kernel.pcbSize) :
    byte table (Strayed.alone k) slot j = pcbByte table (k.pcbs slot) j := by
  change pcbByte table (k.pcbs slot) (j % Kernel.pcbSize) = _
  rw [Nat.mod_eq_of_lt inside]

theorem intact_alone : Intact table (Strayed.alone k) := fun _ _ inside => byte_alone inside

theorem intact_of_alone (alone : s = Strayed.alone s.state) : s.Intact table := by
  rw [alone]
  exact intact_alone

theorem Intact.word {slot : Slot} {offset value : Nat} (intact : s.Intact table) (fits : offset + 4 ≤ Kernel.pcbSize)
    (bound : value < 4294967296) (stored : ∀ j < 4, pcbByte table (s.state.pcbs slot) (offset + j) = byteAt value j) :
    StackedKernel.word table s slot offset = value := by
  have bytes (j : Nat) (inside : j < 4) : s.byte table slot (offset + j) = byteAt value j := by
    rw [intact slot (offset + j) (by omega), stored j inside]
  rw [StackedKernel.word, wordFrom_congr bytes, wordFrom_byteAt bound]

theorem Intact.pid {slot : Slot} (intact : s.Intact table) : s.word table slot 0 = (s.state.pcbs slot).pid.val :=
  intact.word (by decide) (by omega) fun _ inside => pcbByte_pid inside

theorem Intact.parent {slot : Slot} (intact : s.Intact table) :
    s.word table slot parentAt = parentWord (s.state.pcbs slot).parentPtr :=
  intact.word (by decide) (parentWord_bound _) fun _ _ => pcbByte_parent

end StackedKernel

/-- A run from boot in which the frames of the handlers stay off the PCBs. -/
def ClearRun (table : FopsTable) (image : Image) (start : Kernel) (moves : List StackMove) (s : StackedKernel) : Prop :=
  Kernel.Booted image start ∧
    Path (pcbLayout table image).run (fun _ move => move.Clear) (Strayed.alone start) moves s

theorem ClearRun.path {table : FopsTable} {image : Image} {start : Kernel} {moves : List StackMove} {s : StackedKernel}
    (run : ClearRun table image start moves s) :
    Path (Kernel.step image) (fun _ _ => True) start (moves.map Move.event) s.state ∧ s = Strayed.alone s.state := by
  obtain ⟨path, alone⟩ : Path (Kernel.mappedStep image) (fun _ _ => True) start _ s.state ∧ s = Strayed.alone s.state :=
    Layout.path_clear (fun _ _ clear => ⟨clear, trivial⟩) run.2 rfl
  exact ⟨Kernel.path_mapped path, alone⟩

theorem ClearRun.onward {table : FopsTable} {image : Image} {start : Kernel} {moves later : List StackMove}
    {s finish : StackedKernel} (run : ClearRun table image start moves s)
    (path : Path (pcbLayout table image).run (fun _ move => move.Clear) s later finish) :
    ClearRun table image start (moves ++ later) finish ∧
      Path (Kernel.step image) (fun _ _ => True) s.state (later.map Move.event) finish.state := by
  obtain ⟨made, -⟩ : Path (Kernel.mappedStep image) (fun _ _ => True) s.state _ finish.state ∧ _ :=
    Layout.path_clear (fun _ _ clear => ⟨clear, trivial⟩) path run.path.2
  exact ⟨⟨run.1, run.2.append path⟩, Kernel.path_mapped made⟩

theorem ClearRun.reachable {table : FopsTable} {image : Image} {start : Kernel} {moves : List StackMove} {s : StackedKernel}
    (run : ClearRun table image start moves s) :
    StepRun.Reachable (Kernel.step image) (Kernel.Booted image) s.state :=
  ⟨start, _, run.1, run.path.1⟩

theorem ClearRun.intact {table : FopsTable} {image : Image} {start : Kernel} {moves : List StackMove} {s : StackedKernel}
    (run : ClearRun table image start moves s) : s.Intact table :=
  StackedKernel.intact_of_alone run.path.2

/-- Steps that read the image where it is mapped, from a boot with zeros in what is not set. -/
def Kernel.runMapped (image : Image) (events : List Event) : Option Kernel :=
  (Kernel.initTerminals image Kernel.noPcb Kernel.noPcb (fun _ => 0)
    { Kernel.zeroKernel with paging := Kernel.noPages.pagingInit }).bind fun k =>
      runWhere (Kernel.step image) (fun k event => True ∧ Kernel.ReadsMapped image k event) k events

theorem Kernel.runMapped_clear (table : FopsTable) {image : Image} {events : List Event} {k : Kernel}
    (computed : Kernel.runMapped image events = some k) :
    ∃ start, ClearRun table image start (events.map Move.quiet) (Strayed.alone k) := by
  obtain ⟨start, booted, ran⟩ := Option.bind_eq_some_iff.mp computed
  have boot : Kernel.Booted image start := ⟨Kernel.zeroKernel, _, _, _, Kernel.raw_zeroKernel, booted⟩
  have path := boot.sound.mappedPath (runWhere_path ran)
  exact ⟨start, boot, Layout.path_quiet (fun _ _ _ _ => rfl) path⟩

end G29Os
