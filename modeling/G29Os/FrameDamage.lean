import G29Os.StackDrift
import G29Os.StackFrames

/-!
Frames that do lie on a PCB. Two hundred round trips of a terminal bring the entry point of its program so
near its PCB that what `system_execute` stores among its locals goes there.
-/

namespace G29Os

open StepRun StrayWrites

namespace Kernel

/-- Bytes from `esp0` down to `new_pcb`, the local of a `system_execute` called from user mode. -/
def newPcbDepth : Nat := 724

/-- What `system_execute` has stored in its local at an offset before it looks the program up. -/
def newPcbByte (table : FopsTable) (command : List UInt8) (offset : Nat) : Option UInt8 :=
  let args := commandArgs command
  let i := (commandText command).length - args.length
  if argsAt ≤ offset ∧ offset < nameAt then
    let k := offset - argsAt
    if 2 * i + k < lineBuffer ∧ k ≤ args.length then some (textOf args k) else none
  else if fileArrayAt ≤ offset ∧ offset < physicalAddrAt then
    some (fileByte table (newPcbInit noPcb).fileArray (offset - fileArrayAt))
  else if parentAt ≤ offset ∧ offset < pcbSize then some 0
  else none

def newPcbFrame (table : FopsTable) (command : List UInt8) (k : Kernel) (cell : PcbCell) : Option UInt8 :=
  let address := pcbAddr cell.1 + cell.2 + newPcbDepth
  if k.esp0 ≤ address then newPcbByte table command (address - k.esp0) else none

/-- A step as the code makes it: what it goes by is there, and a call of `system_execute` leaves at least
its local. -/
structure Faithful (table : FopsTable) (image : Image) (s : StackedKernel) (move : StackMove) : Prop where
  undisturbed : (pcbLayout table image).Undisturbed s move
  newPcb : ∀ command stale, move.event = .execute command stale →
    ∀ cell byte, newPcbFrame table command s.state cell = some byte → move.writes cell = some byte

variable {table : FopsTable} {image : Image} {k : Kernel} {command : List UInt8} {stale : Stale}

def executeMove (table : FopsTable) (command : List UInt8) (stale : Stale) (k : Kernel) : StackMove :=
  { event := .execute command stale, writes := newPcbFrame table command k }

theorem executeMove_faithful {s : StackedKernel} : Faithful table image s (executeMove table command stale s.state) := by
  refine ⟨fun cell looks => absurd looks not_false, ?_⟩
  rintro _ _ ⟨⟩ cell byte stored
  exact stored

theorem newPcbFrame_at {cell : PcbCell} {offset : Nat}
    (place : pcbAddr cell.1 + cell.2 + newPcbDepth = k.esp0 + offset) :
    newPcbFrame table command k cell = newPcbByte table command offset := by
  rw [newPcbFrame, place, if_pos (Nat.le_add_right ..), Nat.add_sub_cancel_left]

theorem frame_misses {process slot : Slot} {depth size : Nat} {j : Fin pcbSize} (top : k.esp0 ≤ stackTop process)
    (room : pcbAddr process + size + depth ≤ k.esp0) (low : j.val < size) :
    ¬(k.esp0 ≤ pcbAddr slot + j + depth ∧ pcbAddr slot + j < k.esp0) := by
  rintro ⟨above, below⟩
  have own := process.isLt
  have other := slot.isLt
  have inside := j.isLt
  simp only [stackTop, pcbAddr, pcbSize, kernelMemEnd, stackSize] at *
  rcases Nat.lt_trichotomy slot.val process.val with less | same | more
  all_goals omega

theorem stackTop_pcb (slot : Slot) : stackTop slot = pcbAddr slot + 8188 := by
  simp only [stackTop, pcbAddr, kernelMemEnd, stackSize]
  omega

theorem Drifted.place {trips : TerminalId → Nat} {process : Slot} (drifted : Drifted k trips)
    (front : k.foreground = some process) (few : 36 * trips k.current ≤ 8188) :
    k.esp0 + 36 * trips k.current = stackTop process := by
  obtain ⟨drift, bound⟩ := drifted.front process front
  have high : ∀ slot : Slot, 8188 < stackTop slot := by decide
  have own := high process
  generalize stackTop process = top at *
  generalize trips k.current = count at *
  omega

/-- Frames of at most `depth` bytes below `esp0` stay off the PCBs as long as the round trips leave them room. -/
theorem clear_of_trips {trips : TerminalId → Nat} {process : Slot} {depth : Nat} {move : StackMove}
    (drifted : Drifted k trips) (front : k.foreground = some process)
    (within : ∀ cell, (move.writes cell).isSome →
      k.esp0 ≤ pcbAddr cell.1 + cell.2 + depth ∧ pcbAddr cell.1 + cell.2 < k.esp0)
    (room : 36 * trips k.current + depth ≤ 7792) : move.Clear := by
  have place := drifted.place front (by omega)
  have top := stackTop_pcb process
  have below : k.esp0 ≤ stackTop process := by omega
  have above : pcbAddr process + pcbSize + depth ≤ k.esp0 := by
    simp only [pcbSize]
    omega
  intro cell
  by_contra written
  exact frame_misses below above cell.2.isLt (within cell (Option.isSome_iff_ne_none.mpr written))

structure Tripped (k : Kernel) (count : Nat) : Prop where
  shuttle : Shuttle k 1 0
  running : k.running = some 1
  freeSlot : k.freeSlot = some 3
  parent : (k.pcbs 1).parentPtr = none
  lastFile : (k.pcbs 1).fileArray 7 = Fd.closed
  esp0 : k.esp0 + 36 * count = stackTop 1

theorem quiet_faithful {event : Event} (calls : ∀ command stale, event ≠ .execute command stale) :
    Faithful table image (Strayed.alone k) (Move.quiet event) :=
  ⟨Layout.undisturbed_clear (fun _ => rfl) rfl, fun command stale same => absurd same (calls command stale)⟩

def Real (table : FopsTable) (image : Image) (s : StackedKernel) (move : StackMove) : Prop :=
  Faithful table image s move ∧ FromUserMode s.state move.event

theorem running_idle_iff (idle : k.readers k.current = none) : k.running = k.currPcb k.current := by
  rw [Kernel.running, idle]
  rfl

theorem Tripped.front {count : Nat} (tripped : Tripped k count) : k.currPcb 1 = some 1 ∧ k.pcbTrack 1 = true := by
  obtain ⟨process, top, live, -⟩ := tripped.shuttle.top 1 (Or.inl rfl)
  have running := tripped.running
  rw [running_idle_iff (tripped.shuttle.idle _), tripped.shuttle.current] at running
  obtain rfl : process = 1 := Option.some.inj (top.symm.trans running)
  exact ⟨top, live⟩

theorem Tripped.base (tripped : Tripped k 197) : k.esp0 = pcbAddr 1 + 1096 := by
  have esp0 := tripped.esp0
  have top : stackTop 1 = 8380412 := rfl
  have base : pcbAddr 1 = 8372224 := rfl
  omega

def Uncalled (k : Kernel) (event : Event) : Prop :=
  FromUserMode k event ∧ ∀ command stale, event ≠ .execute command stale

theorem quiet_path {start : Kernel} {events : List Event} (sound : Sound start)
    (path : Path (step image) (fun k event => Uncalled k event ∧ ReadsMapped image k event) start events k) :
    Path (pcbLayout table image).run (Real table image) (Strayed.alone start) (events.map Move.quiet)
      (Strayed.alone k) :=
  Layout.path_quiet (fun _ _ allowed => ⟨quiet_faithful allowed.2, allowed.1⟩) (sound.mappedPath path)

theorem twoShells_uncalled {start k : Kernel}
    (path : Path (step smallImage) (fun k event => FromUserMode k event ∧ ReadsMapped smallImage k event) start
      twoShells k) :
    Path (step smallImage) (fun k event => Uncalled k event ∧ ReadsMapped smallImage k event) start twoShells k := by
  refine path.listed.mono fun k event both => ⟨⟨both.1.1, ?_⟩, both.1.2⟩
  rintro command stale rfl
  exact absurd both.2 (by simp [twoShells])

theorem tripped_reached (table : FopsTable) (count : Nat) (fits : 36 * count < 7792) :
    ∃ (start k : Kernel) (events : List Event), Booted smallImage start ∧
      Path (pcbLayout table smallImage).run (Real table smallImage) (Strayed.alone start)
        (events.map Move.quiet) (Strayed.alone k) ∧ Tripped k count := by
  obtain ⟨start, first, booted, path, shuttle, running, none, free, parent, lastFile⟩ := twoShells_shuttle
  obtain ⟨events, k, keys, ends, same, counted⟩ :=
    shuttle.rounds (by decide) (show Tty.switchTarget f1 = some 0 from rfl)
      (show Tty.switchTarget f2 = some 1 from rfl) (roundTrips smallImage start twoShells) count
  have front : k.running = some 1 := by
    rw [running_idle_iff (shuttle.idle _), shuttle.current] at running
    rw [running_idle_iff (ends.idle _), ends.current, same.currPcb, running]
  have drift : k.esp0 + 36 * count = stackTop 1 := by
    have later := keys.mono fun _ _ => And.left
    have trips : roundTrips smallImage start (twoShells ++ events) k.current = count := by
      rw [ends.current, roundTrips, path.recorded_append later]
      exact counted.trans ((congrArg (· + count) (none 1)).trans (Nat.zero_add count))
    have whole : Path (step smallImage) FromUserMode start (twoShells ++ events) k :=
      (path.append later).mono fun _ _ => And.left
    have place := (booted.drifts whole).place (running_foreground front) (by rw [trips]; omega)
    rwa [trips] at place
  have after : Path (step smallImage) (fun k event => Uncalled k event ∧ ReadsMapped smallImage k event) first
      events k := by
    refine keys.mono fun k event key => ⟨⟨key.1.1, ?_⟩, key.1.2⟩
    obtain ⟨code, regs, stale, rfl⟩ := key.2
    exact fun _ _ same => by cases same
  have free' : k.freeSlot = some 3 := by
    rw [freeSlot, same.pcbTrack]
    exact free
  exact ⟨start, k, twoShells ++ events, booted, quiet_path booted.sound ((twoShells_uncalled path).append after), ends,
    front, free', same.pcbs ▸ parent, same.pcbs ▸ lastFile, drift⟩

def strayCommand : List UInt8 := ascii ['z', ' '] ++ List.replicate 20 0x61

theorem strayCommand_reads (k : Kernel) : ReadsMapped smallImage k (.execute strayCommand noStale) := by
  have unknown : (smallImage.readDentryByName (textOf (commandName strayCommand))).isNone = true := by decide +kernel
  have spans : k.eventSpans smallImage (.execute strayCommand noStale) = [smallImage.lookSpan] := by
    simp only [eventSpans, executeSpans, Option.isNone_iff_eq_none.mp unknown]
  rw [ReadsMapped, spans]
  decide +kernel

theorem strayCommand_refused (mapped : Mapped k) (running : k.running = some 1) :
    k.mappedStep smallImage (.execute strayCommand noStale) = some k := by
  have unknown : findProgram smallImage (commandName strayCommand) noStale.fileHeader = none := by decide +kernel
  have called : k.systemExecute smallImage strayCommand noStale = some (.failed (-1) k) := by
    simp only [systemExecute, unknown]
  rw [mappedStep_mapped mapped.kernel (strayCommand_reads k)]
  simp only [step, running, Option.bind_some, programEvent, called, executed]

theorem newPcbByte_stray (j : Nat) (inside : j < 4) :
    newPcbByte table strayCommand (argsAt + 16 + j) = some (byteAt 0x61616161 j) := by
  obtain rfl | rfl | rfl | rfl : j = 0 ∨ j = 1 ∨ j = 2 ∨ j = 3 := by omega
  all_goals rfl

theorem Tripped.overwritten (table : FopsTable) (tripped : Tripped k 197) :
    ∃ next, (pcbLayout table smallImage).run (Strayed.alone k) (executeMove table strayCommand noStale k) = some next ∧
      next.state.currPcb = k.currPcb ∧ StackedKernel.word table next 1 parentAt = 0x61616161 := by
  let move := executeMove table strayCommand noStale k
  have refused := strayCommand_refused tripped.shuttle.mapped tripped.running
  refine ⟨(pcbLayout table smallImage).settled (Strayed.alone k) move k,
    @pcbLayout_run table smallImage (Strayed.alone k) move k refused, rfl, ?_⟩
  have letter (j : Nat) (inside : j < 4) : StackedKernel.byte table
      ((pcbLayout table smallImage).settled (Strayed.alone k) move k) 1 (parentAt + j) = byteAt 0x61616161 j := by
    have cell : (Fin.ofNat pcbSize (parentAt + j)).val = parentAt + j :=
      Nat.mod_eq_of_lt (by simp only [parentAt, pcbSize]; omega)
    have place : pcbAddr 1 + (Fin.ofNat pcbSize (parentAt + j)).val + newPcbDepth =
        k.esp0 + (argsAt + 16 + j) := by
      rw [cell, tripped.base]
      simp only [parentAt, newPcbDepth, argsAt]
      omega
    have stored := @newPcbFrame_at table k strayCommand (1, Fin.ofNat pcbSize (parentAt + j)) _ place
    exact Layout.memory_written (stored.trans (newPcbByte_stray j inside))
  exact (wordFrom_congr letter).trans (wordFrom_byteAt (by omega))

end Kernel

end G29Os
