import G29Os.ProcessInvariant
import G29Os.ProcessTurns

/-!
The name that a PCB keeps of its program against the directory entry the program was started
from, which is recorded beside the run.
-/

namespace G29Os

open StepRun

/-! ### Look-ups of one text -/

theorem sameText_congr {entry name text : Nat → UInt8} {last : Nat}
    (agree : ∀ index, index ≤ last → name index = text index) (ends : text last = 0) (count : Nat)
    {index : Nat} (low : index ≤ last) :
    sameText entry name count index = sameText entry text count index := by
  induction count generalizing index with
  | zero => rfl
  | succ count ih =>
      simp only [sameText, agree index low]
      rcases Nat.lt_or_eq_of_le low with before | at_
      · rw [ih before]
      -- past the NUL neither look-up goes on
      · subst at_
        rw [ends]
        cases entry index == 0 <;> rfl

theorem Image.readDentryByName_congr {image : Image} {name text : Nat → UInt8} {last : Nat}
    (agree : ∀ index, index ≤ last → name index = text index) (ends : text last = 0) :
    image.readDentryByName name = image.readDentryByName text := by
  simp only [readDentryByName, sameText_congr agree ends _ (Nat.zero_le last)]

def Terminated (name : Nat → UInt8) : Prop := ∃ index, index < lineBuffer ∧ name index = 0

theorem textOf_end (text : List UInt8) : textOf text text.length = 0 := by
  simp [textOf, List.getD_eq_getElem?_getD]

theorem copyName_text {text : List UInt8} {stale : Nat → UInt8} {index : Nat}
    (inside : index ≤ text.length) : Kernel.copyName text stale index = textOf text index :=
  if_pos inside

theorem terminated_copyName {text : List UInt8} {stale : Nat → UInt8} (short : text.length < lineBuffer) :
    Terminated (Kernel.copyName text stale) :=
  ⟨text.length, short, (copyName_text (Nat.le_refl _)).trans (textOf_end text)⟩

theorem readDentryByName_copyName {image : Image} {text : List UInt8} {stale : Nat → UInt8} :
    image.readDentryByName (Kernel.copyName text stale) = image.readDentryByName (textOf text) :=
  Image.readDentryByName_congr (fun _ => copyName_text) (textOf_end text)

/-! ### The record -/

/-- The entry a program was started from, and whether `system_execute` started it; else it is
a shell of `init_terminals`. -/
structure Program where
  dentry : Dentry
  executed : Bool

namespace Kernel

abbrev Programs := Slot → Option Program

def shellEntry (image : Image) : Dentry :=
  (image.readDentryByName (textOf shellName)).getD
    { name := fun _ => 0, type := 0, inode := 0 }

def bootPrograms (image : Image) : Programs := fun slot =>
  if slot = terminalSlot 1 ∨ slot = terminalSlot 2 then
    some { dentry := shellEntry image, executed := false }
  else none

/-- `system_execute` of a command has put the entry it found behind the foreground program. -/
def noteExecuted (image : Image) (name : List UInt8) (stale : Stale) (next : Kernel)
    (programs : Programs) : Programs :=
  match next.foreground, findProgram image name stale.fileHeader with
  | some slot, some (dentry, _) =>
      Function.update programs slot (some { dentry := dentry, executed := true })
  | _, _ => programs

/-- What an event does to the record. `start_shell` runs what `init_terminals` loaded, and
`reload_program` is to restore what was there. -/
def noteProgram (image : Image) (k : Kernel) (event : Event) (next : Kernel) (programs : Programs) :
    Programs :=
  match event with
  | .firstShell stale => noteExecuted image shellName stale next programs
  | .execute command stale =>
      match started (k.systemExecute image command stale) with
      | some _ => noteExecuted image (commandName command) stale next programs
      | none => programs
  | .halt stale =>
      match k.foreground.bind fun process => (k.pcbs process).parentPtr with
      | some _ => programs
      | none => noteExecuted image shellName stale next programs
  | _ => programs

variable {image : Image} {k next middle : Kernel} {process slot : Slot} {programs : Programs}

structure SpilledFrom (image : Image) (name : Nat → UInt8) (dentry : Dentry) : Prop where
  terminated : Terminated name
  found : dentry.Contained 0 → image.readDentryByName name = some dentry
  spilled : ¬dentry.Contained 0 →
    image.readDentryByName name = image.readDentryByName (textOf (nameBehind dentry))

structure Recorded (image : Image) (k : Kernel) (programs : Programs) : Prop where
  live : ∀ slot, k.pcbTrack slot = true → ∃ program, programs slot = some program
  executed : ∀ slot program, programs slot = some program → program.executed = true →
    SpilledFrom image (k.pcbs slot).name program.dentry
  prebuilt : ∀ slot program, programs slot = some program → program.executed = false →
    program.dentry = shellEntry image ∧ (slot = terminalSlot 2 ∨
      Terminated (k.pcbs slot).name ∧
        image.readDentryByName (k.pcbs slot).name = image.readDentryByName (textOf shellName))

structure KeepsNames (k next : Kernel) : Prop where
  names : ∀ slot, (next.pcbs slot).name = (k.pcbs slot).name
  live : ∀ slot, next.pcbTrack slot = true → k.pcbTrack slot = true

theorem KeepsNames.trans (first : KeepsNames k middle) (second : KeepsNames middle next) :
    KeepsNames k next :=
  ⟨fun slot => (second.names slot).trans (first.names slot),
    fun slot live => first.live slot (second.live slot live)⟩

theorem Recorded.keeps (known : Recorded image k programs) (keeps : KeepsNames k next) :
    Recorded image next programs where
  live slot live := known.live slot (keeps.live slot live)
  executed slot program made system := by
    rw [keeps.names]
    exact known.executed slot program made system
  prebuilt slot program made built := by
    rw [keeps.names]
    exact known.prebuilt slot program made built

theorem findProgram_dentry {name : List UInt8} {fileHeader : Nat → UInt8} {dentry : Dentry}
    {entry : UInt32} (found : findProgram image name fileHeader = some (dentry, entry)) :
    image.readDentryByName (textOf name) = some dentry := by
  rw [findProgram] at found
  split at found
  · cases found
  · rename_i named
    dsimp only at found
    split at found
    · cases found
      exact named
    · cases found

theorem launch_others {pcb : Pcb} {dentry : Dentry} {entry : UInt32}
    (done : k.launch image slot pcb dentry entry = some next) :
    next.foreground = some slot ∧ next.pcbTrack = Function.update k.pcbTrack slot true ∧
      ∀ other, other ≠ slot → next.pcbs other = k.pcbs other := by
  obtain ⟨loaded, copied, rfl⟩ := Option.map_eq_some_iff.mp done
  obtain ⟨⟨mem, rfl⟩, -⟩ := storeBytes_stored copied
  exact ⟨Function.update_self .., rfl, fun other apart => Function.update_of_ne apart ..⟩

theorem spilledFrom_copyName {name : List UInt8} {dentry : Dentry} {stale : Nat → UInt8}
    (found : image.readDentryByName (textOf name) = some dentry)
    (short : (spilledName dentry name).length < lineBuffer) :
    SpilledFrom image (copyName (spilledName dentry name) stale) dentry := by
  refine ⟨terminated_copyName short, fun contained => ?_, fun spilled => ?_⟩
  · rw [readDentryByName_copyName, spilledName, if_pos contained, found]
  · rw [readDentryByName_copyName, spilledName, if_neg spilled]

theorem Recorded.started {command : List UInt8} {stale : Stale} (known : Recorded image k programs)
    (done : k.systemExecute image command stale = some (.started next)) :
    Recorded image next (noteExecuted image (commandName command) stale next programs) := by
  obtain ⟨slot, dentry, entry, -, found, short, launched⟩ := systemExecute_started done
  obtain ⟨front, track, others⟩ := launch_others launched
  have own : (next.pcbs slot).name =
      copyName (spilledName dentry (commandName command)) (newPcbInit stale.pcb).name := by
    rw [launch_pcb launched]
    rfl
  have noted : noteExecuted image (commandName command) stale next programs =
      Function.update programs slot (some { dentry := dentry, executed := true }) := by
    rw [noteExecuted, front, found]
  rw [noted]
  constructor
  · intro other live
    rcases eq_or_ne other slot with same | apart
    · subst same
      exact ⟨_, Function.update_self ..⟩
    · rw [track, Function.update_of_ne apart] at live
      rw [Function.update_of_ne apart]
      exact known.live other live
  · intro other program made system
    rcases eq_or_ne other slot with same | apart
    · subst same
      rw [Function.update_self] at made
      cases made
      rw [own]
      exact spilledFrom_copyName (findProgram_dentry found) short
    · rw [Function.update_of_ne apart] at made
      rw [others other apart]
      exact known.executed other program made system
  · intro other program made built
    rcases eq_or_ne other slot with same | apart
    · subst same
      rw [Function.update_self] at made
      cases made
      cases built
    · rw [Function.update_of_ne apart] at made
      rw [others other apart]
      exact known.prebuilt other program made built

theorem Closed.keepsNames (closed : Closed process k next) : KeepsNames k next := by
  obtain ⟨files, rtc, rfl, -⟩ := closed
  refine ⟨fun slot => ?_, fun slot live => live⟩
  simp only [setFiles, setPcb]
  rcases eq_or_ne slot process with same | apart
  · rw [same, Function.update_self]
  · rw [Function.update_of_ne apart]

theorem Local.keepsNames (same : Local k next) : KeepsNames k next := by
  refine ⟨fun slot => ?_, fun slot live => ?_⟩
  · rw [same.identity]
  · have track : next.pcbTrack = k.pcbTrack := congrArg ProcessTable.pcbTrack same.table
    exact track ▸ live

theorem endProcess_keepsNames : KeepsNames k (k.endProcess process) := by
  refine ⟨fun slot => rfl, fun slot live => ?_⟩
  simp only [endProcess] at live
  rcases eq_or_ne slot (k.pcbs process).pid with same | apart
  · rw [same, Function.update_self] at live
    cases live
  · rwa [Function.update_of_ne apart] at live

theorem systemHalt_relaunched {stale : Stale} (done : k.systemHalt image stale process = some next) :
    (∃ parent, (k.pcbs process).parentPtr = some parent) ∧ KeepsNames k next ∨
      (k.pcbs process).parentPtr = none ∧ ∃ cleared, KeepsNames k cleared ∧
        cleared.systemExecute image shellName stale = some (.started next) := by
  obtain ⟨closed, closing, returned⟩ := Option.bind_eq_some_iff.mp done
  have closed' := closeAll_closed closing
  have names := closed'.keepsNames
  have counted : KeepsNames k (closed.countProgram closed.current (-1)) := ⟨names.names, names.live⟩
  have parent : (closed.pcbs process).parentPtr = (k.pcbs process).parentPtr := by
    obtain ⟨files, rtc, rfl, -⟩ := closed'
    simp only [setFiles, setPcb, Function.update_self]
  have ended := counted.trans (@endProcess_keepsNames _ process)
  cases returnSyscall_returned returned with
  | @resumed caller linked =>
      exact Or.inl ⟨⟨caller, parent.symm.trans linked⟩, ⟨ended.names, ended.live⟩⟩
  | relaunched base executed =>
      refine Or.inr ⟨parent.symm.trans base, _, ?_, executed⟩
      exact ⟨ended.names, ended.live⟩

theorem Swapped.keepsNames {target : TerminalId} {regs : SaveRegs}
    (swapped : Swapped k next target regs) : KeepsNames k next := by
  obtain ⟨-, -, track, -, -⟩ := swapped.fields
  exact ⟨fun slot => by rw [swapped.pcbs], fun slot live => track ▸ live⟩

theorem commandName_shell : commandName shellName = shellName := by decide

theorem Recorded.step {event : Event} (known : Recorded image k programs)
    (done : k.step image event = some next) :
    Recorded image next (noteProgram image k event next programs) := by
  cases step_turn done with
  | stays same silent failed =>
      have kept := known.keeps same.toLocal.keepsNames
      cases event with
      | firstShell stale => exact absurd rfl (silent stale).1
      | halt stale => exact absurd rfl (silent stale).2
      | execute command stale =>
          rw [noteProgram, failed command stale rfl]
          exact kept
      | _ => exact kept
  | firstShell front empty done =>
      have begun := known.started done
      rwa [commandName_shell] at begun
  | started running done =>
      rw [noteProgram, done]
      exact known.started done
  | halted running done =>
      have front := running_foreground running
      rcases systemHalt_relaunched done with ⟨⟨parent, linked⟩, keeps⟩ | ⟨base, cleared, keeps, called⟩
      · simp only [noteProgram, front, Option.bind_some, linked]
        exact known.keeps keeps
      · simp only [noteProgram, front, Option.bind_some, base]
        have begun := (known.keeps keeps).started called
        rwa [commandName_shell] at begun
  | switched handled done => exact known.keeps (switchTerminal_swapped handled done).keepsNames

theorem Booted.recorded (booted : Booted image k) : Recorded image k (bootPrograms image) := by
  obtain ⟨raw, stale2, stale3, fileHeader, statics, done⟩ := booted
  obtain ⟨middle, second, third⟩ := initTerminals_built done
  obtain ⟨⟨mem, rfl⟩, -⟩ := storeBytes_stored third
  obtain ⟨⟨mem', rfl⟩, -⟩ := storeBytes_stored second
  have apart : terminalSlot 1 ≠ terminalSlot 2 := by decide
  constructor
  · intro slot live
    rcases eq_or_ne slot (terminalSlot 2) with same | other
    · exact ⟨_, if_pos (Or.inr same)⟩
    · rcases eq_or_ne slot (terminalSlot 1) with same | other'
      · exact ⟨_, if_pos (Or.inl same)⟩
      · simp only [occupy, Function.update_of_ne other, Function.update_of_ne other'] at live
        cases (statics.noProcess slot).symm.trans live
  · intro slot program made system
    rw [bootPrograms] at made
    split at made
    · cases made
      cases system
    · cases made
  · intro slot program made built
    rw [bootPrograms] at made
    split at made
    · rename_i shell
      cases made
      refine ⟨rfl, shell.symm.imp_right fun first => ?_⟩
      subst first
      simp only [occupy, setPcb, Function.update_of_ne apart, Function.update_self]
      exact ⟨terminated_copyName (by decide), readDentryByName_copyName⟩
    · cases made

end Kernel

end G29Os
