import G29Os.ExecuteCases
import G29Os.FirstFit
import G29Os.ProcessSpaces

/-!
All that `system_execute` changes at every point it can reach, also where the copy of the name
goes on behind the `name` of the new PCB and where the load of the file faults.
-/

namespace G29Os

open PageTables StepRun

structure Saved where
  kernel : Kernel
  saveEsp : Slot → UInt32
  saveEbp : Slot → UInt32

/-- What a copy of the name that finds no NUL in 128 bytes leaves behind `pcb->name`. The pid lies
before it and `parent_ptr` is set later. -/
structure Overrun where
  fileArray : FileArray
  physicalAddr : Nat

structure CallStack where
  stale : Stale
  overrun : Overrun
  esp : UInt32
  ebp : UInt32

inductive Progress where
  | returned (ret : Int)
  | loading
  | entered

namespace Saved

open Kernel

variable {image : Image} {command name : List UInt8} {call : CallStack} {s next : Saved} {slot : Slot}
  {count : Nat} {progress : Progress} {k next' : Kernel}

def newPcb (command name : List UInt8) (call : CallStack) (slot : Slot) (parent : Option Slot) : Pcb :=
  let pcb := { namedPcb command name call.stale.pcb with
    parentPtr := parent
    physicalAddr := frameOf slot
    pid := slot }
  if lineBuffer ≤ name.length then
    { pcb with fileArray := call.overrun.fileArray, physicalAddr := call.overrun.physicalAddr }
  else pcb

def place (command name : List UInt8) (call : CallStack) (slot : Slot) (s : Saved) : Saved where
  kernel := { s.kernel.setPcb slot (newPcb command name call slot s.kernel.foreground) with
    pcbTrack := Function.update s.kernel.pcbTrack slot true
    cr3 := slot
    paging := s.kernel.paging.addPage (frameOf slot) slot
    currPcb := Function.update s.kernel.currPcb s.kernel.current (some slot)
    esp0 := stackTop slot }
  saveEsp := Function.update s.saveEsp slot call.esp
  saveEbp := Function.update s.saveEbp slot call.ebp

def enter (entry : UInt32) (s : Saved) : Saved :=
  { s with kernel := (s.kernel.countProgram s.kernel.current 1).enterProgram entry }

/-- `system_execute` after it has stored `count` bytes of the program, or all if there are fewer.
`none` stands for a fault before that. -/
def executeUntil (image : Image) (command : List UInt8) (call : CallStack) (count : Nat) (s : Saved) :
    Option (Progress × Saved) :=
  match findProgram image (commandName command) call.stale.fileHeader with
  | none => some (.returned (-1), s)
  | some (dentry, entry) =>
      match s.kernel.freeSlot with
      | none => some (.returned 0, { s with kernel := s.kernel.print noSlots })
      | some slot =>
          let placed := s.place command (spilledName dentry (commandName command)) call slot
          let program := programBytes image dentry.inode (image.inodeLength dentry.inode)
          (placed.kernel.storeBytes imageAddr (program.take count)).map fun loaded =>
            if program.length ≤ count then (.entered, enter entry { placed with kernel := loaded })
            else (.loading, { placed with kernel := loaded })

/-! ### The same call as `systemExecute` -/

theorem place_kernel (short : name.length < lineBuffer) :
    (s.place command name call slot).kernel =
      { s.kernel.occupy slot
          { namedPcb command name call.stale.pcb with parentPtr := s.kernel.foreground } with
        currPcb := Function.update s.kernel.currPcb s.kernel.current (some slot)
        esp0 := stackTop slot } := by
  rw [place, newPcb, if_neg (Nat.not_le_of_lt short)]
  rfl

theorem executeUntil_failed {ret : Int} :
    s.kernel.systemExecute image command call.stale = some (.failed ret next') ↔
      s.executeUntil image command call count = some (.returned ret, { s with kernel := next' }) := by
  rw [systemExecute_iff, executeUntil]
  constructor
  · intro executing
    cases executing with
    | unknown missing => simp only [missing]
    | full found taken => simp only [found, taken]
  · intro done
    split at done
    · rename_i missing
      have same := Option.some.inj done
      cases (congrArg Prod.fst same)
      have kernel := congrArg (fun pair => Saved.kernel (Prod.snd pair)) same
      cases kernel
      exact Executing.unknown missing
    · rename_i dentry entry found
      split at done
      · rename_i taken
        have same := Option.some.inj done
        cases (congrArg Prod.fst same)
        have kernel := congrArg (fun pair => Saved.kernel (Prod.snd pair)) same
        cases kernel
        exact Executing.full found taken
      · obtain ⟨loaded, -, same⟩ := Option.map_eq_some_iff.mp done
        split at same <;> cases congrArg Prod.fst same

theorem enter_launched (short : name.length < lineBuffer) (entry : UInt32) (mem : Nat → UInt8) :
    (enter entry { s.place command name call slot with
      kernel := { (s.place command name call slot).kernel with mem := mem } }).kernel =
      s.kernel.launched slot (namedPcb command name call.stale.pcb) entry mem := by
  rw [enter, place_kernel short]
  apply congrArg (enterProgram entry)
  rfl

theorem executeUntil_started {dentry : Dentry} {entry : UInt32}
    (found : findProgram image (commandName command) call.stale.fileHeader = some (dentry, entry))
    (short : (spilledName dentry (commandName command)).length < lineBuffer) :
    s.kernel.systemExecute image command call.stale = some (.started next') ↔
      ∃ count next, s.executeUntil image command call count = some (.entered, next) ∧
        next.kernel = next' := by
  rw [systemExecute_iff]
  constructor
  · intro executing
    cases executing with
    | @started slot dentry' entry' mem found' free _ loaded =>
        cases found.symm.trans found'
        let program := programBytes image dentry.inode (image.inodeLength dentry.inode)
        let placed := s.place command (spilledName dentry (commandName command)) call slot
        refine ⟨program.length, enter entry { placed with
          kernel := { placed.kernel with mem := mem } }, ?_, ?_⟩
        · have whole : placed.kernel.storeBytes imageAddr (program.take program.length) =
              some { placed.kernel with mem := mem } := by
            rw [List.take_length, storeBytes_pokes, place_kernel short]
            exact congrArg (Option.map _) loaded
          simp only [executeUntil, found, free]
          rw [whole, Option.map_some, if_pos (Nat.le_refl _)]
        · exact enter_launched short entry mem
  · rintro ⟨count, next, done, rfl⟩
    simp only [executeUntil, found] at done
    split at done
    · cases congrArg Prod.fst (Option.some.inj done)
    · rename_i slot free
      obtain ⟨loaded, stored, same⟩ := Option.map_eq_some_iff.mp done
      split at same
      · rename_i whole
        cases same
        rw [List.take_of_length_le whole, storeBytes_pokes] at stored
        obtain ⟨mem, written, rfl⟩ := Option.map_eq_some_iff.mp stored
        rw [place_kernel short] at written
        rw [enter_launched short]
        exact Executing.started found free short written
      · cases congrArg Prod.fst same

/-! ### What is changed -/

inductive Refused (image : Image) (command : List UInt8) (fileHeader : Nat → UInt8) (k : Kernel) : Prop
  | unknown (missing : image.readDentryByName (textOf (commandName command)) = none)
  | noMagic {dentry : Dentry}
      (named : image.readDentryByName (textOf (commandName command)) = some dentry)
      (other : (List.range 4).map (readData image dentry.inode 0 fileHeader elfSize).buf ≠ elfMagic)
  | full (taken : ∀ slot, k.pcbTrack slot = true)

structure Untouched (s next : Saved) : Prop where
  pcbTrack : next.kernel.pcbTrack = s.kernel.pcbTrack
  currPcb : next.kernel.currPcb = s.kernel.currPcb
  numProgs : next.kernel.numProgs = s.kernel.numProgs
  pcbs : next.kernel.pcbs = s.kernel.pcbs
  paging : next.kernel.paging = s.kernel.paging
  cr3 : next.kernel.cr3 = s.kernel.cr3
  esp0 : next.kernel.esp0 = s.kernel.esp0
  mem : next.kernel.mem = s.kernel.mem
  saveEsp : next.saveEsp = s.saveEsp
  saveEbp : next.saveEbp = s.saveEbp

structure Occupies (slot : Slot) (s next : Saved) : Prop where
  pcbTrack : next.kernel.pcbTrack = Function.update s.kernel.pcbTrack slot true
  pcbs : ∀ other, other ≠ slot → next.kernel.pcbs other = s.kernel.pcbs other
  directory : ∀ other, other ≠ slot →
    next.kernel.paging.pageDirectory other = s.kernel.paging.pageDirectory other
  tables : next.kernel.paging.pageTable = s.kernel.paging.pageTable
  page : ∀ other, other ≠ slot → ∀ j, j < mb4 →
    next.kernel.mem (frameOf other + j) = s.kernel.mem (frameOf other + j)
  saveEsp : ∀ other, other ≠ slot → next.saveEsp other = s.saveEsp other
  saveEbp : ∀ other, other ≠ slot → next.saveEbp other = s.saveEbp other

theorem freeSlot_least (found : k.freeSlot = some slot) : IsLeast {slot | k.pcbTrack slot = false} slot := by
  have least := FirstFit.find?_least found
  simp only [Bool.not_eq_true'] at least
  exact least

theorem freeSlot_none_iff : k.freeSlot = none ↔ ∀ slot, k.pcbTrack slot = true := by
  rw [freeSlot, FirstFit.find?_none_iff]
  simp only [Bool.not_eq_false']

theorem findProgram_none_iff {fileHeader : Nat → UInt8} :
    findProgram image (commandName command) fileHeader = none ∨ k.freeSlot = none ↔
      Refused image command fileHeader k := by
  rw [freeSlot_none_iff]
  constructor
  · rintro (missing | taken)
    · rw [findProgram] at missing
      split at missing
      · rename_i unknown
        exact Refused.unknown unknown
      · rename_i dentry named
        dsimp only at missing
        split at missing
        · cases missing
        · rename_i other
          exact Refused.noMagic named other
    · exact Refused.full taken
  · intro refused
    cases refused with
    | unknown missing =>
        refine Or.inl ?_
        simp only [findProgram, missing]
    | noMagic named other =>
        refine Or.inl ?_
        simp only [findProgram, named, if_neg other]
    | full taken => exact Or.inr taken

theorem untouched_print (text : List Char) : Untouched s { s with kernel := s.kernel.print text } :=
  ⟨rfl, rfl, rfl, rfl, rfl, rfl, rfl, rfl, rfl, rfl⟩

theorem executeUntil_refused (refused : Refused image command call.stale.fileHeader s.kernel) :
    ∃ ret next, Untouched s next ∧
      ∀ count, s.executeUntil image command call count = some (.returned ret, next) := by
  cases found : findProgram image (commandName command) call.stale.fileHeader with
  | none =>
      refine ⟨-1, s, ⟨rfl, rfl, rfl, rfl, rfl, rfl, rfl, rfl, rfl, rfl⟩, fun count => ?_⟩
      simp only [executeUntil, found]
  | some program =>
      have taken : s.kernel.freeSlot = none := by
        refine (findProgram_none_iff.mpr refused).resolve_left fun missing => ?_
        cases found.symm.trans missing
      refine ⟨0, _, untouched_print noSlots, fun count => ?_⟩
      simp only [executeUntil, found, taken]

theorem addPage_otherDirectory {tables : PageTables} {other : Slot} (apart : other ≠ slot) :
    (tables.addPage (frameOf slot) slot).pageDirectory other = tables.pageDirectory other := by
  funext index
  have entry := @directory_addPage tables slot other index
  rw [if_neg fun both => apart both.1] at entry
  exact entry

theorem place_occupies {bytes : List UInt8} {loaded : Kernel} (mapped : KernelMapped s.kernel.paging)
    (stored : (s.place command name call slot).kernel.storeBytes imageAddr bytes = some loaded) :
    Occupies slot s { s.place command name call slot with kernel := loaded } := by
  obtain ⟨⟨mem, rfl⟩, page⟩ := storeBytes_stored stored
  have kernel : KernelMapped (s.place command name call slot).kernel.paging := mapped.addPage
  have own : ProgramMapped (s.place command name call slot).kernel.paging slot := programMapped_addPage
  constructor
  · rfl
  · intro other apart
    exact Function.update_of_ne apart ..
  · intro other apart
    exact addPage_otherDirectory apart
  · rfl
  · intro other apart j inside
    exact page.page kernel own apart inside
  · intro other apart
    exact Function.update_of_ne apart ..
  · intro other apart
    exact Function.update_of_ne apart ..

theorem Occupies.enter {entry : UInt32} (occupies : Occupies slot s next) :
    Occupies slot s (Saved.enter entry next) :=
  ⟨occupies.pcbTrack, occupies.pcbs, occupies.directory, occupies.tables, occupies.page,
    occupies.saveEsp, occupies.saveEbp⟩

theorem executeUntil_occupies (mapped : KernelMapped s.kernel.paging)
    (accepted : ¬Refused image command call.stale.fileHeader s.kernel) :
    ∃ slot, IsLeast {slot | s.kernel.pcbTrack slot = false} slot ∧
      ∀ count progress next, s.executeUntil image command call count = some (progress, next) →
        (∀ ret, progress ≠ .returned ret) ∧ Occupies slot s next := by
  obtain ⟨known, room⟩ := not_or.mp (mt findProgram_none_iff.mp accepted)
  obtain ⟨⟨dentry, entry⟩, found⟩ := Option.ne_none_iff_exists'.mp known
  obtain ⟨slot, free⟩ := Option.ne_none_iff_exists'.mp room
  refine ⟨slot, freeSlot_least free, fun count progress next done => ?_⟩
  simp only [executeUntil, found, free] at done
  obtain ⟨loaded, stored, reached⟩ := Option.map_eq_some_iff.mp done
  have occupies := place_occupies mapped stored
  split at reached
  · cases reached
    exact ⟨fun ret => nofun, occupies.enter⟩
  · cases reached
    exact ⟨fun ret => nofun, occupies⟩

theorem executeEffect_reachable (reached : Reachable (step image) (Booted image) s.kernel)
    (command : List UInt8) (call : CallStack) :
    (Refused image command call.stale.fileHeader s.kernel → ∃ ret next, Untouched s next ∧
      ∀ count, s.executeUntil image command call count = some (.returned ret, next)) ∧
    (¬Refused image command call.stale.fileHeader s.kernel →
      ∃ slot, IsLeast {slot | s.kernel.pcbTrack slot = false} slot ∧
        ∀ count progress next, s.executeUntil image command call count = some (progress, next) →
          (∀ ret, progress ≠ .returned ret) ∧ Occupies slot s next) :=
  ⟨executeUntil_refused, executeUntil_occupies (sound_reachable reached).mapped.kernel⟩

def noOverrun : Overrun := { fileArray := fun _ => Fd.closed, physicalAddr := 0 }

def noCall : CallStack := { stale := noStale, overrun := noOverrun, esp := 0, ebp := 0 }

end Saved

end G29Os
