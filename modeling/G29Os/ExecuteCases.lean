import G29Os.ProgramNames

/-!
How a call of `system_execute` can end, each way with all it goes by: the program that was
found, the slot that was taken and the memory after the load.
-/

namespace G29Os

namespace Kernel

variable {image : Image} {k next : Kernel} {command : List UInt8} {stale : Stale} {slot : Slot}
  {dentry : Dentry} {entry : UInt32} {pcb : Pcb} {outcome : ExecuteOutcome}

def launched (slot : Slot) (pcb : Pcb) (entry : UInt32) (mem : Nat → UInt8) (k : Kernel) : Kernel :=
  ({ k.occupy slot { pcb with parentPtr := k.foreground } with
    currPcb := Function.update k.currPcb k.current (some slot)
    esp0 := stackTop slot
    mem := mem }.countProgram k.current 1).enterProgram entry

@[simp] theorem launched_foreground (mem : Nat → UInt8) : (k.launched slot pcb entry mem).foreground = some slot :=
  Function.update_self ..

theorem launched_own (mem : Nat → UInt8) : (k.launched slot pcb entry mem).pcbs slot =
    { pcb with parentPtr := k.foreground, physicalAddr := frameOf slot, pid := slot } :=
  Function.update_self ..

theorem launched_other {other : Slot} (apart : other ≠ slot) (mem : Nat → UInt8) :
    (k.launched slot pcb entry mem).pcbs other = k.pcbs other :=
  Function.update_of_ne apart ..

theorem launch_pokes : k.launch image slot pcb dentry entry =
    (pokes (k.paging.addPage (frameOf slot) slot) slot imageAddr
      (programBytes image dentry.inode (image.inodeLength dentry.inode)) k.mem).map fun mem =>
        k.launched slot pcb entry mem := by
  rw [launch, loadProgram, storeBytes_pokes, Option.map_map]
  rfl

def noSlots : List Char :=
  ['m', 'a', 'x', ' ', 'p', 'r', 'o', 'c', 'e', 's', 's', 'e', 's', ' ', 'r', 'e', 'a', 'c', 'h', 'e',
    'd', '\n']

inductive Executing (image : Image) (command : List UInt8) (stale : Stale) (k : Kernel) :
    ExecuteOutcome → Prop
  | unknown (missing : findProgram image (commandName command) stale.fileHeader = none) :
      Executing image command stale k (.failed (-1) k)
  | full {dentry : Dentry} {entry : UInt32}
      (found : findProgram image (commandName command) stale.fileHeader = some (dentry, entry))
      (taken : k.freeSlot = none) : Executing image command stale k (.failed 0 (k.print noSlots))
  | started {slot : Slot} {dentry : Dentry} {entry : UInt32} {mem : Nat → UInt8}
      (found : findProgram image (commandName command) stale.fileHeader = some (dentry, entry))
      (free : k.freeSlot = some slot)
      (short : (spilledName dentry (commandName command)).length < lineBuffer)
      (loaded : pokes (k.paging.addPage (frameOf slot) slot) slot imageAddr
        (programBytes image dentry.inode (image.inodeLength dentry.inode)) k.mem = some mem) :
      Executing image command stale k (.started (k.launched slot
        (namedPcb command (spilledName dentry (commandName command)) stale.pcb) entry mem))

theorem systemExecute_iff :
    k.systemExecute image command stale = some outcome ↔ Executing image command stale k outcome := by
  constructor
  · intro done
    rw [systemExecute] at done
    dsimp only at done
    split at done
    · rename_i missing
      cases done
      exact Executing.unknown missing
    · rename_i dentry entry found
      split at done
      · rename_i taken
        cases done
        exact Executing.full found taken
      · rename_i slot free
        split at done
        · cases done
        · rename_i short
          rw [launch_pokes, Option.map_map] at done
          obtain ⟨mem, loaded, rfl⟩ := Option.map_eq_some_iff.mp done
          exact Executing.started found free (Nat.lt_of_not_le short) loaded
  · intro executing
    rw [systemExecute]
    cases executing with
    | unknown missing => simp only [missing]
    | full found taken =>
        simp only [found, taken]
        rfl
    | started found free short loaded =>
        simp only [found, free, if_neg (Nat.not_le_of_lt short)]
        rw [launch_pokes, loaded]
        rfl

end Kernel

end G29Os
