import G29Os.Process

/-!
The kernel of `syscalls.c`: its statics, the physical memory of the program pages, and the
system calls. `none` stands for a run that the code does not survive or that has not come
back: a fault, a read of an unset pointer, a wait that still spins.
-/

namespace G29Os

def elfSize : UInt32 := 40

def kernelMemEnd : Nat := 0x800000

def stackSize : Nat := 0x2000

def imageAddr : Nat := 0x8048000

def mem132mb : Nat := 0x8400000

structure SaveRegs where
  gs : UInt16
  fs : UInt16
  es : UInt16
  ds : UInt16
  edi : UInt32
  esi : UInt32
  ebp : UInt32
  esp : UInt32
  edx : UInt32
  ecx : UInt32
  ebx : UInt32
  eax : UInt32
  eip : UInt32
  cs : UInt32
  eflags : UInt32
  userEsp : UInt32
  ss : UInt32

structure ShellInfo where
  virtualAddr : UInt32
  fileLength : UInt32
  dentry : Dentry

structure UserRead where
  call : Tty.ReadCall
  buf : Nat

/-- `cr3` is the index of the loaded `page_directory`, `fsPcb` the file-scope `pcb` of `fs.c`
and `regs` the frame that the last `iret` into a program loaded. -/
structure Kernel where
  tty : Tty
  readers : TerminalId → Option UserRead
  rtc : Rtc
  numProgs : TerminalId → Int
  saveProgRegs : TerminalId → SaveRegs
  regs : SaveRegs
  shell : ShellInfo
  currPcb : TerminalId → Option Slot
  pcbTrack : Slot → Bool
  pcbs : Slot → Pcb
  paging : PageTables
  cr3 : Slot
  esp0 : Nat
  fsPcb : Option Slot
  mem : Nat → UInt8

structure Stale where
  pcb : Pcb
  fileHeader : Nat → UInt8

def frameOf (slot : Slot) : Nat := kernelMemEnd + slot.val * mb4

def stackTop (slot : Slot) : Nat := kernelMemEnd - stackSize - slot.val * stackSize + stackSize - 4

def textOf (bytes : List UInt8) : Nat → UInt8 := fun k => bytes.getD k 0

namespace Kernel

def current (k : Kernel) : TerminalId := k.tty.currTerminal

def foreground (k : Kernel) : Option Slot := k.currPcb k.current

def setPcb (slot : Slot) (pcb : Pcb) (k : Kernel) : Kernel :=
  { k with pcbs := Function.update k.pcbs slot pcb }

def setFiles (slot : Slot) (files : FileArray) (k : Kernel) : Kernel :=
  k.setPcb slot { k.pcbs slot with fileArray := files }

def mapTty (change : Tty → Tty) (k : Kernel) : Kernel := { k with tty := change k.tty }

def print (text : List Char) (k : Kernel) : Kernel :=
  k.mapTty fun tty => tty.mapConsole (puts (ascii text))

/-- A store through the loaded directory. One that hits the kernel's own 8 MB is not followed. -/
def storeByte (v : Nat) (byte : UInt8) (k : Kernel) : Option Kernel :=
  match k.paging.walk k.cr3 v with
  | some address =>
      if kernelMemEnd ≤ address then some { k with mem := Function.update k.mem address byte }
      else none
  | none => none

def storeBytes (v : Nat) : List UInt8 → Kernel → Option Kernel
  | [], k => some k
  | byte :: bytes, k => (k.storeByte v byte).bind (storeBytes (v + 1) bytes)

def programBytes (image : Image) (inode length : UInt32) : List UInt8 :=
  let result := readData image inode 0 (fun _ => 0) length
  (List.range result.written).map result.buf

def loadProgram (image : Image) (inode length : UInt32) (k : Kernel) : Option Kernel :=
  k.storeBytes imageAddr (programBytes image inode length)

def userDs : UInt16 := 0x2B

def userCs : UInt32 := 0x23

def enterProgram (entry : UInt32) (k : Kernel) : Kernel :=
  { k with
    regs := { k.regs with
      ds := userDs
      ss := userDs.toUInt32
      userEsp := UInt32.ofNat (mem132mb - 4)
      cs := userCs
      eip := entry } }

def countProgram (terminal : TerminalId) (change : Int) (k : Kernel) : Kernel :=
  { k with numProgs := Function.update k.numProgs terminal (k.numProgs terminal + change) }

/-! ### Executing and halting -/

def commandText (command : List UInt8) : List UInt8 := command.takeWhile fun c => c ≠ 0

def commandName (command : List UInt8) : List UInt8 :=
  (commandText command).takeWhile fun c => c ≠ 32

def commandArgs (command : List UInt8) : List UInt8 :=
  ((commandText command).drop (commandName command).length).dropWhile fun c => c = 32

/-- The argument loop; `j < LINE_BUFFER - i` leaves `LINE_BUFFER - 2 * i` bytes at most. -/
def copyArgs (command : List UInt8) (stale : Nat → UInt8) : Nat → UInt8 :=
  let args := commandArgs command
  let i := (commandText command).length - args.length
  fun k => if 2 * i + k < lineBuffer ∧ k ≤ args.length then textOf args k else stale k

/-- The text that the `strcpy` of reserved bytes without a NUL leaves behind a dentry. -/
def nameBehind (dentry : Dentry) : List UInt8 :=
  cString lineBuffer fun k => dentry.name (dentrySize + k)

/-- What `name` of `system_execute`, which lies behind its dentry, holds after the look-up. -/
def spilledName (dentry : Dentry) (name : List UInt8) : List UInt8 :=
  if dentry.Contained 0 then name else nameBehind dentry

def copyName (name : List UInt8) (stale : Nat → UInt8) : Nat → UInt8 :=
  fun k => if k ≤ name.length then textOf name k else stale k

def elfMagic : List UInt8 := [0x7f, 0x45, 0x4c, 0x46]

def entryPoint (header : Nat → UInt8) : UInt32 :=
  (header 24).toUInt32 + ((header 25).toUInt32 <<< 8) + ((header 26).toUInt32 <<< 16) +
    ((header 27).toUInt32 <<< 24)

def findProgram (image : Image) (name : List UInt8) (fileHeader : Nat → UInt8) :
    Option (Dentry × UInt32) :=
  match image.readDentryByName (textOf name) with
  | none => none
  | some dentry =>
      let header := (readData image dentry.inode 0 fileHeader elfSize).buf
      if (List.range 4).map header = elfMagic then some (dentry, entryPoint header) else none

def freeSlot (k : Kernel) : Option Slot := (List.finRange 6).find? fun slot => !k.pcbTrack slot

def occupy (slot : Slot) (pcb : Pcb) (k : Kernel) : Kernel :=
  { k.setPcb slot { pcb with physicalAddr := frameOf slot, pid := slot } with
    pcbTrack := Function.update k.pcbTrack slot true
    paging := k.paging.addPage (frameOf slot) slot
    cr3 := slot }

inductive ExecuteOutcome where
  | failed (ret : Int) (k : Kernel)
  | started (k : Kernel)

def launch (image : Image) (slot : Slot) (pcb : Pcb) (dentry : Dentry) (entry : UInt32) (k : Kernel) :
    Option Kernel :=
  let placed := k.occupy slot { pcb with parentPtr := k.foreground }
  let entered := { placed with
    currPcb := Function.update k.currPcb k.current (some slot)
    esp0 := stackTop slot }
  (entered.loadProgram image dentry.inode (image.inodeLength dentry.inode)).map fun loaded =>
    (loaded.countProgram k.current 1).enterProgram entry

/-- `system_execute` up to the `iret` into the program. A `name` of 128 bytes without a NUL is looked up
by 31 of them, but its copy into the PCB is not followed. -/
def systemExecute (image : Image) (command : List UInt8) (stale : Stale) (k : Kernel) :
    Option ExecuteOutcome :=
  let name := commandName command
  match findProgram image name stale.fileHeader with
  | none => some (.failed (-1) k)
  | some (dentry, entry) =>
      match k.freeSlot with
      | none =>
          some (.failed 0 (k.print ['m', 'a', 'x', ' ', 'p', 'r', 'o', 'c', 'e', 's', 's', 'e', 's', ' ',
            'r', 'e', 'a', 'c', 'h', 'e', 'd', '\n']))
      | some slot =>
          let name := spilledName dentry name
          if lineBuffer ≤ name.length then none
          else
            let pcb := newPcbInit stale.pcb
            let named := { pcb with
              args := copyArgs command pcb.args
              name := copyName name pcb.name }
            (k.launch image slot named dentry entry).map .started

def shellName : List UInt8 := [0x73, 0x68, 0x65, 0x6c, 0x6c]

def endProcess (process : Slot) (k : Kernel) : Kernel :=
  { k with pcbTrack := Function.update k.pcbTrack (k.pcbs process).pid false }

/-- `relaunch_shell`; a shell that does not start leaves nothing to return to. -/
def relaunchShell (image : Image) (stale : Stale) (process : Slot) (k : Kernel) : Option Kernel :=
  let ended := k.endProcess process
  let cleared := { ended with currPcb := Function.update k.currPcb k.current none }
  match systemExecute image shellName stale
      (cleared.print ['r', 'e', 'l', 'a', 'u', 'n', 'c', 'h', 'i', 'n', 'g', '\n']) with
  | some (.started started) => some started
  | _ => none

/-- `system_execute` from the label `return_syscall` on. -/
def returnSyscall (image : Image) (stale : Stale) (process : Slot) (k : Kernel) : Option Kernel :=
  let counted := k.countProgram k.current (-1)
  match (k.pcbs process).parentPtr with
  | none => counted.relaunchShell image stale process
  | some parent =>
      let ended := counted.endProcess process
      some { ended with
        esp0 := stackTop parent
        cr3 := (k.pcbs parent).pid
        currPcb := Function.update k.currPcb k.current (some parent) }

/-! ### Descriptors -/

def closeEntry (process : Slot) (fd : Fin 8) (k : Kernel) : Option Kernel :=
  let files := (k.pcbs process).fileArray
  match (files fd).fopsPtr with
  | none => none
  | some .rtc => some { k.setFiles process (files.close fd) with rtc := rtcClose k.rtc }
  | some _ => some (k.setFiles process (files.close fd))

def systemClose (process : Slot) (fd : Int) (k : Kernel) : Option (Int × Kernel) :=
  match (k.pcbs process).fileArray.inUse fdBegin fd with
  | none => some (-1, k)
  | some fd => (k.closeEntry process fd).map fun closed => (0, closed)

def closeAll (process : Slot) : Nat → Kernel → Option Kernel
  | 0, k => some k
  | count + 1, k =>
      (closeAll process count k).bind fun k => (k.systemClose process count).map Prod.snd

def systemHalt (image : Image) (stale : Stale) (process : Slot) (k : Kernel) : Option Kernel :=
  (k.closeAll process maxFd).bind (returnSyscall image stale process)

def openAs (process : Slot) (fd : Fin 8) (fops : Fops) (inodePtr : UInt32) (k : Kernel) : Kernel :=
  let entry : Fd := { fopsPtr := some fops, inodePtr := inodePtr, filePosition := 0, flags := true }
  { k.setFiles process ((k.pcbs process).fileArray.set fd entry) with fsPcb := some process }

def openRtc (process : Slot) (fd : Fin 8) (k : Kernel) : Int × Kernel :=
  let files := (k.pcbs process).fileArray
  let entry : Fd := { files fd with fopsPtr := some .rtc, inodePtr := 0 }
  if rtcOpen k.rtc ≠ 0 then (-1, k.setFiles process (files.set fd entry))
  else (fd.val, k.setFiles process (files.set fd { entry with flags := true }))

def systemOpen (image : Image) (process : Slot) (filename : List UInt8) (k : Kernel) : Int × Kernel :=
  if textOf filename 0 = 0 then (-1, k)
  else
    match image.readDentryByName (textOf filename), (k.pcbs process).fileArray.firstFree with
    | none, _ => (-1, k)
    | some _, none => (-1, k)
    | some dentry, some fd =>
        -- type 0 is the RTC, 1 the directory, 2 a regular file
        if dentry.type = 0 then k.openRtc process fd
        else if dentry.type = 1 then (fd.val, k.openAs process fd .file 0)
        else if dentry.type = 2 then (fd.val, k.openAs process fd .file (image.inodePtr dentry.inode))
        else (0, k)

/-- Bytes from the end of the dentry of `system_open` to its return address. -/
def openRoom : Nat := 20

def openContained (image : Image) (filename : List UInt8) : Prop :=
  textOf filename 0 ≠ 0 →
    ∀ dentry ∈ image.readDentryByName (textOf filename), dentry.Contained openRoom

instance (image : Image) (filename : List UInt8) : Decidable (openContained image filename) := by
  unfold openContained
  infer_instance

/-- `system_open` on its stack frame, which an entry can overwrite. -/
def openCall (image : Image) (process : Slot) (filename : List UInt8) (k : Kernel) :
    Option (Int × Kernel) :=
  if openContained image filename then some (k.systemOpen image process filename) else none

theorem openCall_opened {image : Image} {process : Slot} {k next : Kernel} {filename : List UInt8}
    {ret : Int} (done : k.openCall image process filename = some (ret, next)) :
    openContained image filename ∧ k.systemOpen image process filename = (ret, next) := by
  rw [openCall] at done
  split at done
  · rename_i contained
    exact ⟨contained, Option.some.inj done⟩
  · cases done

/-- `fs_read`: the descriptor is looked up in the PCB that `fs_open` saw last. -/
def fileRead (image : Image) (fd : Fin 8) (buf : Nat) (nbytes : Int) (k : Kernel) :
    Option (Int × Kernel) :=
  match k.fsPcb with
  | none => none
  | some owner =>
      let files := (k.pcbs owner).fileArray
      let read := fsRead image nbytes (files fd)
      (k.storeBytes buf read.bytes).map fun stored =>
        (read.ret, stored.setFiles owner (files.set fd read.entry))

def startRead (buf : Nat) (nbytes : Int) (k : Kernel) : Kernel :=
  { k with
    readers := Function.update k.readers k.current
      (some { call := Tty.ReadCall.start nbytes, buf := buf }) }

/-- `system_read`; a read on a terminal only starts here, so it has no result yet. -/
def systemRead (image : Image) (process : Slot) (fd : Int) (buf : Nat) (nbytes : Int) (k : Kernel) :
    Option (Option Int × Kernel) :=
  if fd = 1 then some (some (-1), k)
  else
    match (k.pcbs process).fileArray.inUse 0 fd with
    | none => some (some (-1), k)
    | some fd =>
        match ((k.pcbs process).fileArray fd).fopsPtr with
        | none => none
        | some .terminal => some (none, k.startRead buf nbytes)
        | some .rtc => (rtcRead k.rtc).map fun rtc => (some 0, { k with rtc := rtc })
        | some .file => (k.fileRead image fd buf nbytes).map fun read => (some read.1, read.2)

/-- The descriptor that a read of `fd` comes to in `fs_read`. -/
def readEntry (process : Slot) (fd : Int) (k : Kernel) : Option Fd :=
  if fd = 1 then none
  else
    ((k.pcbs process).fileArray.inUse 0 fd).bind fun index =>
      if ((k.pcbs process).fileArray index).fopsPtr = some .file then
        k.fsPcb.map fun owner => (k.pcbs owner).fileArray index
      else none

def readContained (image : Image) (process : Slot) (fd : Int) (k : Kernel) : Prop :=
  ∀ entry ∈ k.readEntry process fd, entry.inodePtr = 0 → readDirContained image entry.filePosition

instance (image : Image) (process : Slot) (fd : Int) (k : Kernel) :
    Decidable (k.readContained image process fd) := by
  unfold readContained
  infer_instance

/-- `system_read` on its stack frames, of which `read_dir` can lose its own. -/
def readCall (image : Image) (process : Slot) (fd : Int) (buf : Nat) (nbytes : Int) (k : Kernel) :
    Option (Option Int × Kernel) :=
  if k.readContained image process fd then k.systemRead image process fd buf nbytes else none

theorem readCall_read {image : Image} {process : Slot} {k : Kernel} {fd nbytes : Int} {buf : Nat}
    {read : Option Int × Kernel} (done : k.readCall image process fd buf nbytes = some read) :
    k.readContained image process fd ∧ k.systemRead image process fd buf nbytes = some read := by
  rw [readCall] at done
  split at done
  · rename_i contained
    exact ⟨contained, done⟩
  · cases done

def readAccess (user : UserRead) (k : Kernel) : Option Kernel :=
  match k.tty.readStep k.current user.call with
  | .finished _ tty => some { k with tty := tty, readers := Function.update k.readers k.current none }
  | .running call tty =>
      let moved := { k with
        tty := tty
        readers := Function.update k.readers k.current (some { user with call := call }) }
      if user.call.stage = .moving then
        moved.storeByte (user.buf + user.call.moved.length)
          (k.tty.keyReadBuffer k.current user.call.moved.length)
      else some moved

def systemWrite (process : Slot) (fd : Int) (bytes : List UInt8) (k : Kernel) : Option (Int × Kernel) :=
  match (k.pcbs process).fileArray.inUse 1 fd with
  | none => some (-1, k)
  | some fd =>
      match ((k.pcbs process).fileArray fd).fopsPtr with
      | none => none
      | some .terminal => some (bytes.length + 1, k.mapTty (Tty.terminalWrite bytes))
      | some .rtc => some (0, { k with rtc := rtcWrite (textOf bytes 0) (textOf bytes 1) k.rtc })
      | some .file => some (-1, k)

/-- `args` holds 128 bytes; a larger `nbytes` copies what lies behind them in the PCB. -/
def systemGetargs (process : Slot) (buf : Nat) (nbytes : Int) (behind : Nat → UInt8) (k : Kernel) :
    Option (Int × Kernel) :=
  if buf = 0 then some (-1, k)
  else
    let args := (k.pcbs process).args
    let count := (nbytes % 4294967296).toNat
    let bytes := (List.range count).map fun j => if j < lineBuffer then args j else behind j
    (k.storeBytes buf (bytes ++ [0])).map fun stored => (0, stored)

def vidmem : List UInt8 := [0x00, 0x80, 0x0B, 0x00]

def systemVidmap (screenStart : Nat) (k : Kernel) : Option (Int × Kernel) :=
  if screenStart < mb128 ∨ mem132mb < screenStart then some (-1, k)
  else (k.storeBytes screenStart vidmem).map fun stored => (0, stored)

/-! ### Switching terminals -/

def terminalSlot (terminal : TerminalId) : Slot := ⟨terminal.val, by omega⟩

def startShell (image : Image) (k : Kernel) : Option Kernel :=
  let entered := { k with
    esp0 := (k.foreground.map stackTop).getD (stackSize - 4)
    cr3 := terminalSlot k.current }
  (entered.loadProgram image k.shell.dentry.inode k.shell.fileLength).map fun loaded =>
    (loaded.countProgram k.current 1).enterProgram k.shell.virtualAddr

/-- The program file by the name in the PCB; the result of the look-up is not checked. -/
def programDentry (image : Image) (process : Slot) (stale : Dentry) (k : Kernel) : Dentry :=
  (image.readDentryByName (k.pcbs process).name).getD stale

def reloadProgram (image : Image) (stale : Dentry) (k : Kernel) : Option Kernel :=
  match k.foreground with
  | none => none
  | some process =>
      let dentry := k.programDentry image process stale
      let saved := k.saveProgRegs k.current
      let entered := { k with esp0 := saved.esp.toNat, cr3 := (k.pcbs process).pid }
      (entered.loadProgram image dentry.inode (image.inodeLength dentry.inode)).map fun loaded =>
        { loaded with regs := { saved with eflags := saved.eflags ||| 0x200 } }

def switchTerminal (image : Image) (target : TerminalId) (regs : SaveRegs) (stale : Dentry)
    (k : Kernel) : Option Kernel :=
  let switched := { k with
    tty := k.tty.switchScreen target
    saveProgRegs := Function.update k.saveProgRegs k.current regs }
  if k.numProgs target = 0 then switched.startShell image else switched.reloadProgram image stale

/-! ### Boot -/

def prebuildShell (image : Image) (terminal : TerminalId) (pcb : Pcb) (k : Kernel) : Option Kernel :=
  let slot := terminalSlot terminal
  let placed := k.occupy slot pcb
  ({ placed with currPcb := Function.update k.currPcb terminal (some slot) }).loadProgram image
    k.shell.dentry.inode k.shell.fileLength

def findShell (image : Image) (fileHeader : Nat → UInt8) (k : Kernel) : Kernel :=
  let dentry := (image.readDentryByName (textOf shellName)).getD
    { name := fun _ => 0, type := 0, inode := 0 }
  let header := (readData image dentry.inode 0 fileHeader elfSize).buf
  { k with
    tty := { k.tty with currTerminal := 0 }
    numProgs := fun terminal => if terminal = 0 then 1 else 0
    shell :=
      { virtualAddr := entryPoint header
        fileLength := image.inodeLength dentry.inode
        dentry := dentry } }

/-- Bytes from the end of `shell_dentry` to the first that is read unset: `inodes` and the two functions
of `terminal_fops` that no call takes. -/
def shellRoom : Nat := 12

def shellContained (image : Image) : Prop :=
  ∀ dentry ∈ image.readDentryByName (textOf shellName), dentry.Contained shellRoom

instance (image : Image) : Decidable (shellContained image) := by
  unfold shellContained
  infer_instance

/-- `init_terminals`; the third shell gets no name. -/
def initTerminals (image : Image) (stale2 stale3 : Pcb) (fileHeader : Nat → UInt8) (k : Kernel) :
    Option Kernel :=
  let shell2 := newPcbInit stale2
  let named := { shell2 with name := copyName shellName shell2.name }
  if shellContained image then
    ((k.findShell image fileHeader).prebuildShell image 1 named).bind
      (prebuildShell image 2 (newPcbInit stale3))
  else none

theorem initTerminals_built {image : Image} {stale2 stale3 : Pcb} {fileHeader : Nat → UInt8}
    {k next : Kernel} (done : k.initTerminals image stale2 stale3 fileHeader = some next) :
    ∃ middle, (k.findShell image fileHeader).prebuildShell image 1
        { newPcbInit stale2 with name := copyName shellName (newPcbInit stale2).name } = some middle ∧
      middle.prebuildShell image 2 (newPcbInit stale3) = some next := by
  rw [initTerminals] at done
  split at done
  · exact Option.bind_eq_some_iff.mp done
  · cases done

end Kernel

end G29Os
