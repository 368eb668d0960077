import G29Os.KeyboardRefinement
import G29Os.Machine
import G29Os.ProcessTable

/-!
What each call does to the kernel, said once, and the inversion of `step` into the calls and
interrupts that it is made of. Later modules follow these and never unfold a call again.
-/

namespace G29Os

namespace Kernel

variable {image : Image} {k next middle : Kernel} {process slot : Slot}

def Written (tables : PageTables) (pid : Slot) (k next : Kernel) : Prop :=
  ∀ address, next.mem address ≠ k.mem address →
    kernelMemEnd ≤ address ∧ ∃ v, tables.walk pid v = some address

structure Stored (k next : Kernel) : Prop where
  rest : ∃ mem, next = { k with mem := mem }
  page : Written k.paging k.cr3 k next

theorem Written.ofMem {tables : PageTables} {pid : Slot} (same : next.mem = k.mem) :
    Written tables pid k next := fun address changed => absurd (congrFun same address) changed

theorem Stored.refl (k : Kernel) : Stored k k := ⟨⟨k.mem, rfl⟩, Written.ofMem rfl⟩

def poke (tables : PageTables) (pid : Slot) (v : Nat) (byte : UInt8) (mem : Nat → UInt8) :
    Option (Nat → UInt8) :=
  match tables.walk pid v with
  | some address => if kernelMemEnd ≤ address then some (Function.update mem address byte) else none
  | none => none

def pokes (tables : PageTables) (pid : Slot) (v : Nat) : List UInt8 → (Nat → UInt8) →
    Option (Nat → UInt8)
  | [], mem => some mem
  | byte :: bytes, mem => (poke tables pid v byte mem).bind (pokes tables pid (v + 1) bytes)

theorem storeByte_poke (v : Nat) (byte : UInt8) :
    k.storeByte v byte = (poke k.paging k.cr3 v byte k.mem).map fun mem => { k with mem := mem } := by
  rw [storeByte, poke]
  cases k.paging.walk k.cr3 v with
  | none => rfl
  | some address =>
      dsimp only
      split <;> rfl

theorem storeBytes_pokes (v : Nat) (bytes : List UInt8) :
    k.storeBytes v bytes =
      (pokes k.paging k.cr3 v bytes k.mem).map fun mem => { k with mem := mem } := by
  induction bytes generalizing k v with
  | nil => rfl
  | cons byte bytes ih =>
      rw [storeBytes, pokes, storeByte_poke]
      cases poke k.paging k.cr3 v byte k.mem with
      | none => rfl
      | some mem => exact ih (v + 1)

theorem pokes_written {tables : PageTables} {pid : Slot} {v : Nat} {bytes : List UInt8}
    {mem mem' : Nat → UInt8} (done : pokes tables pid v bytes mem = some mem') {address : Nat}
    (changed : mem' address ≠ mem address) :
    kernelMemEnd ≤ address ∧ ∃ v, tables.walk pid v = some address := by
  induction bytes generalizing v mem with
  | nil =>
      cases done
      exact absurd rfl changed
  | cons byte bytes ih =>
      obtain ⟨middle, first, later⟩ := Option.bind_eq_some_iff.mp done
      by_cases early : middle address = mem address
      · exact ih later (early ▸ changed)
      · rw [poke] at first
        cases walked : tables.walk pid v with
        | none => simp [walked] at first
        | some place =>
            simp only [walked] at first
            split at first
            · rename_i user
              cases first
              have same : address = place := by
                by_contra apart
                exact early (Function.update_of_ne apart ..)
              exact ⟨same ▸ user, v, same ▸ walked⟩
            · cases first

theorem storeBytes_stored {v : Nat} {bytes : List UInt8} (done : k.storeBytes v bytes = some next) :
    Stored k next := by
  rw [storeBytes_pokes] at done
  obtain ⟨mem, written, rfl⟩ := Option.map_eq_some_iff.mp done
  exact ⟨⟨mem, rfl⟩, fun address changed => pokes_written written changed⟩

theorem storeByte_stored {v : Nat} {byte : UInt8} (done : k.storeByte v byte = some next) :
    Stored k next := by
  have alone : k.storeBytes v [byte] = some next := by
    rw [storeBytes, done]
    rfl
  exact storeBytes_stored alone

theorem table_setFiles (files : FileArray) : (k.setFiles slot files).table = k.table := by
  have fields (field : Pcb → Option Slot × Slot)
      (same : ∀ pcb files, field { pcb with fileArray := files } = field pcb) (other : Slot) :
      field ((k.setFiles slot files).pcbs other) = field (k.pcbs other) := by
    simp only [setFiles, setPcb]
    rcases eq_or_ne other slot with here | apart
    · subst here
      rw [Function.update_self, same]
    · rw [Function.update_of_ne apart]
  have links := fields (fun pcb => (pcb.parentPtr, pcb.pid)) fun _ _ => rfl
  have parent : (fun other => ((k.setFiles slot files).pcbs other).parentPtr) =
      fun other => (k.pcbs other).parentPtr := funext fun other => congrArg Prod.fst (links other)
  have pid : (fun other => ((k.setFiles slot files).pcbs other).pid) =
      fun other => (k.pcbs other).pid := funext fun other => congrArg Prod.snd (links other)
  rw [table, parent, pid]
  rfl

/-! ### Calls on descriptors -/

def HasFile (files : FileArray) : Prop := ∃ fd, (files fd).flags = true ∧ (files fd).fopsPtr = some .file

theorem HasFile.set {files : FileArray} {fd : Fin 8} {entry : Fd}
    (has : HasFile (files.set fd entry)) :
    HasFile files ∨ entry.flags = true ∧ entry.fopsPtr = some .file := by
  obtain ⟨index, used, fops⟩ := has
  rcases eq_or_ne index fd with same | apart
  · subst same
    rw [FileArray.set, Function.update_self] at used fops
    exact Or.inr ⟨used, fops⟩
  · rw [FileArray.set, Function.update_of_ne apart] at used fops
    exact Or.inl ⟨index, used, fops⟩

def Closed (process : Slot) (k next : Kernel) : Prop :=
  ∃ files rtc, next = { k.setFiles process files with rtc := rtc } ∧
    ∀ fd, files fd = (k.pcbs process).fileArray fd ∨ files fd = Fd.closed

theorem setFiles_same : k.setFiles process (k.pcbs process).fileArray = k := by
  rw [setFiles, setPcb, Function.update_eq_self]

theorem Closed.refl (process : Slot) (k : Kernel) : Closed process k k :=
  ⟨(k.pcbs process).fileArray, k.rtc, by rw [setFiles_same], fun _ => Or.inl rfl⟩

theorem Closed.trans (first : Closed process k middle) (second : Closed process middle next) :
    Closed process k next := by
  obtain ⟨files, rtc, rfl, kept⟩ := first
  obtain ⟨files', rtc', rfl, kept'⟩ := second
  refine ⟨files', rtc', ?_, fun fd => ?_⟩
  · simp only [setFiles, setPcb, Function.update_self, Function.update_idem]
  · rcases kept' fd with same | closed
    · rw [same]
      simp only [setFiles, setPcb, Function.update_self]
      exact kept fd
    · exact Or.inr closed

theorem closeEntry_closed {fd : Fin 8} (done : k.closeEntry process fd = some next) :
    Closed process k next := by
  have dropped (index : Fin 8) : ((k.pcbs process).fileArray.close fd) index =
      (k.pcbs process).fileArray index ∨ ((k.pcbs process).fileArray.close fd) index = Fd.closed := by
    rcases eq_or_ne index fd with same | apart
    · subst same
      exact Or.inr (Function.update_self ..)
    · exact Or.inl (Function.update_of_ne apart ..)
  rw [closeEntry] at done
  split at done
  · cases done
  · cases done
    exact ⟨_, rtcClose k.rtc, rfl, dropped⟩
  · cases done
    exact ⟨_, k.rtc, rfl, dropped⟩

theorem systemClose_closed {fd ret : Int} (done : k.systemClose process fd = some (ret, next)) :
    Closed process k next := by
  rw [systemClose] at done
  split at done
  · cases done
    exact Closed.refl process k
  · obtain ⟨closed, entry, same⟩ := Option.map_eq_some_iff.mp done
    cases same
    exact closeEntry_closed entry

theorem closeAll_closed {count : Nat} (done : k.closeAll process count = some next) :
    Closed process k next := by
  induction count generalizing next with
  | zero =>
      cases done
      exact Closed.refl process k
  | succ count ih =>
      obtain ⟨middle, before, last⟩ := Option.bind_eq_some_iff.mp done
      obtain ⟨⟨ret, closed⟩, call, same⟩ := Option.map_eq_some_iff.mp last
      cases same
      exact (ih before).trans (systemClose_closed call)

theorem Closed.hasFile {files : FileArray}
    (kept : ∀ fd, files fd = (k.pcbs process).fileArray fd ∨ files fd = Fd.closed)
    (has : HasFile files) : HasFile (k.pcbs process).fileArray := by
  obtain ⟨fd, used, fops⟩ := has
  rcases kept fd with same | closed
  · exact ⟨fd, same ▸ used, same ▸ fops⟩
  · rw [closed] at used
    cases used

inductive Opened (process : Slot) (k : Kernel) : Kernel → Prop
  | refused : Opened process k k
  | rtc {fd : Fin 8} {entry : Fd} (free : (k.pcbs process).fileArray.firstFree = some fd)
      (fops : entry.fopsPtr = some .rtc) :
      Opened process k (k.setFiles process ((k.pcbs process).fileArray.set fd entry))
  | file {fd : Fin 8} {fops : Fops} {inodePtr : UInt32}
      (free : (k.pcbs process).fileArray.firstFree = some fd) :
      Opened process k (k.openAs process fd fops inodePtr)

theorem systemOpen_opened (image : Image) (process : Slot) (filename : List UInt8) (k : Kernel) :
    Opened process k (k.systemOpen image process filename).2 := by
  rw [systemOpen]
  split
  · exact Opened.refused
  · split
    · exact Opened.refused
    · exact Opened.refused
    · rename_i free
      split_ifs
      · rw [openRtc]
        split
        · exact Opened.rtc free rfl
        · exact Opened.rtc free rfl
      · exact Opened.file free
      · exact Opened.file free
      · exact Opened.refused

theorem fsRead_entry (nbytes : Int) (entry : Fd) :
    ∃ position, (fsRead image nbytes entry).entry = { entry with filePosition := position } := by
  rw [fsRead]
  split_ifs
  · exact ⟨_, rfl⟩
  · exact ⟨_, rfl⟩
  · dsimp only
    split_ifs
    · exact ⟨_, rfl⟩
    · exact ⟨_, rfl⟩

theorem fileRead_owner {fd : Fin 8} {buf : Nat} {nbytes : Int} (owner : k.fsPcb = some process) :
    k.fileRead image fd buf nbytes =
      (k.storeBytes buf (fsRead image nbytes ((k.pcbs process).fileArray fd)).bytes).map fun stored =>
        ((fsRead image nbytes ((k.pcbs process).fileArray fd)).ret,
          stored.setFiles process ((k.pcbs process).fileArray.set fd
            (fsRead image nbytes ((k.pcbs process).fileArray fd)).entry)) := by
  rw [fileRead, owner]

theorem fileRead_effect {fd : Fin 8} {buf : Nat} {nbytes ret : Int}
    (done : k.fileRead image fd buf nbytes = some (ret, next)) :
    ∃ owner mem, k.fsPcb = some owner ∧
      next = { k.setFiles owner ((k.pcbs owner).fileArray.set fd
        (fsRead image nbytes ((k.pcbs owner).fileArray fd)).entry) with mem := mem } ∧
      Written k.paging k.cr3 k next := by
  cases last : k.fsPcb with
  | none =>
      rw [fileRead, last] at done
      cases done
  | some owner =>
      rw [fileRead_owner last] at done
      obtain ⟨stored, copied, same⟩ := Option.map_eq_some_iff.mp done
      cases same
      obtain ⟨⟨mem, rfl⟩, page⟩ := storeBytes_stored copied
      exact ⟨owner, mem, rfl, rfl, page⟩

inductive Reading (image : Image) (process : Slot) (fd : Int) (buf : Nat) (nbytes : Int) (k : Kernel) :
    Kernel → Prop
  | refused : Reading image process fd buf nbytes k k
  | terminal : Reading image process fd buf nbytes k (k.startRead buf nbytes)
  | rtc (rtc : Rtc) : Reading image process fd buf nbytes k { k with rtc := rtc }
  | file {index : Fin 8} {ret : Int} {next : Kernel}
      (used : (k.pcbs process).fileArray.inUse 0 fd = some index)
      (fops : ((k.pcbs process).fileArray index).fopsPtr = some .file)
      (done : k.fileRead image index buf nbytes = some (ret, next)) :
      Reading image process fd buf nbytes k next

theorem systemRead_reading {fd nbytes : Int} {buf : Nat} {ret : Option Int}
    (done : k.systemRead image process fd buf nbytes = some (ret, next)) :
    Reading image process fd buf nbytes k next := by
  rw [systemRead] at done
  split at done
  · cases done
    exact Reading.refused
  · split at done
    · cases done
      exact Reading.refused
    · rename_i index used
      split at done
      · cases done
      · cases done
        exact Reading.terminal
      · obtain ⟨rtc, -, same⟩ := Option.map_eq_some_iff.mp done
        cases same
        exact Reading.rtc rtc
      · rename_i fops
        obtain ⟨⟨count, read⟩, taken, same⟩ := Option.map_eq_some_iff.mp done
        cases same
        exact Reading.file used fops taken

inductive Wrote (bytes : List UInt8) (k : Kernel) : Kernel → Prop
  | refused : Wrote bytes k k
  | terminal : Wrote bytes k (k.mapTty (Tty.terminalWrite bytes))
  | rtc (rtc : Rtc) : Wrote bytes k { k with rtc := rtc }

theorem systemWrite_wrote {fd ret : Int} {bytes : List UInt8}
    (done : k.systemWrite process fd bytes = some (ret, next)) : Wrote bytes k next := by
  rw [systemWrite] at done
  split at done
  · cases done
    exact Wrote.refused
  · split at done
    · cases done
    · cases done
      exact Wrote.terminal
    · cases done
      exact Wrote.rtc _
    · cases done
      exact Wrote.refused

theorem systemGetargs_stored {buf : Nat} {nbytes ret : Int} {behind : Nat → UInt8}
    (done : k.systemGetargs process buf nbytes behind = some (ret, next)) : Stored k next := by
  rw [systemGetargs] at done
  split at done
  · cases done
    exact Stored.refl _
  · obtain ⟨stored, copied, same⟩ := Option.map_eq_some_iff.mp done
    cases same
    exact storeBytes_stored copied

theorem systemVidmap_stored {screenStart : Nat} {ret : Int}
    (done : k.systemVidmap screenStart = some (ret, next)) : Stored k next := by
  rw [systemVidmap] at done
  split at done
  · cases done
    exact Stored.refl _
  · obtain ⟨stored, copied, same⟩ := Option.map_eq_some_iff.mp done
    cases same
    exact storeBytes_stored copied

/-! ### Executing and halting -/

theorem freeSlot_free (found : k.freeSlot = some slot) : k.pcbTrack slot = false := by
  have free := List.find?_some found
  simpa using free

theorem newPcbInit_fresh (stale : Pcb) : ¬HasFile (newPcbInit stale).fileArray := by
  rintro ⟨fd, used, fops⟩
  simp only [newPcbInit] at used fops
  split at used
  · rename_i low
    rw [if_pos low] at fops
    cases fops
  · cases used

theorem table_occupy (pcb : Pcb) :
    (k.occupy slot pcb).table = { k.table with
      pcbTrack := Function.update k.pcbTrack slot true
      parent := Function.update k.table.parent slot pcb.parentPtr
      pid := Function.update k.table.pid slot slot } := by
  have links (other : Slot) :
      ((k.occupy slot pcb).pcbs other).parentPtr =
          Function.update k.table.parent slot pcb.parentPtr other ∧
        ((k.occupy slot pcb).pcbs other).pid = Function.update k.table.pid slot slot other := by
    simp only [occupy, setPcb, table]
    rcases eq_or_ne other slot with same | apart
    · subst same
      simp only [Function.update_self, and_self]
    · simp only [Function.update_of_ne apart, and_self]
  have parent := funext fun other => (links other).1
  have pid := funext fun other => (links other).2
  exact congrArg₂ (fun parent pid => ProcessTable.mk k.current k.numProgs k.currPcb
    (Function.update k.pcbTrack slot true) parent pid) parent pid

theorem systemExecute_effect {command : List UInt8} {stale : Stale} {outcome : ExecuteOutcome}
    (done : k.systemExecute image command stale = some outcome) :
    match outcome with
    | .failed _ failed => failed = k ∨ ∃ text, failed = k.print text
    | .started started => ∃ slot pcb dentry entry, k.pcbTrack slot = false ∧
        ¬HasFile pcb.fileArray ∧ k.launch image slot pcb dentry entry = some started := by
  rw [systemExecute] at done
  dsimp only at done
  split at done
  · cases done
    exact Or.inl rfl
  · split at done
    · cases done
      exact Or.inr ⟨_, rfl⟩
    · rename_i slot found
      split at done
      · cases done
      · obtain ⟨started, launched, rfl⟩ := Option.map_eq_some_iff.mp done
        refine ⟨slot, _, _, _, freeSlot_free found, ?_, launched⟩
        exact newPcbInit_fresh stale.pcb

theorem started_some {outcome : Option ExecuteOutcome} (done : started outcome = some next) :
    outcome = some (.started next) := by
  cases outcome with
  | none => cases done
  | some outcome =>
      cases outcome with
      | failed ret failed => cases done
      | started k =>
          cases done
          rfl

theorem firstShell_executed {stale : Stale} (done : k.firstShell image stale = some next) :
    k.systemExecute image shellName stale = some (.started next) := by
  rw [firstShell] at done
  split at done
  · exact started_some done
  · cases done

def clearedTop (process : Slot) (k : Kernel) : Kernel :=
  { (k.countProgram k.current (-1)).endProcess process with
    currPcb := Function.update k.currPcb k.current none }

/-- How a program ends: its caller goes on, or in place of a base shell the shell starts anew. -/
inductive Returned (image : Image) (stale : Stale) (process : Slot) (k : Kernel) : Kernel → Prop
  | resumed {parent : Slot} (linked : (k.pcbs process).parentPtr = some parent) :
      Returned image stale process k
        { (k.countProgram k.current (-1)).endProcess process with
          esp0 := stackTop parent
          cr3 := (k.pcbs parent).pid
          currPcb := Function.update k.currPcb k.current (some parent) }
  | relaunched {next : Kernel} (base : (k.pcbs process).parentPtr = none)
      (executed : ((k.clearedTop process).print
          ['r', 'e', 'l', 'a', 'u', 'n', 'c', 'h', 'i', 'n', 'g', '\n']).systemExecute image
        shellName stale = some (.started next)) : Returned image stale process k next

theorem returnSyscall_returned {stale : Stale}
    (done : k.returnSyscall image stale process = some next) :
    Returned image stale process k next := by
  rw [returnSyscall] at done
  dsimp only at done
  split at done
  · rename_i base
    rw [relaunchShell] at done
    split at done
    · rename_i executed
      cases done
      exact Returned.relaunched base executed
    · cases done
  · rename_i parent linked
    cases done
    exact Returned.resumed linked

/-! ### Switching -/

def leave (target : TerminalId) (regs : SaveRegs) (k : Kernel) : Kernel :=
  { k with
    tty := k.tty.switchScreen target
    saveProgRegs := Function.update k.saveProgRegs k.current regs }

/-- How another terminal comes to the front: the shell starts there, or the program on top
runs again, and its file is read over its page. -/
inductive Brought (image : Image) (target : TerminalId) (regs : SaveRegs) (stale : Dentry)
    (k : Kernel) : Kernel → Prop
  | shell {mem : Nat → UInt8} (unvisited : k.numProgs target = 0)
      (loaded : pokes k.paging (terminalSlot target) imageAddr
        (programBytes image k.shell.dentry.inode k.shell.fileLength) k.mem = some mem) :
      Brought image target regs stale k
        (enterProgram k.shell.virtualAddr (countProgram target 1
          { k.leave target regs with
            esp0 := ((k.currPcb target).map stackTop).getD (stackSize - 4)
            cr3 := terminalSlot target
            mem := mem }))
  | program {process : Slot} {mem : Nat → UInt8} {saved : SaveRegs} (visited : k.numProgs target ≠ 0)
      (top : k.currPcb target = some process)
      (last : (k.leave target regs).saveProgRegs target = saved)
      (loaded : pokes k.paging (k.pcbs process).pid imageAddr
        (programBytes image (k.programDentry image process stale).inode
          (image.inodeLength (k.programDentry image process stale).inode)) k.mem = some mem) :
      Brought image target regs stale k
        { k.leave target regs with
          esp0 := saved.esp.toNat
          cr3 := (k.pcbs process).pid
          mem := mem
          regs := { saved with eflags := saved.eflags ||| 0x200 } }

theorem switchTerminal_brought {target : TerminalId} {regs : SaveRegs} {stale : Dentry}
    (done : k.switchTerminal image target regs stale = some next) :
    Brought image target regs stale k next := by
  rw [switchTerminal] at done
  split at done
  · rename_i unvisited
    obtain ⟨loaded, copied, rfl⟩ := Option.map_eq_some_iff.mp done
    rw [loadProgram, storeBytes_pokes] at copied
    obtain ⟨mem, written, rfl⟩ := Option.map_eq_some_iff.mp copied
    exact Brought.shell unvisited written
  · rename_i visited
    rw [reloadProgram] at done
    split at done
    · cases done
    · rename_i process top
      obtain ⟨loaded, copied, rfl⟩ := Option.map_eq_some_iff.mp done
      rw [loadProgram, storeBytes_pokes] at copied
      obtain ⟨mem, written, rfl⟩ := Option.map_eq_some_iff.mp copied
      exact Brought.program visited top rfl written

/-! ### Steps -/

theorem running_foreground (running : k.running = some process) : k.foreground = some process := by
  rw [Kernel.running] at running
  split at running
  · cases running
  · exact running

theorem running_idle (running : k.running = some process) : k.readers k.current = none := by
  rw [Kernel.running] at running
  split at running
  · cases running
  · assumption

inductive Occurs (image : Image) (k : Kernel) : Event → Kernel → Prop
  | key {code : UInt8} {regs : SaveRegs} {stale : Dentry} {next : Kernel}
      (done : k.keyEvent image code regs stale = some next) :
      Occurs image k (.key code regs stale) next
  | rtcTick : Occurs image k .rtcTick { k with rtc := rtcHandler k.rtc }
  | firstShell {stale : Stale} {next : Kernel}
      (done : k.systemExecute image shellName stale = some (.started next)) :
      Occurs image k (.firstShell stale) next
  | readAccess {user : UserRead} {next : Kernel} (reading : k.readers k.current = some user)
      (done : k.readAccess user = some next) : Occurs image k .readAccess next
  | executeFailed {process : Slot} {command : List UInt8} {stale : Stale} {ret : Int} {next : Kernel}
      (running : k.running = some process)
      (done : k.systemExecute image command stale = some (.failed ret next)) :
      Occurs image k (.execute command stale) next
  | executeStarted {process : Slot} {command : List UInt8} {stale : Stale} {next : Kernel}
      (running : k.running = some process)
      (done : k.systemExecute image command stale = some (.started next)) :
      Occurs image k (.execute command stale) next
  | halt {process : Slot} {stale : Stale} {next : Kernel} (running : k.running = some process)
      (done : k.systemHalt image stale process = some next) : Occurs image k (.halt stale) next
  | read {process : Slot} {fd nbytes : Int} {buf : Nat} {next : Kernel}
      (running : k.running = some process) (read : Reading image process fd buf nbytes k next) :
      Occurs image k (.read fd buf nbytes) next
  | write {process : Slot} {fd : Int} {bytes : List UInt8} {next : Kernel}
      (running : k.running = some process) (wrote : Wrote bytes k next) :
      Occurs image k (.write fd bytes) next
  | opened {process : Slot} {filename : List UInt8} {next : Kernel}
      (running : k.running = some process) (opened : Opened process k next) :
      Occurs image k (.open filename) next
  | closed {process : Slot} {fd ret : Int} {next : Kernel} (running : k.running = some process)
      (done : k.systemClose process fd = some (ret, next)) : Occurs image k (.close fd) next
  | stored {process : Slot} {event : Event} {next : Kernel} (running : k.running = some process)
      (stored : Stored k next) : Occurs image k event next

theorem programEvent_occurs {event : Event} (running : k.running = some process)
    (done : k.programEvent image process event = some next) : Occurs image k event next := by
  cases event with
  | key code regs stale => cases done
  | rtcTick => cases done
  | firstShell stale => cases done
  | execute command stale =>
      cases called : k.systemExecute image command stale with
      | none =>
          rw [programEvent, called] at done
          cases done
      | some outcome =>
          rw [programEvent, called] at done
          cases outcome with
          | failed ret failed =>
              cases done
              exact Occurs.executeFailed running called
          | started started =>
              cases done
              exact Occurs.executeStarted running called
  | halt stale => exact Occurs.halt running done
  | read fd buf nbytes =>
      obtain ⟨⟨ret, read⟩, call, rfl⟩ := Option.map_eq_some_iff.mp done
      exact Occurs.read running (systemRead_reading (readCall_read call).2)
  | readAccess => cases done
  | write fd bytes =>
      obtain ⟨⟨ret, written⟩, call, rfl⟩ := Option.map_eq_some_iff.mp done
      exact Occurs.write running (systemWrite_wrote call)
  | «open» filename =>
      obtain ⟨⟨ret, opened⟩, call, rfl⟩ := Option.map_eq_some_iff.mp done
      have made := systemOpen_opened image process filename k
      rw [(openCall_opened call).2] at made
      exact Occurs.opened running made
  | close fd =>
      obtain ⟨⟨ret, closed⟩, call, rfl⟩ := Option.map_eq_some_iff.mp done
      exact Occurs.closed running call
  | getargs buf nbytes behind =>
      obtain ⟨⟨ret, stored⟩, call, rfl⟩ := Option.map_eq_some_iff.mp done
      exact Occurs.stored running (systemGetargs_stored call)
  | vidmap screenStart =>
      obtain ⟨⟨ret, stored⟩, call, rfl⟩ := Option.map_eq_some_iff.mp done
      exact Occurs.stored running (systemVidmap_stored call)
  | store v byte => exact Occurs.stored running (storeByte_stored done)

theorem step_occurs {event : Event} (done : k.step image event = some next) :
    Occurs image k event next := by
  have program (call : (k.running.bind fun process => k.programEvent image process event) =
      some next) : Occurs image k event next := by
    obtain ⟨process, running, called⟩ := Option.bind_eq_some_iff.mp call
    exact programEvent_occurs running called
  cases event with
  | key code regs stale => exact Occurs.key done
  | rtcTick =>
      cases done
      exact Occurs.rtcTick
  | firstShell stale => exact Occurs.firstShell (firstShell_executed done)
  | readAccess =>
      obtain ⟨user, reading, access⟩ := Option.bind_eq_some_iff.mp done
      exact Occurs.readAccess reading access
  | execute command stale => exact program done
  | halt stale => exact program done
  | read fd buf nbytes => exact program done
  | write fd bytes => exact program done
  | «open» filename => exact program done
  | close fd => exact program done
  | getargs buf nbytes behind => exact program done
  | vidmap screenStart => exact program done
  | store v byte => exact program done

end Kernel

end G29Os
