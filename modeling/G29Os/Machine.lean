import G29Os.InputMachine
import G29Os.Kernel

/-!
The kernel as a machine. Between the events of the foreground program, which are its system
calls and its own stores, keyboard and clock interrupts come at any time.
-/

namespace G29Os

open StepRun

/-- An event carries the strings the program passes, and what uninitialised locals held. -/
inductive Event where
  | key (code : UInt8) (regs : SaveRegs) (stale : Dentry)
  | rtcTick
  | firstShell (stale : Stale)
  | execute (command : List UInt8) (stale : Stale)
  | halt (stale : Stale)
  | read (fd : Int) (buf : Nat) (nbytes : Int)
  | readAccess
  | write (fd : Int) (bytes : List UInt8)
  | open (filename : List UInt8)
  | close (fd : Int)
  | getargs (buf : Nat) (nbytes : Int) (behind : Nat → UInt8)
  | vidmap (screenStart : Nat)
  | store (v : Nat) (byte : UInt8)

namespace Kernel

def running (k : Kernel) : Option Slot :=
  match k.readers k.current with
  | some _ => none
  | none => k.foreground

def keyEvent (image : Image) (code : UInt8) (regs : SaveRegs) (stale : Dentry) (k : Kernel) :
    Option Kernel :=
  if k.tty.KeyInRow code then
    match k.tty.keyboardHandler code with
    | .returned tty => some { k with tty := tty }
    | .switched target tty => { k with tty := tty }.switchTerminal image target regs stale
  else none

def started : Option ExecuteOutcome → Option Kernel
  | some (.started k) => some k
  | _ => none

def executed : Option ExecuteOutcome → Option Kernel
  | some (.started k) => some k
  | some (.failed _ k) => some k
  | none => none

/-- `kernel.c` executes the first shell when no program runs yet. -/
def firstShell (image : Image) (stale : Stale) (k : Kernel) : Option Kernel :=
  if k.current = 0 ∧ k.currPcb 0 = none then started (k.systemExecute image shellName stale) else none

def programEvent (image : Image) (process : Slot) (k : Kernel) : Event → Option Kernel
  | .execute command stale => executed (k.systemExecute image command stale)
  | .halt stale => k.systemHalt image stale process
  | .read fd buf nbytes => (k.readCall image process fd buf nbytes).map Prod.snd
  | .write fd bytes => (k.systemWrite process fd bytes).map Prod.snd
  | .open filename => (k.openCall image process filename).map Prod.snd
  | .close fd => (k.systemClose process fd).map Prod.snd
  | .getargs buf nbytes behind => (k.systemGetargs process buf nbytes behind).map Prod.snd
  | .vidmap screenStart => (k.systemVidmap screenStart).map Prod.snd
  | .store v byte => k.storeByte v byte
  | _ => none

def step (image : Image) (k : Kernel) : Event → Option Kernel
  | .key code regs stale => k.keyEvent image code regs stale
  | .rtcTick => some { k with rtc := rtcHandler k.rtc }
  | .firstShell stale => k.firstShell image stale
  | .readAccess => (k.readers k.current).bind fun user => k.readAccess user
  | event => k.running.bind fun process => k.programEvent image process event

/-- The statics before `paging_init`: zero, as the loader leaves them. -/
structure Raw (k : Kernel) : Prop where
  noProcess : ∀ slot, k.pcbTrack slot = false
  noProgram : ∀ terminal, k.currPcb terminal = none
  noReader : ∀ terminal, k.readers terminal = none
  noFile : k.fsPcb = none
  rtcUnopened : k.rtc.rtcOpenFlag = false
  noDirectory : ∀ slot index, (k.paging.pageDirectory slot index).present = false
  noTable : ∀ slot index, (k.paging.pageTable slot index).present = false

def Booted (image : Image) (k : Kernel) : Prop :=
  ∃ raw stale2 stale3 fileHeader, Raw raw ∧
    initTerminals image stale2 stale3 fileHeader { raw with paging := raw.paging.pagingInit } = some k

/-! ### A small system -/

def smallImage : Image where
  boot := 0x400000
  mem address := (List.lookup (address - 0x400000)
    [(0, 2), (4, 1), (64, 0x73), (65, 0x68), (66, 0x65), (67, 0x6c), (68, 0x6c), (96, 2),
      (128, 0x2e), (160, 1), (4096, 4), (8192, 0x7f), (8193, 0x45), (8194, 0x4c), (8195, 0x46)]).getD 0

def noRegs : SaveRegs where
  gs := 0
  fs := 0
  es := 0
  ds := 0
  edi := 0
  esi := 0
  ebp := 0
  esp := 0
  edx := 0
  ecx := 0
  ebx := 0
  eax := 0
  eip := 0
  cs := 0
  eflags := 0
  userEsp := 0
  ss := 0

def noDentry : Dentry := { name := fun _ => 0, type := 0, inode := 0 }

def noPcb : Pcb where
  pid := 0
  args _ := 0
  name _ := 0
  fileArray _ := Fd.closed
  physicalAddr := 0
  parentPtr := none

def noStale : Stale := { pcb := noPcb, fileHeader := fun _ => 0 }

def noPages : PageTables where
  tableFrame := 512
  pageDirectory _ _ := { dirEntry 0 false with present := false }
  pageTable _ _ := { tableEntry 0 with present := false }

def zeroKernel : Kernel where
  tty := blankInput.tty
  readers _ := none
  rtc := { rtcFlag := false, rtcOpenFlag := false, registerA := 0 }
  numProgs _ := 0
  saveProgRegs _ := noRegs
  regs := noRegs
  shell := { virtualAddr := 0, fileLength := 0, dentry := noDentry }
  currPcb _ := none
  pcbTrack _ := false
  pcbs _ := noPcb
  paging := noPages
  cr3 := 0
  esp0 := 0
  fsPcb := none
  mem _ := 0

def keys (codes : List UInt8) : List Event := codes.map fun code => .key code noRegs noDentry

theorem raw_zeroKernel : Raw zeroKernel :=
  ⟨fun _ => rfl, fun _ => rfl, fun _ => rfl, rfl, rfl, fun _ _ => rfl, fun _ _ => rfl⟩

def runSmall (events : List Event) : Option Kernel :=
  (initTerminals smallImage noPcb noPcb (fun _ => 0)
    { zeroKernel with paging := noPages.pagingInit }).bind fun k =>
      runWhere (step smallImage) (fun _ _ => True) k events

def bootSmall : Option Kernel :=
  initTerminals smallImage noPcb noPcb (fun _ => 0) { zeroKernel with paging := noPages.pagingInit }

def runOn (image : Image) (events : List Event) : Option Kernel :=
  (initTerminals image noPcb noPcb (fun _ => 0) { zeroKernel with paging := noPages.pagingInit }).bind
    fun k => runWhere (step image) (fun _ _ => True) k events

theorem runOn_reachable {image : Image} {events : List Event} {k : Kernel}
    (computed : runOn image events = some k) : Reachable (step image) (Booted image) k := by
  obtain ⟨start, booted, ran⟩ := Option.bind_eq_some_iff.mp computed
  exact ⟨start, events, ⟨zeroKernel, noPcb, noPcb, fun _ => 0, raw_zeroKernel, booted⟩, runWhere_path ran⟩

theorem bootSmall_booted {start : Kernel} (computed : bootSmall = some start) :
    Booted smallImage start :=
  ⟨zeroKernel, noPcb, noPcb, fun _ => 0, raw_zeroKernel, computed⟩

theorem runSmall_path {events : List Event} {k : Kernel} (computed : runSmall events = some k) :
    ∃ start, Booted smallImage start ∧ Path (step smallImage) (fun _ _ => True) start events k := by
  obtain ⟨start, booted, ran⟩ := Option.bind_eq_some_iff.mp computed
  exact ⟨start, ⟨zeroKernel, noPcb, noPcb, fun _ => 0, raw_zeroKernel, booted⟩, runWhere_path ran⟩

theorem runSmall_reachable {events : List Event} {k : Kernel} (computed : runSmall events = some k) :
    Reachable (step smallImage) (Booted smallImage) k := by
  obtain ⟨start, booted, path⟩ := runSmall_path computed
  exact ⟨start, events, booted, path⟩

end Kernel

end G29Os
