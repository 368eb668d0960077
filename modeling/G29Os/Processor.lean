import G29Os.KernelInput
import G29Os.ProcessTurns

/-!
The kernel with the `eflags` of the processor: what the gates, `sti` and the three hand-written
`iret` sequences make of them. All gates in the IDT are interrupt gates.
-/

namespace G29Os

/-- The bit of `orl $0x200`. -/
def interruptFlag : UInt32 := 0x200

def Enabled (eflags : UInt32) : Prop := eflags &&& interruptFlag ≠ 0

instance (eflags : UInt32) : Decidable (Enabled eflags) := inferInstanceAs (Decidable (_ ≠ _))

def gate (eflags : UInt32) : UInt32 := eflags &&& ~~~interruptFlag

def sti (eflags : UInt32) : UInt32 := eflags ||| interruptFlag

theorem enabled_or (eflags : UInt32) : Enabled (eflags ||| interruptFlag) := by
  have bit : (eflags ||| interruptFlag) &&& interruptFlag = interruptFlag := by
    apply UInt32.toBitVec_inj.mp
    ext i
    simp only [UInt32.toBitVec_and, UInt32.toBitVec_or, BitVec.getElem_and, BitVec.getElem_or]
    cases interruptFlag.toBitVec[i] <;> simp
  rw [Enabled, bit]
  decide

theorem not_enabled_gate (eflags : UInt32) : ¬Enabled (gate eflags) := by
  have bit : eflags &&& ~~~interruptFlag &&& interruptFlag = 0 := by
    apply UInt32.toBitVec_inj.mp
    ext i
    simp only [UInt32.toBitVec_and, UInt32.toBitVec_not, BitVec.getElem_and, BitVec.getElem_not]
    cases interruptFlag.toBitVec[i] <;> simp
  exact not_not.mpr bit

theorem enabled_congr {eflags other : UInt32} (same : eflags &&& interruptFlag = other &&& interruptFlag) :
    Enabled eflags ↔ Enabled other := by
  rw [Enabled, Enabled, same]

/-- `entry` is the `eflags` that the last `int $0x80` of each program has pushed, `waits` the
descriptor of an `rtc_read` that spins, and `loaded` what every `iret` into user mode has loaded,
the latest first. -/
structure Processor where
  kernel : Kernel
  eflags : UInt32
  entry : Slot → UInt32
  waits : TerminalId → Option Int
  loaded : List UInt32

/-- `compute` stands for what a program does on its own: all flags but this one may change. -/
inductive ProcessorEvent where
  | compute (eflags : UInt32)
  | rtcWait (fd : Int)
  | rtcReturn
  | kernel (event : Event)

namespace Processor

open StepRun

def program (p : Processor) : Option Slot :=
  match p.waits p.kernel.current with
  | some _ => none
  | none => p.kernel.running

def iretUser (eflags : UInt32) (p : Processor) : Processor :=
  { p with eflags := eflags, loaded := eflags :: p.loaded }

/-- An `iret` to where an interrupt came from; that may be a wait loop of the kernel. -/
def iret (eflags : UInt32) (p : Processor) : Processor :=
  if p.program.isSome then p.iretUser eflags else { p with eflags := eflags }

def enterCall (process : Slot) (p : Processor) : Processor :=
  { p with entry := Function.update p.entry process p.eflags, eflags := gate p.eflags }

def leaveCall (process : Slot) (p : Processor) : Processor := p.iretUser (p.entry process)

def readsRtc (process : Slot) (fd : Int) (k : Kernel) : Bool :=
  match (k.pcbs process).fileArray.inUse 0 fd with
  | some index => decide (fd ≠ 1 ∧ ((k.pcbs process).fileArray index).fopsPtr = some .rtc)
  | none => false

def isRtcRead (process : Slot) (event : Event) (k : Kernel) : Bool :=
  match event with
  | .read fd _ _ => readsRtc process fd k
  | _ => false

/-- The loop of `terminal_read` sees no line and executes `sti`. -/
def spins (k : Kernel) : Bool :=
  match k.readers k.current with
  | some user => decide (user.call.stage = .waiting) && !k.tty.keyboardRead
  | none => false

/-- From the handler of a key to the code that runs next. `start_shell` pushes the `eflags` of the
handler itself; `reload_program` has put its own into `regs`. -/
def afterKey (next : Kernel) (p : Processor) : Processor :=
  let inside := { p with kernel := next, eflags := gate p.eflags }
  if next.current = p.kernel.current then inside.iret p.eflags
  else if p.kernel.numProgs next.current = 0 then inside.iretUser inside.eflags
  else inside.iret next.regs.eflags

def afterAccess (process : Slot) (next : Kernel) (p : Processor) : Processor :=
  let inside := { p with kernel := next, eflags := if spins p.kernel then sti p.eflags else p.eflags }
  match next.readers next.current with
  | some _ => inside
  | none => inside.leaveCall process

/-- From a program's event to the code that runs next: the program again, the program that
`system_execute` starts, the caller of the program that halts, or a wait loop. -/
def afterEvent (image : Image) (event : Event) (process : Slot) (next : Kernel) (p : Processor) :
    Processor :=
  let inside := { p.enterCall process with kernel := next }
  match event with
  | .store .. => { p with kernel := next }
  | .execute command stale =>
      match p.kernel.systemExecute image command stale with
      | some (.started _) => inside.iretUser (inside.eflags ||| interruptFlag)
      | _ => inside.leaveCall process
  | .halt _ =>
      match (p.kernel.pcbs process).parentPtr with
      | some parent => inside.leaveCall parent
      | none => inside.iretUser (inside.eflags ||| interruptFlag)
  | _ =>
      match next.readers next.current with
      | some _ => inside
      | none => inside.leaveCall process

/-- An interrupt comes only while the flag is set. -/
def step (image : Image) (p : Processor) : ProcessorEvent → Option Processor
  | .compute eflags =>
      if p.program.isSome ∧ eflags &&& interruptFlag = p.eflags &&& interruptFlag then
        some { p with eflags := eflags }
      else none
  | .rtcWait fd =>
      p.program.bind fun process =>
        if readsRtc process fd p.kernel then
          some { p.enterCall process with
            eflags := sti (gate p.eflags)
            waits := Function.update p.waits p.kernel.current (some fd) }
        else none
  | .rtcReturn =>
      match p.waits p.kernel.current, p.kernel.running with
      | some fd, some process =>
          (p.kernel.step image (.read fd 0 0)).map fun next =>
            { p with
              kernel := next
              waits := Function.update p.waits p.kernel.current none }.leaveCall process
      | _, _ => none
  | .kernel (.key code regs stale) =>
      if Enabled p.eflags then
        (p.kernel.step image (.key code { regs with eflags := p.eflags } stale)).map p.afterKey
      else none
  | .kernel .rtcTick =>
      if Enabled p.eflags then
        (p.kernel.step image .rtcTick).map fun next => { p with kernel := next }.iret p.eflags
      else none
  | .kernel (.firstShell stale) =>
      (p.kernel.step image (.firstShell stale)).map fun next =>
        { p with kernel := next }.iretUser (p.eflags ||| interruptFlag)
  | .kernel .readAccess =>
      p.kernel.foreground.bind fun process => (p.kernel.step image .readAccess).map (p.afterAccess process)
  | .kernel event =>
      p.program.bind fun process =>
        if isRtcRead process event p.kernel then none
        else (p.kernel.step image event).map (p.afterEvent image event process)

structure Booted (image : Image) (p : Processor) : Prop where
  kernel : Kernel.Booted image p.kernel
  enabled : Enabled p.eflags
  awake : ∀ terminal, p.waits terminal = none
  fresh : p.loaded = []

end Processor

end G29Os
