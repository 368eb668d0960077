import G29Os.BootTables
import G29Os.InterruptController
import G29Os.KeyboardRearm
import G29Os.Processor

/-!
The kernel and the processor behind the interrupt controllers and tables: which requests of the devices
become events of the kernel.
-/

namespace G29Os

open InterruptController InterruptTables StepRun

/-! ### `i8259.c` and `rtc.c` over the ports -/

def icw1 : UInt8 := 0x11

def icw2Master : UInt8 := 0x21

def icw2Slave : UInt8 := 0x28

def icw3Master : UInt8 := 0x04

def icw3Slave : UInt8 := 0x02

def icw4 : UInt8 := 0x01

def firstMasterMask : UInt8 := 0xFB

def firstSlaveMask : UInt8 := 0xFF

def rtcIrq : Nat := 8

namespace Ports

def i8259Init (ports : Ports) : Ports :=
  ((((((((((ports.outb icw1 master8259Port).outb icw1 slave8259Port).outb icw2Master
    (master8259Port + 1)).outb icw2Slave (slave8259Port + 1)).outb icw3Master (master8259Port + 1)).outb
      icw3Slave (slave8259Port + 1)).outb icw4 (master8259Port + 1)).outb icw4 (slave8259Port + 1)).outb
        firstMasterMask (master8259Port + 1)).outb firstSlaveMask (slave8259Port + 1))

def entry (ports : Ports) : Ports := (ports.i8259Init.enableIrq rtcIrq).enableIrq keyboardIrq

def rtcHandler (ports : Ports) : Ports := ((ports.disableIrq rtcIrq).sendEoi rtcIrq).enableIrq rtcIrq

def rtcWrite (ports : Ports) : Ports := (ports.disableIrq rtcIrq).enableIrq rtcIrq

end Ports

def register (port : UInt16) : Option Register :=
  if port = Ports.master8259Port then some .masterCommand
  else if port = Ports.master8259Port + 1 then some .masterData
  else if port = Ports.slave8259Port then some .slaveCommand
  else if port = Ports.slave8259Port + 1 then some .slaveData
  else none

def writeAll (written : List (UInt16 × UInt8)) (pair : Pair) : Pair :=
  written.foldl
    (fun pair write => match register write.1 with
      | some register => pair.write register write.2
      | none => pair) pair

def portsOf (pair : Pair) : Ports where
  masterMask := pair.master.mask
  slaveMask := pair.slave.mask
  written := []

def armed : Pair where
  master :=
    { stage := .ready
      single := false
      needsIcw4 := true
      base := 0x20
      cascade := 0x04
      mask := 0xF9
      inService := 0 }
  slave :=
    { stage := .ready
      single := false
      needsIcw4 := true
      base := 0x28
      cascade := 0x02
      mask := 0xFE
      inService := 0 }

namespace Ports

variable {before : Ports}

theorem i8259Init_eq : before.i8259Init =
    { masterMask := firstMasterMask
      slaveMask := firstSlaveMask
      written := before.written ++ [(0x20, icw1), (0xA0, icw1), (0x21, icw2Master), (0xA1, icw2Slave),
        (0x21, icw3Master), (0xA1, icw3Slave), (0x21, icw4), (0xA1, icw4), (0x21, firstMasterMask),
        (0xA1, firstSlaveMask)] } := by
  simp [i8259Init, outb, master8259Port, slave8259Port]

theorem rtcEnabled_eq : before.enableIrq rtcIrq =
    { masterMask := before.masterMask
      slaveMask := before.slaveMask &&& ~~~1
      written := before.written ++ [(0xA1, before.slaveMask &&& ~~~1)] } := rfl

theorem entry_eq : before.entry =
    { masterMask := 0xF9
      slaveMask := 0xFE
      written := before.written ++ [(0x20, icw1), (0xA0, icw1), (0x21, icw2Master), (0xA1, icw2Slave),
        (0x21, icw3Master), (0xA1, icw3Slave), (0x21, icw4), (0xA1, icw4), (0x21, firstMasterMask),
        (0xA1, firstSlaveMask), (0xA1, 0xFE), (0x21, 0xF9)] } := by
  rw [entry, i8259Init_eq, rtcEnabled_eq, enabled_eq]
  simp only [List.append_assoc]
  rfl

end Ports

theorem writeAll_cons {port : UInt16} {value : UInt8} {rest : List (UInt16 × UInt8)} {pair : Pair} {target : Register}
    (known : register port = some target) :
    writeAll ((port, value) :: rest) pair = writeAll rest (pair.write target value) := by
  rw [writeAll, List.foldl_cons, known]
  rfl

theorem command_icw1 (chip : Chip) : chip.command icw1 =
    { chip with
      stage := .icw2
      single := false
      needsIcw4 := true
      mask := 0
      inService := 0 } := rfl

theorem entry_armed (pair : Pair) : writeAll (portsOf pair).entry.written pair = armed := by
  rw [Ports.entry_eq]
  change writeAll [(0x20, icw1), (0xA0, icw1), (0x21, icw2Master), (0xA1, icw2Slave),
        (0x21, icw3Master), (0xA1, icw3Slave), (0x21, icw4), (0xA1, icw4), (0x21, firstMasterMask),
        (0xA1, firstSlaveMask), (0xA1, 0xFE), (0x21, 0xF9)] pair = armed
  iterate 12 rw [writeAll_cons rfl]
  simp only [Pair.write, command_icw1, Chip.data, if_true, Bool.false_eq_true, if_false]
  rfl

/-! ### Handlers return the controllers as they were -/

def keyTaken : Pair := { armed with master := { armed.master with inService := 2 } }

def tickTaken : Pair where
  master := { armed.master with inService := 4 }
  slave := { armed.slave with inService := 1 }

theorem acknowledge_key {asking : Nat → Bool} (asks : asking 1 = true) :
    armed.acknowledge asking = some (0x21, keyTaken) := by
  have line : (armed.master.next fun line =>
      if armed.master.cascaded line then (armed.slave.next fun line => asking (line + 8)).isSome else asking line) =
        some 1 := by
    refine next_eq_some (by decide) asks (by decide) fun other before _ => ?_
    have zero : other = 0 := by omega
    subst zero
    decide
  rw [Pair.acknowledge, line]
  rfl

theorem slave_next {asking : Nat → Bool} :
    (armed.slave.next fun line => asking (line + 8)) = if asking 8 then some 0 else none := by
  cases asks : asking 8 with
  | true => exact next_eq_some (by decide) asks (by decide) fun _ before => absurd before (Nat.not_lt_zero _)
  | false =>
      refine next_eq_none fun line inside other => ?_
      rcases Nat.eq_zero_or_pos line with rfl | positive
      · rw [asks] at other
        cases other
      · have closed : ∀ line < 8, 0 < line → armed.slave.accepts line = false := by decide
        exact closed line inside positive

theorem acknowledge_tick {asking : Nat → Bool} (quiet : asking 1 = false) :
    armed.acknowledge asking = if asking 8 then some (0x28, tickTaken) else none := by
  have open_lines : ∀ line < 8, line ≠ 1 → line ≠ 2 → armed.master.accepts line = false := by decide
  cases asks : asking 8 with
  | true =>
      have line : (armed.master.next fun line =>
          if armed.master.cascaded line then (armed.slave.next fun line => asking (line + 8)).isSome
          else asking line) = some 2 := by
        refine next_eq_some (by decide) ?_ (by decide) fun other before others => ?_
        · rw [slave_next, asks]
          rfl
        · rcases eq_or_ne other 1 with rfl | apart
          · exact absurd (others.symm.trans quiet) (by decide)
          · exact open_lines other (by omega) apart (by omega)
      rw [Pair.acknowledge, line, slave_next, asks]
      rfl
  | false =>
      have line : (armed.master.next fun line =>
          if armed.master.cascaded line then (armed.slave.next fun line => asking (line + 8)).isSome
          else asking line) = none := by
        refine next_eq_none fun other inside others => ?_
        rcases eq_or_ne other 1 with rfl | apart
        · exact absurd (others.symm.trans quiet) (by decide)
        · rcases eq_or_ne other 2 with rfl | apart'
          · rw [slave_next, asks] at others
            cases others
          · exact open_lines other inside apart apart'
      rw [Pair.acknowledge, line]
      rfl

theorem key_returns : writeAll
    ((((portsOf keyTaken).disableIrq keyboardIrq).sendEoi keyboardIrq).enableIrq keyboardIrq).written keyTaken =
      armed := by
  decide

theorem tick_returns : writeAll (portsOf tickTaken).rtcHandler.written tickTaken = armed := by
  decide

theorem rtcWrite_returns : writeAll (portsOf armed).rtcWrite.written armed = armed := by
  decide

/-! ### The processor behind the controllers -/

structure Board where
  processor : Processor
  pair : Pair

/-- The devices ask for an interrupt on some lines, with `code` in the keyboard, or the processor goes on
by itself. -/
inductive BoardEvent where
  | interrupt (asking : Nat → Bool) (code : UInt8) (regs : SaveRegs) (stale : Dentry)
  | program (event : ProcessorEvent)

namespace Kernel

def writesRtc (fd : Int) (k : Kernel) : Bool :=
  match k.running.bind fun process =>
      ((k.pcbs process).fileArray.inUse 1 fd).bind fun index => ((k.pcbs process).fileArray index).fopsPtr with
  | some .rtc => true
  | _ => false

def callPorts (event : ProcessorEvent) (k : Kernel) (ports : Ports) : Ports :=
  match event with
  | .kernel (.write fd _) => if k.writesRtc fd then ports.rtcWrite else ports
  | _ => ports

def isInterrupt : ProcessorEvent → Bool
  | .kernel (.key ..) => true
  | .kernel .rtcTick => true
  | _ => false

end Kernel

namespace Board

variable (image : Image) (tables : Tables) (address : Handler → UInt32)

def level (board : Board) : Nat := if board.processor.program.isSome then 3 else 0

def key (code : UInt8) (regs : SaveRegs) (stale : Dentry) (board : Board) : Option Board :=
  let p := board.processor
  let handled := p.kernel.keyPorts image code { regs with eflags := p.eflags } stale (portsOf board.pair)
  if p.kernel.tty.KeyInRow code then
    handled.1.map fun next => ⟨p.afterKey next, writeAll handled.2.written board.pair⟩
  else none

def tick (board : Board) : Board :=
  let p := board.processor
  ⟨{ p with kernel := { p.kernel with rtc := rtcHandler p.kernel.rtc } }.iret p.eflags,
    writeAll (portsOf board.pair).rtcHandler.written board.pair⟩

def handle (outcome : Outcome) (code : UInt8) (regs : SaveRegs) (stale : Dentry) (board : Board) : Option Board :=
  if outcome = .entered keyboardIdt (kernelEntry address .keyboardWrapper) then board.key image code regs stale
  else if outcome = .entered rtcIdt (kernelEntry address .rtcWrapper) then some board.tick
  else none

/-- With its interrupt flag clear the processor answers no request. -/
def step (board : Board) : BoardEvent → Option Board
  | .interrupt asking code regs stale =>
      if Enabled board.processor.eflags then
        match board.pair.acknowledge asking with
        | none => some board
        | some (vector, taken) =>
            { board with pair := taken }.handle image address (deliver tables .device board.level vector.toNat)
              code regs stale
      else some board
  | .program event =>
      if Kernel.isInterrupt event then none
      else (board.processor.step image event).map fun next =>
        ⟨next, writeAll (board.processor.kernel.callPorts event (portsOf board.pair)).written board.pair⟩

def Booted (board : Board) : Prop :=
  Processor.Booted image board.processor ∧ ∃ pair, board.pair = writeAll (portsOf pair).entry.written pair

variable {image : Image} {tables : Tables} {address : Handler → UInt32} {board next : Board}

def Simulates (image : Image) (board : Board) : Prop :=
  board.pair = armed ∧ Reachable (Processor.step image) (Processor.Booted image) board.processor

theorem step_program {event : ProcessorEvent} (ready : board.pair = armed)
    (done : board.step image tables address (.program event) = some next) :
    next.pair = armed ∧ board.processor.step image event = some next.processor := by
  rw [step] at done
  split at done
  · cases done
  · obtain ⟨later, made, rfl⟩ := Option.map_eq_some_iff.mp done
    refine ⟨?_, made⟩
    change writeAll (board.processor.kernel.callPorts event (portsOf board.pair)).written board.pair = armed
    rw [ready]
    cases event with
    | kernel event =>
        cases event with
        | write fd bytes =>
            rw [Kernel.callPorts]
            by_cases rtc : board.processor.kernel.writesRtc fd = true
            · rw [if_pos rtc]
              exact rtcWrite_returns
            · rw [if_neg rtc]
              rfl
        | _ => rfl
    | _ => rfl

theorem key_delivered {current : Nat} {ldt tss : UInt32} :
    deliver (bootTables address ldt tss) .device current 0x21 =
      .entered keyboardIdt (kernelEntry address .keyboardWrapper) :=
  deliver_ok (by decide) (reached_assigned (keyboardIdt, interruptDesc, .keyboardWrapper) (by decide))

theorem tick_delivered {current : Nat} {ldt tss : UInt32} :
    deliver (bootTables address ldt tss) .device current 0x28 =
      .entered rtcIdt (kernelEntry address .rtcWrapper) :=
  deliver_ok (by decide) (reached_assigned (rtcIdt, interruptDesc, .rtcWrapper) (by decide))

def keyed (image : Image) (code : UInt8) (regs : SaveRegs) (stale : Dentry) (p : Processor) : Option Board :=
  if p.kernel.tty.KeyInRow code then
    (p.kernel.keyPorts image code { regs with eflags := p.eflags } stale (portsOf keyTaken)).1.map
      fun next => ⟨p.afterKey next, armed⟩
  else none

def ticked (p : Processor) : Board :=
  ⟨{ p with kernel := { p.kernel with rtc := rtcHandler p.kernel.rtc } }.iret p.eflags, armed⟩

theorem step_key {asking : Nat → Bool} {code : UInt8} {regs : SaveRegs} {stale : Dentry} {ldt tss : UInt32}
    (ready : board.pair = armed) (enabled : Enabled board.processor.eflags) (asks : asking 1 = true) :
    board.step image (bootTables address ldt tss) address (.interrupt asking code regs stale) =
      keyed image code regs stale board.processor := by
  rw [step, if_pos enabled, ready, acknowledge_key asks]
  change handle image address (deliver (bootTables address ldt tss) .device board.level 0x21) code regs stale
    { board with pair := keyTaken } = _
  rw [key_delivered, handle, if_pos rfl, key, keyed]
  dsimp only
  by_cases inRow : board.processor.kernel.tty.KeyInRow code
  · rw [if_pos inRow, if_pos inRow]
    refine Option.map_congr fun later handled => ?_
    rw [(Kernel.keyPorts_keyEvent inRow handled).2, key_returns]
  · rw [if_neg inRow, if_neg inRow]

theorem step_tick {asking : Nat → Bool} {code : UInt8} {regs : SaveRegs} {stale : Dentry} {ldt tss : UInt32}
    (ready : board.pair = armed) (enabled : Enabled board.processor.eflags) (quiet : asking 1 = false)
    (asks : asking 8 = true) :
    board.step image (bootTables address ldt tss) address (.interrupt asking code regs stale) =
      some (ticked board.processor) := by
  rw [step, if_pos enabled, ready, acknowledge_tick quiet, if_pos asks]
  change handle image address (deliver (bootTables address ldt tss) .device board.level 0x28) code regs stale
    { board with pair := tickTaken } = _
  rw [tick_delivered, handle, if_neg fun same => absurd (Outcome.entered.inj same).1 (by decide), if_pos rfl, tick]
  change some (Board.mk _ (writeAll (portsOf tickTaken).rtcHandler.written tickTaken)) = _
  rw [tick_returns]
  rfl

theorem step_quiet {asking : Nat → Bool} {code : UInt8} {regs : SaveRegs} {stale : Dentry}
    (ready : board.pair = armed) (quiet : asking 1 = false) (none : asking 8 = false) :
    board.step image tables address (.interrupt asking code regs stale) = some board := by
  rw [step, ready, acknowledge_tick quiet, none]
  exact ite_self _

theorem step_interrupt {ldt tss : UInt32} (ready : board.pair = armed) (asking : Nat → Bool) (code : UInt8)
    (regs : SaveRegs) (stale : Dentry) :
    board.step image (bootTables address ldt tss) address (.interrupt asking code regs stale) =
      if ¬Enabled board.processor.eflags then some board
      else if asking 1 then keyed image code regs stale board.processor
      else if asking 8 then some (ticked board.processor)
      else some board := by
  by_cases enabled : Enabled board.processor.eflags
  · rw [if_neg (not_not.mpr enabled)]
    cases asks : asking 1 with
    | true => exact step_key ready enabled asks
    | false =>
        rw [if_neg Bool.false_ne_true]
        cases ticks : asking 8 with
        | true => exact step_tick ready enabled asks ticks
        | false => exact step_quiet ready asks ticks
  · rw [if_pos enabled, step, if_neg enabled]

theorem Simulates.step {event : BoardEvent} {ldt tss : UInt32} (simulates : Simulates image board)
    (done : board.step image (bootTables address ldt tss) address event = some next) : Simulates image next := by
  obtain ⟨ready, reached⟩ := simulates
  cases event with
  | program event =>
      obtain ⟨kept, taken⟩ := step_program ready done
      exact ⟨kept, reached.next taken⟩
  | interrupt asking code regs stale =>
      rw [step_interrupt ready] at done
      split at done
      · cases done
        exact ⟨ready, reached⟩
      · rename_i enabled
        have enabled' : Enabled board.processor.eflags := not_not.mp enabled
        split at done
        · rw [keyed] at done
          split at done
          · rename_i inRow
            obtain ⟨later, handled, rfl⟩ := Option.map_eq_some_iff.mp done
            have pressed : board.processor.step image (.kernel (.key code regs stale)) =
                some (board.processor.afterKey later) := by
              rw [Processor.step, if_pos enabled']
              exact congrArg (Option.map _) (Kernel.keyPorts_keyEvent inRow handled).1
            exact ⟨rfl, reached.next pressed⟩
          · cases done
        · split at done
          · cases done
            have tick : board.processor.step image (.kernel .rtcTick) = some (ticked board.processor).processor := by
              rw [Processor.step, if_pos enabled']
              rfl
            exact ⟨rfl, reached.next tick⟩
          · cases done
            exact ⟨ready, reached⟩

/-- The devices and the tables never show the processor anything but its own events. While its interrupt flag is set
no request of the two devices is lost, and the keyboard is served before the clock; other lines are not. -/
theorem interrupts_simulated {ldt tss : UInt32}
    (reached : Reachable (Board.step image (bootTables address ldt tss) address) (Board.Booted image) board)
    (asking : Nat → Bool) (code : UInt8) (regs : SaveRegs) (stale : Dentry) :
    Simulates image board ∧
    board.step image (bootTables address ldt tss) address (.interrupt asking code regs stale) =
      if ¬Enabled board.processor.eflags then some board
      else if asking 1 then keyed image code regs stale board.processor
      else if asking 8 then some (ticked board.processor)
      else some board := by
  have simulates : Simulates image board := by
    refine reached.invariant (Simulates image) (fun first booted => ?_) fun _ _ _ simulates done => simulates.step done
    obtain ⟨start, pair, entered⟩ := booted
    exact ⟨entered.trans (entry_armed pair), first.processor, [], start, Path.nil _⟩
  exact ⟨simulates, step_interrupt simulates.1 asking code regs stale⟩

theorem booted_armed {p : Processor} (start : Processor.Booted image p) : Board.Booted image ⟨p, armed⟩ := by
  have pair : armed = writeAll (portsOf armed).entry.written armed := (entry_armed armed).symm
  exact And.intro start (Exists.intro armed pair)

theorem interrupts_simulated_tick :
    ∃ board : Board, board.processor.kernel.rtc.rtcFlag = false ∧
      (board.step Kernel.smallImage (bootTables (fun _ => 0x401000) 0x402000 0x403000) (fun _ => 0x401000)
        (.interrupt (fun line => line = 7 ∨ line = 8) 0 Kernel.noRegs Kernel.noDentry)).map
          (fun next => next.processor.kernel.rtc.rtcFlag) = some true := by
  have ran : (Kernel.bootSmall.map fun k => k.rtc.rtcFlag) = some false := by decide +kernel
  obtain ⟨k, computed, flag⟩ := Option.map_eq_some_iff.mp ran
  let p : Processor :=
    { kernel := k, eflags := interruptFlag, entry := fun _ => 0, waits := fun _ => none, loaded := [] }
  have enabled : Enabled interruptFlag := by decide
  have start : Processor.Booted Kernel.smallImage p := ⟨Kernel.bootSmall_booted computed, enabled, fun _ => rfl, rfl⟩
  have tick := (@interrupts_simulated Kernel.smallImage (fun _ => 0x401000) ⟨p, armed⟩ 0x402000 0x403000
    ⟨_, [], booted_armed start, Path.nil _⟩ (fun line => line = 7 ∨ line = 8) 0 Kernel.noRegs Kernel.noDentry).2
  have set : ¬¬Enabled p.eflags := not_not.mpr enabled
  rw [if_neg set] at tick
  have rang : (ticked p).processor.kernel.rtc.rtcFlag = true := by
    rw [ticked, Processor.iret]
    split <;> rfl
  exact ⟨⟨p, armed⟩, flag, (congrArg (Option.map fun next : Board => next.processor.kernel.rtc.rtcFlag) tick).trans
    (congrArg some rang)⟩

end Board

end G29Os
