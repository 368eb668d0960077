import G29Os.KernelInput
import G29Os.KeyboardRefinement
import G29Os.ProcessSpaces

/-!
The interrupt controllers port by port while a key is handled: which writes `keyboard_handler`,
`switch_terminal`, `start_shell` and `reload_program` make, and in which order.
-/

namespace G29Os

open StepRun

/-- The masks, and every byte written to a port of the controllers so far. -/
structure Ports where
  masterMask : UInt8
  slaveMask : UInt8
  written : List (UInt16 × UInt8)

namespace Ports

def master8259Port : UInt16 := 0x20

def slave8259Port : UInt16 := 0xA0

def inb (port : UInt16) (ports : Ports) : UInt8 :=
  if port = master8259Port + 1 then ports.masterMask else ports.slaveMask

def outb (data : UInt8) (port : UInt16) (ports : Ports) : Ports where
  masterMask := if port = master8259Port + 1 then data else ports.masterMask
  slaveMask := if port = slave8259Port + 1 then data else ports.slaveMask
  written := ports.written ++ [(port, data)]

def enableIrq (irqNum : Nat) (ports : Ports) : Ports :=
  let picPort := if irqNum < 8 then master8259Port + 1 else slave8259Port + 1
  let line := if irqNum < 8 then irqNum else irqNum - 8
  ports.outb (ports.inb picPort &&& ~~~irqBit line) picPort

def disableIrq (irqNum : Nat) (ports : Ports) : Ports :=
  let picPort := if irqNum < 8 then master8259Port + 1 else slave8259Port + 1
  let line := if irqNum < 8 then irqNum else irqNum - 8
  ports.outb (ports.inb picPort ||| irqBit line) picPort

def sendEoi (irqNum : Nat) (ports : Ports) : Ports :=
  if irqNum ≥ 8 then
    (ports.outb (eoi ||| UInt8.ofNat (irqNum - 8)) slave8259Port).outb (eoi ||| 2) master8259Port
  else ports.outb (eoi ||| UInt8.ofNat irqNum) master8259Port

end Ports

namespace Kernel

def readable (address : UInt32) (k : Kernel) : Bool := (k.paging.walk k.cr3 address.toNat).isSome

def lengthReadable (image : Image) (inode : UInt32) (k : Kernel) : Bool :=
  (List.range 4).all fun j => k.readable (image.inodePtr inode + UInt32.ofNat j)

/-- `enable_irq` is the first thing of `start_shell` that others see. -/
def startShellPorts (image : Image) (k : Kernel) (ports : Ports) : Option Kernel × Ports :=
  (k.startShell image, ports.enableIrq keyboardIrq)

/-- The name in the PCB and the length of the file are read before `enable_irq`. Nothing is
mapped at NULL, nor at many an address that an unset `dentry` leads to. -/
def reloadProgramPorts (image : Image) (stale : Dentry) (k : Kernel) (ports : Ports) :
    Option Kernel × Ports :=
  match k.foreground with
  | none => (none, ports)
  | some process =>
      if k.lengthReadable image (k.programDentry image process stale).inode then
        (k.reloadProgram image stale, ports.enableIrq keyboardIrq)
      else (none, ports)

def switchTerminalPorts (image : Image) (target : TerminalId) (regs : SaveRegs) (stale : Dentry)
    (k : Kernel) (ports : Ports) : Option Kernel × Ports :=
  let switched := k.leave target regs
  let ports := ports.sendEoi keyboardIrq
  if k.numProgs target = 0 then switched.startShellPorts image ports
  else switched.reloadProgramPorts image stale ports

/-- `keyboard_handler`. A fault ends it with no kernel to go on from. -/
def keyPorts (image : Image) (code : UInt8) (regs : SaveRegs) (stale : Dentry) (k : Kernel)
    (ports : Ports) : Option Kernel × Ports :=
  let ports := ports.disableIrq keyboardIrq
  match k.tty.keyboardHandler code with
  | .returned tty => (some { k with tty := tty }, (ports.sendEoi keyboardIrq).enableIrq keyboardIrq)
  | .switched target tty => { k with tty := tty }.switchTerminalPorts image target regs stale ports

end Kernel

/-! ### Masks -/

namespace Ports

variable {before : Ports}

def keyboardEoi : UInt16 × UInt8 := (master8259Port, 0x61)

def Unmasks (write : UInt16 × UInt8) : Prop := write.1 = master8259Port + 1 ∧ write.2 &&& 2 = 0

structure Rearmed (before after : Ports) : Prop where
  once : ∃ early late, after.written = before.written ++ early ++ keyboardEoi :: late ∧
    keyboardEoi ∉ early ∧ keyboardEoi ∉ late ∧ ∀ write ∈ early, ¬Unmasks write
  unmasked : after.masterMask &&& 2 = 0
  master : after.masterMask &&& ~~~2 = before.masterMask &&& ~~~2
  slave : after.slaveMask = before.slaveMask

theorem disabled_eq : before.disableIrq keyboardIrq =
    { masterMask := before.masterMask ||| 2
      slaveMask := before.slaveMask
      written := before.written ++ [(master8259Port + 1, before.masterMask ||| 2)] } := rfl

theorem sendEoi_eq : before.sendEoi keyboardIrq =
    { before with written := before.written ++ [keyboardEoi] } := rfl

theorem enabled_eq : before.enableIrq keyboardIrq =
    { masterMask := before.masterMask &&& ~~~2
      slaveMask := before.slaveMask
      written := before.written ++ [(master8259Port + 1, before.masterMask &&& ~~~2)] } := rfl

theorem mask_bits (mask : UInt8) : (mask ||| 2) &&& 2 = 2 ∧ ((mask ||| 2) &&& ~~~2) &&& 2 = 0 ∧
    ((mask ||| 2) &&& ~~~2) &&& ~~~2 = mask &&& ~~~2 := by
  have table : ∀ mask : Fin 256, (UInt8.ofNat mask ||| 2) &&& 2 = 2 ∧
      ((UInt8.ofNat mask ||| 2) &&& ~~~2) &&& 2 = 0 ∧
      ((UInt8.ofNat mask ||| 2) &&& ~~~2) &&& ~~~2 = UInt8.ofNat mask &&& ~~~2 := by decide +kernel
  have cell := table ⟨mask.toNat, mask.toNat_lt⟩
  rwa [UInt8.ofNat_toNat] at cell

theorem rearmed (before : Ports) :
    Rearmed before (((before.disableIrq keyboardIrq).sendEoi keyboardIrq).enableIrq keyboardIrq) := by
  obtain ⟨set, clear, others⟩ := mask_bits before.masterMask
  have masked : ¬Unmasks (master8259Port + 1, before.masterMask ||| 2) := by
    rintro ⟨-, unset⟩
    exact absurd (set.symm.trans unset) (by decide)
  have ports : master8259Port ≠ master8259Port + 1 := by decide
  have apart (data : UInt8) : keyboardEoi ≠ (master8259Port + 1, data) := fun same =>
    ports (congrArg Prod.fst same)
  rw [disabled_eq, sendEoi_eq, enabled_eq]
  refine ⟨⟨[(master8259Port + 1, before.masterMask ||| 2)],
    [(master8259Port + 1, (before.masterMask ||| 2) &&& ~~~2)], ?_, ?_, ?_, ?_⟩, clear, others, rfl⟩
  · rw [List.append_assoc _ [keyboardEoi]]
    rfl
  · rw [List.mem_singleton]
    exact apart _
  · rw [List.mem_singleton]
    exact apart _
  · intro write listed
    rw [List.mem_singleton.mp listed]
    exact masked

theorem not_rearmed (before : Ports) :
    ¬Rearmed before ((before.disableIrq keyboardIrq).sendEoi keyboardIrq) := by
  intro rearmed
  have unmasked := rearmed.unmasked
  rw [disabled_eq, sendEoi_eq] at unmasked
  exact absurd ((mask_bits before.masterMask).1.symm.trans unmasked) (by decide)

/-! ### The controllers of the driver -/

def commands (port : UInt16) (ports : Ports) : List UInt8 :=
  (ports.written.filter fun write => write.1 = port).map Prod.snd

/-- The controllers as the driver has them: the masks, and what each of the two command ports
was given. -/
def pic (ports : Ports) : Pic where
  masterMask := ports.masterMask
  slaveMask := ports.slaveMask
  masterCommands := ports.commands master8259Port
  slaveCommands := ports.commands slave8259Port

variable {ports : Ports}

theorem commands_outb (port other : UInt16) (data : UInt8) :
    (ports.outb data port).commands other =
      if port = other then ports.commands other ++ [data] else ports.commands other := by
  simp only [commands, outb, List.filter_append, List.map_append]
  by_cases same : port = other
  · simp [same]
  · simp [same]

theorem pic_enableIrq (irqNum : Nat) :
    (ports.enableIrq irqNum).pic = G29Os.enableIrq irqNum ports.pic := by
  rw [enableIrq, G29Os.enableIrq]
  split
  all_goals
    simp only [pic, commands_outb]
    rfl

theorem pic_disableIrq (irqNum : Nat) :
    (ports.disableIrq irqNum).pic = G29Os.disableIrq irqNum ports.pic := by
  rw [disableIrq, G29Os.disableIrq]
  split
  all_goals
    simp only [pic, commands_outb]
    rfl

theorem pic_sendEoi (irqNum : Nat) : (ports.sendEoi irqNum).pic = G29Os.sendEoi irqNum ports.pic := by
  rw [sendEoi, G29Os.sendEoi]
  split
  all_goals
    simp only [pic, commands_outb]
    rfl

end Ports

namespace Tty

variable {tty : Tty} {terminal : TerminalId} {code : UInt8} {position : Position}

theorem pic_mapConsole (change : Console → Console) : (tty.mapConsole change).pic = tty.pic := rfl

theorem pic_printLineBuffer (offset : UInt8) : (printLineBuffer offset terminal tty).pic = tty.pic := rfl

theorem pic_setStart : (setStart terminal position tty).pic = tty.pic := rfl

theorem pic_dropCounts : (dropCounts terminal tty).pic = tty.pic := rfl

theorem pic_releaseKey : (releaseKey code tty).pic = tty.pic := by
  rw [releaseKey_eq]
  rfl

theorem pic_clearBuffer : (clearBuffer tty).pic = tty.pic := by
  rw [clearBuffer, clearLine_eq]
  rfl

theorem pic_copyLine : (copyLine terminal (endLine terminal tty)).pic = tty.pic := rfl

theorem pic_entered (flag : Bool) (offset : UInt8) :
    (setBufOffset offset (setKeyboardRead flag tty)).pic = tty.pic := rfl

theorem pic_doEnter : (doEnter terminal tty).pic = tty.pic := by
  rw [doEnter, pic_entered, pic_clearBuffer, pic_copyLine]

theorem pic_closeGap : (closeGap terminal tty).pic = tty.pic := by
  rw [closeGap, shiftLeft_eq]
  rfl

theorem pic_unwrapStart : (unwrapStart terminal tty).pic = tty.pic := by
  rw [unwrapStart]
  split <;> rfl

theorem pic_doBackspace : (doBackspace terminal tty).pic = tty.pic := by
  rw [doBackspace]
  split
  · simp only [apply_ite pic, pic_mapConsole, pic_printLineBuffer, pic_closeGap, pic_unwrapStart,
      pic_dropCounts, ite_self]
  · rfl

theorem pic_pressKey : (pressKey terminal code tty).pic = tty.pic := by
  rw [pressKey]
  split_ifs
  · rfl
  · rfl
  · rfl
  · rfl
  · exact pic_doBackspace
  · exact pic_doEnter
  · rfl

theorem pic_heldKeys : (heldKeys code tty).pic = disableIrq keyboardIrq tty.pic := by
  rw [heldKeys, pic_releaseKey, pic_pressKey]
  rfl

theorem pic_stay : (stay position tty).pic = tty.pic := by
  rw [stay]
  split <;> rfl

theorem pic_insertChar (c : UInt8) : (insertChar terminal c tty).pic = tty.pic := by
  rw [insertChar, shiftRight_eq, setLine_eq]
  rfl

theorem pic_advanceCursor : (advanceCursor terminal position tty).pic = tty.pic := by
  rw [advanceCursor]
  split <;> rfl

theorem pic_typeKey : (typeKey terminal code position tty).pic = tty.pic := by
  simp only [typeKey, keyboardAbstraction, apply_ite pic, pic_advanceCursor, pic_printLineBuffer,
    pic_insertChar, pic_setStart, ite_self]

theorem pic_terminalWrite (bytes : List UInt8) : (tty.terminalWrite bytes).pic = tty.pic := by
  obtain ⟨console, startPosition, same⟩ := @terminalWrite_fields tty bytes
  rw [same]

theorem pic_clearScreen : (clearScreen terminal tty).pic = tty.pic := by
  simp only [clearScreen, apply_ite pic, pic_setStart, pic_printLineBuffer, pic_terminalWrite,
    pic_mapConsole, ite_self]

theorem pic_afterKey (code : UInt8) : (tty.afterKey code).pic =
    enableIrq keyboardIrq (sendEoi keyboardIrq (disableIrq keyboardIrq tty.pic)) := by
  have handled := @keyboardHandler_handled tty code
  rw [afterKey_eq]
  generalize tty.keyboardHandler code = outcome at handled ⊢
  have finished (last : Tty) (same : last.pic = (heldKeys code tty).pic) :
      last.finishKey.pic =
        enableIrq keyboardIrq (sendEoi keyboardIrq (disableIrq keyboardIrq tty.pic)) := by
    rw [finishKey, mapPic]
    dsimp only
    rw [same, pic_heldKeys]
  cases handled with
  | held => exact finished _ pic_stay
  | here => exact finished _ pic_stay
  | switched =>
      rw [KeyOutcome.after, switchScreen, ← pic_heldKeys]
      rfl
  | clears => exact finished _ pic_clearScreen
  | types => exact finished _ pic_typeKey
  | full => exact finished _ rfl

end Tty

/-! ### Every way through the handler -/

namespace Kernel

variable {image : Image} {code : UInt8} {regs : SaveRegs} {stale : Dentry} {k next : Kernel}
  {before : Ports} {target : TerminalId}

def leavesFor (code : UInt8) (k : Kernel) (target : TerminalId) : Prop :=
  (k.tty.modifiers.key code).alt = true ∧ Tty.switchTarget code = some target ∧ target ≠ k.current

/-- What `reload_program` reads before its `enable_irq` can be read: there is a PCB, and the
inode of the file it looks up lies in mapped memory. -/
def ReloadReads (image : Image) (stale : Dentry) (target : TerminalId) (k : Kernel) : Prop :=
  ∃ process, k.currPcb target = some process ∧
    k.lengthReadable image (k.programDentry image process stale).inode = true

theorem handled_leaves {outcome : Tty.KeyOutcome} (handled : Tty.Handled code k.tty outcome) :
    leavesFor code k target ↔ ∃ tty, outcome = .switched target tty := by
  have stays {tty : Tty} (stopped : ¬leavesFor code k target) :
      leavesFor code k target ↔ ∃ other, Tty.KeyOutcome.returned tty = .switched target other := by
    refine iff_of_false stopped ?_
    rintro ⟨other, same⟩
    cases same
  cases handled with
  | held altDown asked =>
      refine stays ?_
      rintro ⟨-, asks, -⟩
      cases asked.symm.trans asks
  | here altDown asked =>
      refine stays ?_
      rintro ⟨-, asks, other⟩
      exact other (Option.some.inj (asks.symm.trans asked))
  | @switched away altDown asked other =>
      constructor
      · rintro ⟨-, asks, -⟩
        rw [Option.some.inj (asks.symm.trans asked)]
        exact ⟨_, rfl⟩
      · rintro ⟨tty, same⟩
        cases same
        exact ⟨(Tty.altPressed_heldKeys code).symm.trans altDown, asked, other⟩
  | clears altUp asked => exact stays fun leaves => altUp ((Tty.altPressed_heldKeys code).trans leaves.1)
  | types altUp letter room => exact stays fun leaves => altUp ((Tty.altPressed_heldKeys code).trans leaves.1)
  | full altUp letter full => exact stays fun leaves => altUp ((Tty.altPressed_heldKeys code).trans leaves.1)

theorem switchTerminalPorts_rearmed_iff :
    Ports.Rearmed before
        (k.switchTerminalPorts image target regs stale (before.disableIrq keyboardIrq)).2 ↔
      (k.numProgs target ≠ 0 → ReloadReads image stale target k) := by
  rw [switchTerminalPorts]
  by_cases unvisited : k.numProgs target = 0
  · rw [if_pos unvisited]
    exact iff_of_true (Ports.rearmed before) (absurd unvisited)
  · rw [if_neg unvisited, reloadProgramPorts]
    have front : (k.leave target regs).foreground = k.currPcb target := rfl
    cases top : k.currPcb target with
    | none =>
        rw [front, top]
        refine iff_of_false (Ports.not_rearmed before) fun reads => ?_
        obtain ⟨process, some_, -⟩ := reads unvisited
        cases top.symm.trans some_
    | some process =>
        rw [front, top]
        have same : (k.leave target regs).lengthReadable image
            ((k.leave target regs).programDentry image process stale).inode =
            k.lengthReadable image (k.programDentry image process stale).inode := rfl
        dsimp only
        rw [same]
        by_cases reads : k.lengthReadable image (k.programDentry image process stale).inode = true
        · rw [if_pos reads]
          exact iff_of_true (Ports.rearmed before) fun _ => ⟨process, top, reads⟩
        · rw [if_neg reads]
          refine iff_of_false (Ports.not_rearmed before) fun held => ?_
          obtain ⟨other, some_, readsOther⟩ := held unvisited
          cases top.symm.trans some_
          exact reads readsOther

theorem keyPorts_leaves (leaves : leavesFor code k target) : ∃ tty,
    k.keyPorts image code regs stale before =
      { k with tty := tty }.switchTerminalPorts image target regs stale (before.disableIrq keyboardIrq) := by
  obtain ⟨tty, outcome⟩ := (handled_leaves (@Tty.keyboardHandler_handled k.tty code)).mp leaves
  exact ⟨tty, by rw [keyPorts, outcome]⟩

/-- In every state and for every scan code, the keyboard is armed again if and only if the
handler does not fault in `reload_program`. -/
theorem keyPorts_rearmed_iff (image : Image) (code : UInt8) (regs : SaveRegs) (stale : Dentry)
    (k : Kernel) (before : Ports) :
    Ports.Rearmed before (k.keyPorts image code regs stale before).2 ↔
      ∀ target, leavesFor code k target → k.numProgs target ≠ 0 → ReloadReads image stale target k := by
  have handled := @Tty.keyboardHandler_handled k.tty code
  rw [keyPorts]
  generalize k.tty.keyboardHandler code = outcome at handled
  cases outcome with
  | returned tty =>
      refine iff_of_true (Ports.rearmed before) fun target leaves => ?_
      obtain ⟨other, same⟩ := (handled_leaves handled).mp leaves
      cases same
  | switched target tty =>
      have leaves : leavesFor code k target := (handled_leaves handled).mpr ⟨tty, rfl⟩
      have switched := @switchTerminalPorts_rearmed_iff image regs stale { k with tty := tty } before target
      refine switched.trans ⟨fun reads other leavesOther => ?_, fun reads => reads target leaves⟩
      have same := Option.some.inj (leaves.2.1.symm.trans leavesOther.2.1)
      exact same ▸ reads

/-- F1 while terminal 2 is in front and the first shell has not been started yet: `num_progs`
counts it already, and `curr_pcb` is NULL. -/
theorem keyPorts_unarmed :
    ∃ k, Reachable (step smallImage) (Booted smallImage) k ∧
      ¬Ports.Rearmed { masterMask := 0xF9, slaveMask := 0xFE, written := [] }
        (k.keyPorts smallImage f1 noRegs noDentry
          { masterMask := 0xF9, slaveMask := 0xFE, written := [] }).2 := by
  have ran : (runSmall (keys [alt, f2])).map (fun k => decide (k.tty.modifiers.key f1 = ⟨false, false, true, false⟩ ∧
      k.current = 1 ∧ k.numProgs 0 = 1 ∧ k.currPcb 0 = none)) = some true := by
    decide +kernel
  obtain ⟨k, computed, checks⟩ := Option.map_eq_some_iff.mp ran
  obtain ⟨held, current, counted, null⟩ := of_decide_eq_true checks
  refine ⟨k, runSmall_reachable computed, fun armed => ?_⟩
  have leaves : leavesFor f1 k 0 := ⟨congrArg Modifiers.alt held, rfl, by rw [current]; decide⟩
  obtain ⟨tty, ports⟩ := @keyPorts_leaves smallImage f1 noRegs noDentry k
    { masterMask := 0xF9, slaveMask := 0xFE, written := [] } 0 leaves
  rw [ports] at armed
  have visited : k.numProgs 0 ≠ 0 := by
    rw [counted]
    decide
  obtain ⟨process, some_, -⟩ := switchTerminalPorts_rearmed_iff.mp armed visited
  cases null.symm.trans some_

theorem reloadProgramPorts_done (done : (k.reloadProgramPorts image stale before).1 = some next) :
    k.reloadProgram image stale = some next ∧
      (k.reloadProgramPorts image stale before).2 = before.enableIrq keyboardIrq := by
  rw [reloadProgramPorts] at done ⊢
  cases top : k.foreground with
  | none =>
      rw [top] at done
      cases done
  | some process =>
      rw [top] at done
      dsimp only at done ⊢
      by_cases reads : k.lengthReadable image (k.programDentry image process stale).inode = true
      · rw [if_pos reads] at done ⊢
        exact ⟨done, rfl⟩
      · rw [if_neg reads] at done
        cases done

theorem switchTerminalPorts_done
    (done : (k.switchTerminalPorts image target regs stale before).1 = some next) :
    k.switchTerminal image target regs stale = some next ∧
      (k.switchTerminalPorts image target regs stale before).2 =
        (before.sendEoi keyboardIrq).enableIrq keyboardIrq := by
  rw [switchTerminalPorts] at done ⊢
  rw [switchTerminal]
  by_cases unvisited : k.numProgs target = 0
  · rw [if_pos unvisited] at done ⊢
    rw [if_pos unvisited]
    exact ⟨done, rfl⟩
  · rw [if_neg unvisited] at done ⊢
    rw [if_neg unvisited]
    exact reloadProgramPorts_done done

theorem keyPorts_keyEvent (inRow : k.tty.KeyInRow code)
    (done : (k.keyPorts image code regs stale before).1 = some next) :
    k.keyEvent image code regs stale = some next ∧
      (k.keyPorts image code regs stale before).2 =
        ((before.disableIrq keyboardIrq).sendEoi keyboardIrq).enableIrq keyboardIrq := by
  rw [keyPorts] at done ⊢
  rw [keyEvent, if_pos inRow]
  cases outcome : k.tty.keyboardHandler code with
  | returned tty =>
      rw [outcome] at done
      exact ⟨done, rfl⟩
  | switched target tty =>
      rw [outcome] at done
      exact switchTerminalPorts_done done

theorem keyPorts_pic (inRow : k.tty.KeyInRow code) (shown : before.pic = k.tty.pic)
    (done : (k.keyPorts image code regs stale before).1 = some next) :
    (k.keyPorts image code regs stale before).2.pic = next.tty.pic := by
  obtain ⟨step, calls⟩ := keyPorts_keyEvent inRow done
  obtain ⟨-, handled, -⟩ := keyEvent_tty step
  rw [calls, Ports.pic_enableIrq, Ports.pic_sendEoi, Ports.pic_disableIrq, shown, handled,
    Tty.pic_afterKey]

theorem null_unreadable (reached : Reachable (step image) (Booted image) k) {address : UInt32}
    (low : address.toNat < 4096) : k.readable address = false := by
  have mapped := (sound_reachable reached).mapped.kernel
  rw [readable, PageTables.walk_lower mapped (Nat.lt_trans low (by decide)), if_neg (by omega)]
  rfl

end Kernel

end G29Os
