import G29Os.KernelInput

/-!
What a step of the kernel does to the terminal driver and its screen, and the states of the
driver at boot.
-/

namespace G29Os

open StepRun

namespace Kernel

variable {image : Image} {k next middle : Kernel} {process : Slot}

inductive DriverStep (k : Kernel) : Event → Tty → Prop
  | silent {event : Event} : DriverStep k event k.tty
  | key {code : UInt8} {regs : SaveRegs} {stale : Dentry} (inRow : k.tty.KeyInRow code) :
      DriverStep k (.key code regs stale) (k.tty.afterKey code)
  | access {user : UserRead} (reading : k.readers k.current = some user) :
      DriverStep k .readAccess (k.tty.readStep k.current user.call).tty
  | write {fd : Int} {bytes : List UInt8} : DriverStep k (.write fd bytes) (k.tty.terminalWrite bytes)
  | print {event : Event} (text : List Char) :
      DriverStep k event (k.tty.mapConsole (puts (ascii text)))

theorem Silent.driver {event : Event} (silent : Silent k next) : DriverStep k event next.tty :=
  silent.tty ▸ DriverStep.silent

theorem readAccess_tty {user : UserRead} (done : k.readAccess user = some next) :
    next.tty = (k.tty.readStep k.current user.call).tty := by
  rw [readAccess] at done
  cases outcome : k.tty.readStep k.current user.call with
  | finished bytes tty =>
      rw [outcome] at done
      cases done
      rfl
  | running call tty =>
      rw [outcome] at done
      dsimp only at done
      split at done
      · obtain ⟨⟨mem, rfl⟩, -⟩ := storeByte_stored done
        rfl
      · cases done
        rfl

theorem returnSyscall_tty {stale : Stale} (done : k.returnSyscall image stale process = some next) :
    next.tty = k.tty ∨ ∃ text, next.tty = k.tty.mapConsole (puts (ascii text)) := by
  cases returnSyscall_returned done with
  | resumed linked => exact Or.inl rfl
  | relaunched base executed => exact Or.inr ⟨_, (executeStarted_silent executed).tty⟩

theorem systemHalt_tty {stale : Stale} (done : k.systemHalt image stale process = some next) :
    next.tty = k.tty ∨ ∃ text, next.tty = k.tty.mapConsole (puts (ascii text)) := by
  obtain ⟨middle, closing, returned⟩ := Option.bind_eq_some_iff.mp done
  rw [← (closeAll_closed closing).silent.tty]
  exact returnSyscall_tty returned

theorem step_driver {event : Event} (done : k.step image event = some next) :
    DriverStep k event next.tty := by
  cases step_occurs done with
  | key done =>
      obtain ⟨inRow, tty, -⟩ := keyEvent_tty done
      exact tty ▸ DriverStep.key inRow
  | rtcTick => exact DriverStep.silent
  | firstShell done => exact (executeStarted_silent done).driver
  | readAccess reading done => exact readAccess_tty done ▸ DriverStep.access reading
  | executeFailed running done =>
      rcases systemExecute_effect done with rfl | ⟨text, rfl⟩
      · exact DriverStep.silent
      · exact DriverStep.print text
  | executeStarted running done => exact (executeStarted_silent done).driver
  | halt running done =>
      rcases systemHalt_tty done with same | ⟨text, printed⟩
      · exact same ▸ DriverStep.silent
      · exact printed ▸ DriverStep.print text
  | read running read =>
      cases read with
      | refused => exact DriverStep.silent
      | terminal => exact DriverStep.silent
      | rtc rtc => exact DriverStep.silent
      | file used fops done =>
          obtain ⟨owner, mem, -, rfl, -⟩ := fileRead_effect done
          exact DriverStep.silent
  | write running wrote =>
      cases wrote with
      | refused => exact DriverStep.silent
      | terminal => exact DriverStep.write
      | rtc rtc => exact DriverStep.silent
  | opened running opened => exact opened.silent.driver
  | closed running done => exact (systemClose_closed done).silent.driver
  | stored running stored => exact stored.silent.driver

/-- `Booted`, and the statics of `terminal.c` are zero as well. -/
def PoweredOn (image : Image) (k : Kernel) : Prop :=
  Booted image k ∧ ∃ console vbuffer pic, k.tty = Tty.booted console vbuffer pic

theorem initTerminals_tty {stale2 stale3 : Pcb} {fileHeader : Nat → UInt8}
    (done : k.initTerminals image stale2 stale3 fileHeader = some next) :
    next.tty = { k.tty with currTerminal := 0 } := by
  obtain ⟨middle, second, third⟩ := initTerminals_built done
  obtain ⟨⟨mem, rfl⟩, -⟩ := storeBytes_stored third
  obtain ⟨⟨mem', rfl⟩, -⟩ := storeBytes_stored second
  rfl

theorem bootSmall_poweredOn (computed : bootSmall = some k) : PoweredOn smallImage k :=
  ⟨bootSmall_booted computed, _, _, _, initTerminals_tty computed⟩

theorem runOn_poweredOn {events : List Event} (computed : runOn image events = some k) :
    StepRun.Reachable (step image) (PoweredOn image) k := by
  obtain ⟨start, booted, ran⟩ := Option.bind_eq_some_iff.mp computed
  exact ⟨start, events, ⟨⟨zeroKernel, noPcb, noPcb, fun _ => 0, raw_zeroKernel, booted⟩, _, _, _,
    initTerminals_tty booted⟩, runWhere_path ran⟩

end Kernel

end G29Os
