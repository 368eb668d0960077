import G29Os.KernelEffects

/-!
The terminals of the whole kernel are the machine of `InputMachine`: each event of the kernel
is a few of its events, so what holds over all of its runs holds in the kernel.
-/

namespace G29Os

open StepRun

namespace Kernel

variable {image : Image} {k next middle : Kernel} {process : Slot} {state : InputState}

/-- The same driver state and the same reads in progress; a read's buffer is the kernel's
matter alone. -/
structure Shows (k : Kernel) (state : InputState) : Prop where
  tty : state.tty = k.tty
  readers : ∀ terminal, state.readers terminal = (k.readers terminal).map UserRead.call

def Followed (k next : Kernel) : Prop :=
  ∀ state, Shows k state → ∃ inputs state',
    Path inputStep (fun _ _ => True) state inputs state' ∧ Shows next state'

structure Silent (k next : Kernel) : Prop where
  tty : next.tty = k.tty
  readers : next.readers = k.readers

theorem Silent.refl (k : Kernel) : Silent k k := ⟨rfl, rfl⟩

theorem Silent.followed (silent : Silent k next) : Followed k next := by
  intro state shows
  refine ⟨[], state, Path.nil state, ?_, ?_⟩
  · rw [silent.tty]
    exact shows.tty
  · rw [silent.readers]
    exact shows.readers

theorem Followed.trans (first : Followed k middle) (second : Followed middle next) :
    Followed k next := by
  intro state shows
  obtain ⟨inputs, state', path, shows'⟩ := first state shows
  obtain ⟨inputs', state'', path', shows''⟩ := second state' shows'
  exact ⟨inputs ++ inputs', state'', path.append path', shows''⟩

theorem Stored.silent (stored : Stored k next) : Silent k next := by
  obtain ⟨⟨mem, rfl⟩, -⟩ := stored
  exact ⟨rfl, rfl⟩

theorem Closed.silent (closed : Closed process k next) : Silent k next := by
  obtain ⟨files, rtc, rfl, -⟩ := closed
  exact ⟨rfl, rfl⟩

theorem Shows.path {state' : InputState} (input : InputEvent)
    (taken : inputStep state input = some state') (shows : Shows next state') :
    ∃ inputs state', Path inputStep (fun _ _ => True) state inputs state' ∧ Shows next state' :=
  ⟨[input], state', Path.cons trivial taken (Path.nil state'), shows⟩

theorem Shows.current (shows : Shows k state) : state.current = k.current := by
  rw [InputState.current, shows.tty, Kernel.current]

theorem Shows.idle (shows : Shows k state) (idle : k.readers k.current = none) :
    state.readers state.current = none := by
  rw [shows.current, shows.readers, idle]
  rfl

theorem Shows.setReader (shows : Shows k state) {tty : Tty} (reader : Option UserRead) :
    Shows { k with tty := tty, readers := Function.update k.readers k.current reader }
      { state with
        tty := tty
        readers := Function.update state.readers state.current (reader.map UserRead.call) } := by
  refine ⟨rfl, fun terminal => ?_⟩
  rw [shows.current]
  dsimp only
  rcases eq_or_ne terminal k.current with here | away
  · subst here
    rw [Function.update_self, Function.update_self]
  · rw [Function.update_of_ne away, Function.update_of_ne away, shows.readers]

/-! ### Calls that the terminals see -/

theorem print_followed (text : List Char) (idle : k.readers k.current = none) :
    Followed k (k.print text) := by
  intro state shows
  have taken : inputStep state (.print (ascii text)) =
      some { state with tty := state.tty.mapConsole (puts (ascii text)) } := by
    rw [inputStep, shows.idle idle]
  refine Shows.path _ taken ⟨?_, shows.readers⟩
  rw [shows.tty]
  rfl

theorem write_followed (bytes : List UInt8) (idle : k.readers k.current = none) :
    Followed k (k.mapTty (Tty.terminalWrite bytes)) := by
  intro state shows
  have taken : inputStep state (.write bytes) =
      some { state with tty := state.tty.terminalWrite bytes } := by
    rw [inputStep, shows.idle idle]
  refine Shows.path _ taken ⟨?_, shows.readers⟩
  rw [shows.tty]
  rfl

theorem startRead_followed (buf : Nat) (nbytes : Int) (idle : k.readers k.current = none) :
    Followed k (k.startRead buf nbytes) := by
  intro state shows
  have taken : inputStep state (.call nbytes) = some { state with
      readers := Function.update state.readers state.current (some (Tty.ReadCall.start nbytes)) } := by
    rw [inputStep, shows.idle idle]
  refine Shows.path _ taken ?_
  have started := @Shows.setReader k state shows k.tty
    (some { call := Tty.ReadCall.start nbytes, buf := buf })
  exact ⟨shows.tty, started.readers⟩

theorem readAccess_followed {user : UserRead} (reading : k.readers k.current = some user)
    (done : k.readAccess user = some next) : Followed k next := by
  intro state shows
  have reader : state.readers state.current = some user.call := by
    rw [shows.current, shows.readers, reading]
    rfl
  have taken : inputStep state .step = some (state.advanced user.call) := by
    rw [inputStep, reader]
    rfl
  refine Shows.path _ taken ?_
  rw [readAccess] at done
  cases outcome : k.tty.readStep k.current user.call with
  | finished bytes tty =>
      have same : state.tty.readStep state.current user.call = .finished bytes tty := by
        rw [shows.tty, shows.current, outcome]
      rw [outcome] at done
      cases done
      rw [InputState.advanced_finished same]
      have set := @Shows.setReader k state shows tty none
      exact ⟨rfl, set.readers⟩
  | running call tty =>
      have same : state.tty.readStep state.current user.call = .running call tty := by
        rw [shows.tty, shows.current, outcome]
      rw [outcome] at done
      rw [InputState.advanced_running same]
      have set := @Shows.setReader k state shows tty (some { user with call := call })
      dsimp only at done
      split at done
      · obtain ⟨⟨mem, rfl⟩, -⟩ := storeByte_stored done
        exact ⟨rfl, set.readers⟩
      · cases done
        exact set

theorem keyEvent_tty {code : UInt8} {regs : SaveRegs} {stale : Dentry}
    (done : k.keyEvent image code regs stale = some next) :
    k.tty.KeyInRow code ∧ next.tty = k.tty.afterKey code ∧ next.readers = k.readers := by
  rw [keyEvent] at done
  split at done
  · rename_i inRow
    refine ⟨inRow, ?_⟩
    cases handled : k.tty.keyboardHandler code with
    | returned tty =>
        rw [handled] at done
        cases done
        exact ⟨(Tty.afterKey_of_returned handled).symm, rfl⟩
    | switched target tty =>
        rw [handled] at done
        dsimp only at done
        rw [Tty.afterKey_of_switched handled]
        cases switchTerminal_brought done with
        | shell unvisited loaded => exact ⟨rfl, rfl⟩
        | program visited top last loaded => exact ⟨rfl, rfl⟩
  · cases done

theorem keyEvent_followed {code : UInt8} {regs : SaveRegs} {stale : Dentry}
    (done : k.keyEvent image code regs stale = some next) : Followed k next := by
  intro state shows
  obtain ⟨inRow, tty, readers⟩ := keyEvent_tty done
  have taken : inputStep state (.key code) = some (state.pressed code) := by
    rw [inputStep, if_pos (shows.tty ▸ inRow)]
  refine Shows.path _ taken ⟨?_, ?_⟩
  · rw [tty, ← shows.tty]
    rfl
  · rw [readers]
    exact shows.readers

/-! ### The other calls -/

theorem executeFailed_followed {command : List UInt8} {stale : Stale} {ret : Int}
    (idle : k.readers k.current = none)
    (done : k.systemExecute image command stale = some (.failed ret next)) : Followed k next := by
  rcases systemExecute_effect done with rfl | ⟨text, rfl⟩
  · exact (Silent.refl _).followed
  · exact print_followed text idle

theorem executeStarted_silent {command : List UInt8} {stale : Stale}
    (done : k.systemExecute image command stale = some (.started next)) : Silent k next := by
  obtain ⟨slot, pcb, dentry, entry, -, -, launched⟩ := systemExecute_effect done
  obtain ⟨loaded, copied, rfl⟩ := Option.map_eq_some_iff.mp launched
  obtain ⟨⟨mem, rfl⟩, -⟩ := storeBytes_stored copied
  exact ⟨rfl, rfl⟩

theorem returnSyscall_followed {stale : Stale} (idle : k.readers k.current = none)
    (done : k.returnSyscall image stale process = some next) : Followed k next := by
  cases returnSyscall_returned done with
  | resumed linked => exact Silent.followed ⟨rfl, rfl⟩
  | relaunched base executed =>
      have quiet : Silent k (k.clearedTop process) := ⟨rfl, rfl⟩
      have printed := @print_followed (k.clearedTop process)
        ['r', 'e', 'l', 'a', 'u', 'n', 'c', 'h', 'i', 'n', 'g', '\n'] idle
      exact (quiet.followed.trans printed).trans (executeStarted_silent executed).followed

theorem systemHalt_followed {stale : Stale} (idle : k.readers k.current = none)
    (running : k.foreground = some process)
    (done : k.systemHalt image stale process = some next) : Followed k next := by
  obtain ⟨middle, closing, returned⟩ := Option.bind_eq_some_iff.mp done
  have closed := closeAll_closed closing
  have current : middle.current = k.current :=
    congrArg ProcessTable.current (closed.local running).table
  have idle' : middle.readers middle.current = none := by
    rw [closed.silent.readers, current, idle]
  exact closed.silent.followed.trans (returnSyscall_followed idle' returned)

theorem Opened.silent (opened : Opened process k next) : Silent k next := by
  cases opened with
  | refused => exact Silent.refl k
  | rtc free fops => exact ⟨rfl, rfl⟩
  | file free => exact ⟨rfl, rfl⟩

theorem Reading.followed {fd nbytes : Int} {buf : Nat}
    (read : Reading image process fd buf nbytes k next) (idle : k.readers k.current = none) :
    Followed k next := by
  cases read with
  | refused => exact (Silent.refl _).followed
  | terminal => exact startRead_followed buf nbytes idle
  | rtc rtc => exact Silent.followed ⟨rfl, rfl⟩
  | file used fops done =>
      obtain ⟨owner, mem, -, rfl, -⟩ := fileRead_effect done
      exact Silent.followed ⟨rfl, rfl⟩

theorem Wrote.followed {bytes : List UInt8} (wrote : Wrote bytes k next)
    (idle : k.readers k.current = none) : Followed k next := by
  cases wrote with
  | refused => exact (Silent.refl _).followed
  | terminal => exact write_followed bytes idle
  | rtc rtc => exact Silent.followed ⟨rfl, rfl⟩

theorem step_followed {event : Event} (done : k.step image event = some next) : Followed k next := by
  cases step_occurs done with
  | key done => exact keyEvent_followed done
  | rtcTick => exact Silent.followed ⟨rfl, rfl⟩
  | firstShell done => exact (executeStarted_silent done).followed
  | readAccess reading done => exact readAccess_followed reading done
  | executeFailed running done => exact executeFailed_followed (running_idle running) done
  | executeStarted running done => exact (executeStarted_silent done).followed
  | halt running done =>
      exact systemHalt_followed (running_idle running) (running_foreground running) done
  | read running read => exact read.followed (running_idle running)
  | write running wrote => exact wrote.followed (running_idle running)
  | opened running opened => exact opened.silent.followed
  | closed running done => exact (systemClose_closed done).silent.followed
  | stored running stored => exact stored.silent.followed

/-- Every run of the kernel is, for the terminals, a run of the input machine. -/
theorem run_followed {ok : Kernel → Event → Prop} {events : List Event}
    (path : Path (step image) ok k events next) (shows : Shows k state) :
    ∃ inputs state', Path inputStep (fun _ _ => True) state inputs state' ∧ Shows next state' :=
  path.simulate (fun _ _ _ state shows done => step_followed done state shows) shows

end Kernel

end G29Os
