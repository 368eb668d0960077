import G29Os.DescriptorEntries
import G29Os.FirstFit

/-!
The descriptor tables. In every reachable state descriptors 0 and 1 of a live process are its
terminal and every descriptor in use has an operations table, so that opening and closing are
what they do to the set of open descriptors.
-/

namespace G29Os

open StepRun

namespace FileArray

variable {files : FileArray} {fd : Fin 8}

end FileArray

/-- Descriptors 0 and 1 are the terminal, and one in use can be dispatched through. -/
def SaneEntry (fd : Fin 8) (entry : Fd) : Prop :=
  (fd.val < fdBegin → entry = Fd.console) ∧ (entry.flags = true → entry.fopsPtr ≠ none)

theorem saneEntry_rule (image : Image) : EntryRule image SaneEntry where
  fresh stale fd := by
    simp only [SaneEntry, newPcbInit]
    split
    · exact ⟨fun _ => rfl, fun _ => Option.some_ne_none _⟩
    · rename_i beyond
      exact ⟨fun low => absurd low beyond, fun used => by cases used⟩
  closed fd beyond := ⟨fun low => absurd low (Nat.not_lt.mpr beyond), fun used => by cases used⟩
  opened fd before entry beyond _ opened := by
    refine ⟨fun low => absurd low (Nat.not_lt.mpr beyond), fun _ => ?_⟩
    cases opened <;> exact Option.some_ne_none _
  moved fd own entry position sane file kept := by
    refine ⟨fun low => ?_, kept.2⟩
    rw [sane.1 low] at file
    cases file

namespace Kernel

variable {image : Image} {k next middle : Kernel} {process slot : Slot}

/-! ### No code opens the RTC for good -/

theorem closeEntry_rtc {fd : Fin 8} (unopened : k.rtc.rtcOpenFlag = false)
    (done : k.closeEntry process fd = some next) : next.rtc.rtcOpenFlag = false := by
  rw [closeEntry] at done
  split at done
  · cases done
  · cases done
    rfl
  · cases done
    exact unopened

theorem systemClose_rtc {fd ret : Int} (unopened : k.rtc.rtcOpenFlag = false)
    (done : k.systemClose process fd = some (ret, next)) : next.rtc.rtcOpenFlag = false := by
  rw [systemClose] at done
  split at done
  · cases done
    exact unopened
  · obtain ⟨closed, entry, same⟩ := Option.map_eq_some_iff.mp done
    cases same
    exact closeEntry_rtc unopened entry

theorem closeAll_rtc {count : Nat} (unopened : k.rtc.rtcOpenFlag = false)
    (done : k.closeAll process count = some next) : next.rtc.rtcOpenFlag = false := by
  induction count generalizing next with
  | zero =>
      cases done
      exact unopened
  | succ count ih =>
      obtain ⟨middle, before, last⟩ := Option.bind_eq_some_iff.mp done
      obtain ⟨⟨ret, closed⟩, call, same⟩ := Option.map_eq_some_iff.mp last
      cases same
      exact systemClose_rtc (ih before) call

theorem executeStarted_rtc {command : List UInt8} {stale : Stale}
    (done : k.systemExecute image command stale = some (.started next)) : next.rtc = k.rtc := by
  obtain ⟨slot, dentry, entry, -, -, -, launched⟩ := systemExecute_started done
  obtain ⟨loaded, copied, rfl⟩ := Option.map_eq_some_iff.mp launched
  obtain ⟨⟨mem, rfl⟩, -⟩ := storeBytes_stored copied
  rfl

theorem returnSyscall_rtc {stale : Stale} (done : k.returnSyscall image stale process = some next) :
    next.rtc = k.rtc := by
  cases returnSyscall_returned done with
  | resumed linked => rfl
  | relaunched base executed => exact (executeStarted_rtc executed).trans rfl

theorem systemRead_rtc {fd nbytes : Int} {buf : Nat} {ret : Option Int}
    (done : k.systemRead image process fd buf nbytes = some (ret, next)) :
    next.rtc.rtcOpenFlag = k.rtc.rtcOpenFlag := by
  rw [systemRead] at done
  split at done
  · cases done
    rfl
  · split at done
    · cases done
      rfl
    · split at done
      · cases done
      · cases done
        rfl
      · obtain ⟨rtc, ticked, same⟩ := Option.map_eq_some_iff.mp done
        cases same
        rw [rtcRead] at ticked
        split at ticked
        · cases ticked
          rfl
        · cases ticked
      · obtain ⟨⟨count, read⟩, taken, same⟩ := Option.map_eq_some_iff.mp done
        cases same
        obtain ⟨owner, mem, -, rfl, -⟩ := fileRead_effect taken
        rfl

theorem systemWrite_rtc {fd ret : Int} {bytes : List UInt8}
    (done : k.systemWrite process fd bytes = some (ret, next)) :
    next.rtc.rtcOpenFlag = k.rtc.rtcOpenFlag := by
  rw [systemWrite] at done
  split at done
  · cases done
    rfl
  · split at done
    · cases done
    · cases done
      rfl
    · cases done
      rfl
    · cases done
      rfl

theorem keyEvent_rtc {code : UInt8} {regs : SaveRegs} {stale : Dentry}
    (done : k.keyEvent image code regs stale = some next) : next.rtc = k.rtc := by
  rw [keyEvent] at done
  split at done
  · split at done
    · cases done
      rfl
    · cases switchTerminal_brought done with
      | shell unvisited loaded => rfl
      | program visited top last loaded => rfl
  · cases done

theorem Opened.rtcUnchanged (opened : Opened process k next) : next.rtc = k.rtc := by
  cases opened with
  | refused => rfl
  | rtc free fops => rfl
  | file free => rfl

theorem readAccess_rtc {user : UserRead} (done : k.readAccess user = some next) : next.rtc = k.rtc := by
  rw [readAccess] at done
  split at done
  · cases done
    rfl
  · dsimp only at done
    split at done
    · obtain ⟨⟨mem, rfl⟩, -⟩ := storeByte_stored done
      rfl
    · cases done
      rfl

theorem programEvent_rtc {event : Event} (unopened : k.rtc.rtcOpenFlag = false)
    (done : k.programEvent image process event = some next) : next.rtc.rtcOpenFlag = false := by
  cases event with
  | key code regs stale => cases done
  | rtcTick => cases done
  | firstShell stale => cases done
  | readAccess => cases done
  | execute command stale =>
      cases called : k.systemExecute image command stale with
      | none =>
          rw [programEvent, called] at done
          cases done
      | some outcome =>
          rw [programEvent, called] at done
          cases outcome with
          | failed ret failed =>
              cases done
              rcases systemExecute_effect called with rfl | ⟨text, rfl⟩
              · exact unopened
              · exact unopened
          | started begun =>
              cases done
              rw [executeStarted_rtc called]
              exact unopened
  | halt stale =>
      obtain ⟨closed, closing, returned⟩ := Option.bind_eq_some_iff.mp done
      rw [returnSyscall_rtc returned]
      exact closeAll_rtc unopened closing
  | read fd buf nbytes =>
      obtain ⟨⟨ret, read⟩, call, rfl⟩ := Option.map_eq_some_iff.mp done
      rw [systemRead_rtc (readCall_read call).2]
      exact unopened
  | write fd bytes =>
      obtain ⟨⟨ret, written⟩, call, rfl⟩ := Option.map_eq_some_iff.mp done
      rw [systemWrite_rtc call]
      exact unopened
  | «open» filename =>
      obtain ⟨⟨ret, opened⟩, call, rfl⟩ := Option.map_eq_some_iff.mp done
      have same := (systemOpen_opened image process filename k).rtcUnchanged
      rw [(openCall_opened call).2] at same
      rw [same]
      exact unopened
  | close fd =>
      obtain ⟨⟨ret, closed⟩, call, rfl⟩ := Option.map_eq_some_iff.mp done
      exact systemClose_rtc unopened call
  | getargs buf nbytes behind =>
      obtain ⟨⟨ret, stored⟩, call, rfl⟩ := Option.map_eq_some_iff.mp done
      obtain ⟨⟨mem, rfl⟩, -⟩ := systemGetargs_stored call
      exact unopened
  | vidmap screenStart =>
      obtain ⟨⟨ret, stored⟩, call, rfl⟩ := Option.map_eq_some_iff.mp done
      obtain ⟨⟨mem, rfl⟩, -⟩ := systemVidmap_stored call
      exact unopened
  | store v byte =>
      obtain ⟨⟨mem, rfl⟩, -⟩ := storeByte_stored done
      exact unopened

theorem step_rtc {event : Event} (unopened : k.rtc.rtcOpenFlag = false)
    (done : k.step image event = some next) : next.rtc.rtcOpenFlag = false := by
  have program (call : (k.running.bind fun process => k.programEvent image process event) =
      some next) : next.rtc.rtcOpenFlag = false := by
    obtain ⟨process, -, called⟩ := Option.bind_eq_some_iff.mp call
    exact programEvent_rtc unopened called
  cases event with
  | key code regs stale =>
      rw [keyEvent_rtc done]
      exact unopened
  | rtcTick =>
      cases done
      exact unopened
  | firstShell stale =>
      rw [executeStarted_rtc (firstShell_executed done)]
      exact unopened
  | readAccess =>
      obtain ⟨user, -, access⟩ := Option.bind_eq_some_iff.mp done
      rw [readAccess_rtc access]
      exact unopened
  | execute command stale => exact program done
  | halt stale => exact program done
  | read fd buf nbytes => exact program done
  | write fd bytes => exact program done
  | «open» filename => exact program done
  | close fd => exact program done
  | getargs buf nbytes behind => exact program done
  | vidmap screenStart => exact program done
  | store v byte => exact program done

theorem Booted.rtc (booted : Booted image k) : k.rtc.rtcOpenFlag = false := by
  obtain ⟨raw, stale2, stale3, fileHeader, statics, done⟩ := booted
  obtain ⟨middle, second, third⟩ := initTerminals_built done
  obtain ⟨⟨mem, rfl⟩, -⟩ := storeBytes_stored third
  obtain ⟨⟨mem', rfl⟩, -⟩ := storeBytes_stored second
  exact statics.rtcUnopened

theorem rtc_reachable (reached : Reachable (step image) (Booted image) k) :
    k.rtc.rtcOpenFlag = false :=
  reached.invariant (fun k => k.rtc.rtcOpenFlag = false) (fun _ booted => booted.rtc)
    fun _ _ _ unopened done => step_rtc unopened done

/-! ### The law -/

def KnownTypes (image : Image) : Prop :=
  ∀ index, index < directoryEntries →
    (image.directoryEntry (UInt32.ofNat index)).type = 0 ∨
      (image.directoryEntry (UInt32.ofNat index)).type = 1 ∨
      (image.directoryEntry (UInt32.ofNat index)).type = 2

instance (image : Image) : Decidable (KnownTypes image) :=
  inferInstanceAs (Decidable (∀ index, index < directoryEntries → _))

theorem KnownTypes.found (known : KnownTypes image) {name : Nat → UInt8} {dentry : Dentry}
    (found : image.readDentryByName name = some dentry) :
    dentry.type = 0 ∨ dentry.type = 1 ∨ dentry.type = 2 := by
  have member := List.mem_of_find?_eq_some found
  obtain ⟨index, listed, rfl⟩ := List.mem_map.mp member
  exact known index (List.mem_range.mp listed)

def openFds (k : Kernel) (process : Slot) : Set (Fin 8) := {fd | (k.descriptor process fd).flags = true}

theorem openCall_contained {filename : List UInt8} (contained : openContained image filename) :
    k.openCall image process filename = some (k.systemOpen image process filename) := if_pos contained

theorem inUse_none {first : Nat} {fd : Int}
    (unused : ∀ index : Fin 8, fd = index.val → first ≤ index.val → index ∉ k.openFds process) :
    (k.pcbs process).fileArray.inUse first fd = none := by
  cases found : (k.pcbs process).fileArray.inUse first fd with
  | none => rfl
  | some index =>
      exact absurd (FileArray.inUse_flags found)
        (unused index (FileArray.inUse_index found) (FileArray.inUse_low found))

theorem closeAll_unopened (closed : ∀ fd : Fin 8, fdBegin ≤ fd.val → (k.descriptor process fd).flags = false)
    (count : Nat) : k.closeAll process count = some k := by
  induction count with
  | zero => rfl
  | succ count ih =>
      have unused : (k.pcbs process).fileArray.inUse fdBegin count = none := by
        refine inUse_none fun index _ above used => ?_
        have open_ : (k.descriptor process index).flags = true := used
        rw [closed index above] at open_
        cases open_
      rw [closeAll, ih, Option.bind_some, systemClose, unused]
      rfl

end Kernel

end G29Os
