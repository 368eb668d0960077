import G29Os.Dialogues
import G29Os.ExitStatus
import G29Os.HeardLines
import G29Os.LineEditor
import G29Os.ProcessStacks
import G29Os.SessionCalls

/-!
The kernel keeps what a dialogue promises. A read of the terminal and an `execute` come back after
many steps of others: of the keyboard, of other terminals and of the program that was started.
-/

namespace G29Os

open CallTree PageTables StepRun

/-- No entry of the directory names a file that its program page has no room for. -/
def Image.Loads (image : Image) : Prop :=
  ∀ slot, slot < directoryEntries → Kernel.imageOffset + image.length (image.slotEntry slot).inode ≤ mb4

instance (image : Image) : Decidable image.Loads := inferInstanceAs (Decidable (∀ _, _ → _))

namespace Kernel

variable {image : Image} {k next : Kernel} {process : Slot}

/-- A key switches to another terminal only while the program in front waits in the loop of
`terminal_read`, or is another than `process` and in user mode. `reload_program` brings no more than
`eax`, `esp`, `ebp` and `eip` back, and only the wait needs no more. -/
def Steady (process : Slot) (k : Kernel) : Event → Prop
  | .key code .. => (k.tty.afterKey code).currTerminal = k.current ∨
      match k.readers k.current with
      | some user => user.call.stage = .waiting
      | none => k.foreground ≠ some process
  | _ => True

/-- A call and what it comes back with. The bytes that a read heard are those that it has moved. -/
inductive Replies (image : Image) (process : Slot) (k : Kernel) : Ask → Reply → Kernel → Prop
  | called {request : SysCall} {reply : Reply} {buf : Nat} {behind : Nat → UInt8} {next : Kernel}
      (done : k.call image process buf behind request = some (reply, next)) :
      Replies image process k (.call request) reply next
  | heard {fd nbytes : Int} {buf : Nat} {started last next : Kernel} {events : List Event}
      {user : UserRead} {bytes : List UInt8} {tty : Tty}
      (began : k.systemRead image process fd buf nbytes = some (none, started))
      (waits : Path (step image)
        (fun state event => (state.readers k.current).isSome ∧ Steady process state event)
        started events last)
      (front : last.current = k.current) (reading : last.readers k.current = some user)
      (copied : last.tty.readStep k.current user.call = .finished bytes tty)
      (done : last.readAccess user = some next) :
      Replies image process k (.call (.read fd nbytes)) ⟨bytes.length, bytes⟩ next
  | refused {command : List UInt8} {stale : Stale} {ret : Int} {next : Kernel}
      (done : k.systemExecute image command stale = some (.failed ret next)) :
      Replies image process k (.execute command) ⟨ret, []⟩ next
  | ran {command : List UInt8} {stale stale' : Stale} {begun last next : Kernel} {child : Slot}
      {events : List Event} {status : UInt8} {value : Int}
      (began : k.systemExecute image command stale = some (.started begun))
      (starts : begun.foreground = some child)
      (waits : Path (step image)
        (fun state event => ((∃ stale, event = .halt stale) → state.running ≠ some child) ∧
          Steady process state event) begun events last)
      (front : last.running = some child)
      (halted : last.haltStatus image status stale' child = some (value, next)) :
      Replies image process k (.execute command) ⟨value, []⟩ next

def Outside (process : Slot) (k : Kernel) : Event → Prop
  | .key code regs stale => Steady process k (.key code regs stale)
  | .rtcTick => True
  | .firstShell _ => True
  | .readAccess => True
  | .store .. => True
  | _ => k.running ≠ some process

/-! ### What `execute` finds -/

theorem length_commandText (command : List UInt8) : (commandText command).length ≤ command.length :=
  (List.takeWhile_sublist _).length_le

theorem mem_commandName {command : List UInt8} {c : UInt8} (listed : c ∈ commandName command) : c ≠ 0 := by
  have text : c ∈ commandText command := List.takeWhile_sublist _ |>.subset listed
  simpa using List.mem_takeWhile_imp text

theorem take_prefix_magic {content : List UInt8} :
    content.take 4 <+: elfMagic ↔ ∀ k, k < 4 → (inside : k < content.length) →
      content[k] = elfMagic.getD k 0 := by
  rw [List.prefix_iff_getElem?]
  constructor
  · intro agrees k bound inside
    have within : k < (content.take 4).length := by
      rw [List.length_take]
      omega
    have same := agrees k within
    rw [List.getElem_take] at same
    rw [List.getD_eq_getElem?_getD, same]
    rfl
  · intro agrees k within
    rw [List.length_take] at within
    have same := agrees k (by omega) (by omega)
    have bound : k < elfMagic.length := by
      change k < 4
      omega
    rw [List.getElem_take, same, List.getElem?_eq_getElem bound, List.getD_eq_getElem _ _ bound]

theorem findProgram_content {name : List UInt8} {header : Nat → UInt8} {dentry : Dentry}
    (named : image.readDentryByName (textOf name) = some dentry)
    (small : (image.inodeLength dentry.inode).toNat ≤ 4096 * 1023) :
    (∀ found, findProgram image name header = some found → (image.content dentry.inode).take 4 <+: elfMagic) ∧
      (findProgram image name header = none → ¬elfMagic <+: image.content dentry.inode) := by
  have length : (image.content dentry.inode).length = (image.inodeLength dentry.inode).toNat := by
    simp [Image.content, Image.length]
  have byte (k : Nat) (bound : k < 4) (inside : k < (image.content dentry.inode).length) :
      (readData image dentry.inode 0 header elfSize).buf k = (image.content dentry.inode)[k] := by
    rw [readData_header small, if_pos ⟨by omega, length ▸ inside⟩]
    simp [Image.content]
  constructor
  · intro found is
    rw [take_prefix_magic]
    intro k bound inside
    rw [← byte k bound inside]
    obtain ⟨entry, same⟩ : ∃ entry, found = (dentry, entry) := by
      simp only [findProgram, named] at is
      split at is
      · exact ⟨_, (Option.some.inj is).symm⟩
      · cases is
    exact (findProgram_header named (same ▸ is)).1 k bound
  · intro missing starts
    simp only [findProgram, named] at missing
    split at missing
    · cases missing
    · rename_i differs
      refine differs (magic_iff.mpr fun k bound => ?_)
      obtain ⟨rest, content⟩ := starts
      have inside : k < (image.content dentry.inode).length := by
        rw [← content, List.length_append]
        exact Nat.lt_of_lt_of_le bound (Nat.le_add_right 4 _)
      rw [byte k bound inside]
      have own : k < elfMagic.length := bound
      simp only [← content, List.getElem_append_left own, List.getD_eq_getElem _ _ own]

theorem runs_findProgram (formatted : image.Formatted) {command : List UInt8} {header : Nat → UInt8} :
    (∀ found, findProgram image (commandName command) header = some found →
      (Image.volume formatted).Runs command 0) ∧
    (findProgram image (commandName command) header = none → (Image.volume formatted).Runs command (-1)) := by
  rw [Volume.Runs, Volume.Runs]
  by_cases word : commandName command = []
  · rw [if_pos word, if_pos word]
    exact ⟨fun _ _ => Or.inl rfl, fun _ => Or.inr rfl⟩
  · rw [if_neg word, if_neg word]
    obtain ⟨agree, listed⟩ :=
      Image.readDentryByName_volume formatted word fun _ member => mem_commandName member
    cases named : image.readDentryByName (textOf (commandName command)) with
    | none =>
        rw [named] at agree
        rw [← agree]
        refine ⟨fun found is => ?_, fun _ => rfl⟩
        simp only [findProgram, named] at is
        cases is
    | some dentry =>
        obtain ⟨slot, used, rfl⟩ := listed dentry named
        rw [named, Option.map_some] at agree
        rw [← agree, Image.dentryNode]
        by_cases clock : (image.slotEntry slot).type = 0
        · rw [if_pos clock]
          exact ⟨fun _ _ => Or.inl rfl, fun _ => Or.inr rfl⟩
        · by_cases directory : (image.slotEntry slot).type = 1
          · rw [if_neg clock, if_pos directory]
            exact ⟨fun _ _ => Or.inl rfl, fun _ => Or.inr rfl⟩
          · rw [if_neg clock, if_neg directory]
            have regular := ((formatted.known slot used).resolve_left clock).resolve_left directory
            obtain ⟨passes, fails⟩ :=
              @findProgram_content image _ header _ named (formatted.files slot used regular).small
            exact ⟨fun found is => Or.inl ⟨rfl, passes found is⟩, fun missing => Or.inr ⟨rfl, fails missing⟩⟩

/-! ### Waiting -/

variable {fd nbytes : Int} {buf : Nat} {started last : Kernel} {events : List Event} {below : List Slot}

theorem systemRead_waits (began : k.systemRead image process fd buf nbytes = some (none, started)) :
    started = k.startRead buf nbytes := by
  rw [systemRead] at began
  split at began
  · cases began
  · split at began
    · cases began
    · split at began
      · cases began
      · cases began
        rfl
      · obtain ⟨rtc, -, same⟩ := Option.map_eq_some_iff.mp began
        cases same
      · obtain ⟨read, -, same⟩ := Option.map_eq_some_iff.mp began
        cases same

theorem readCall_waits (began : k.systemRead image process fd buf nbytes = some (none, started)) :
    k.readCall image process fd buf nbytes = some (none, started) := by
  have contained : k.readContained image process fd := by
    intro entry found
    obtain ⟨other, index, owner, used, file, last, -⟩ := readEntry_eq.mp found
    have dispatch : ((k.pcbs process).fileArray index).fopsPtr = some .file := file
    rw [systemRead, if_neg other, used] at began
    simp only [dispatch] at began
    obtain ⟨read, -, same⟩ := Option.map_eq_some_iff.mp began
    cases same
  rw [readCall, if_pos contained, began]

theorem alive_foreground (reached : Reachable (step image) (Booted image) k)
    (front : k.foreground = some process) : ∃ below, Alive k k.current process below k := by
  obtain ⟨bank, stacked⟩ := stacked_reachable reached
  obtain ⟨below, stack⟩ := stacked.top front
  exact ⟨below, ⟨bank, stacked, stack ▸ List.suffix_rfl⟩, fun _ _ => rfl⟩

theorem Alive.waits (alive : Alive k k.current process below started)
    (waits : Path (Kernel.step image) (fun state _ => (state.readers k.current).isSome) started events last) :
    Alive k k.current process below last := by
  refine waits.preserves (Alive k k.current process below) (fun state event next reads alive done => ?_) alive
  refine alive.step done fun _ running => ?_
  rcases eq_or_ne k.current state.current with here | away
  · rw [here, running_idle running] at reads
    cases reads
  · exact alive.background away running

theorem waits_resumed {command : List UInt8} {stale stale' : Stale} {begun : Kernel} {child : Slot}
    {status : UInt8} {value : Int} (reached : Reachable (step image) (Booted image) k)
    (running : k.running = some process)
    (began : k.systemExecute image command stale = some (.started begun))
    (starts : begun.foreground = some child)
    (waits : Path (step image)
      (fun state event => (∃ stale, event = .halt stale) → state.running ≠ some child) begun events last)
    (front : last.running = some child)
    (halted : last.haltStatus image status stale' child = some (value, next)) :
    value = 0 ∧ (∃ events, Path (step image) (fun _ _ => True) k events next) ∧
      next.pcbTrack process = true := by
  have executed : k.step image (.execute command stale) = some begun := by
    simp only [step, running, Option.bind_some, programEvent, began, Kernel.executed]
  have reached' := reached.next executed
  have live := ((sound_reachable reached').live_foreground starts).1
  obtain ⟨terminal, under, alive, ancestors⟩ := path_alive reached' live waits
  obtain ⟨slot, dentry, entry, free, -, -, launch⟩ := systemExecute_started began
  have pcb := launch_pcb launch
  have top : begun.foreground = some slot := by
    obtain ⟨loaded, copied, rfl⟩ := Option.map_eq_some_iff.mp launch
    obtain ⟨⟨mem, rfl⟩, -⟩ := storeBytes_stored copied
    exact Function.update_self ..
  obtain rfl : slot = child := Option.some.inj (top.symm.trans starts)
  have linked : Parent begun slot process := by
    rw [Parent, pcb]
    exact running_foreground running
  have kept := alive.kept (ancestors process (Relation.ReflTransGen.single linked))
  have own := alive.kept (ancestors slot Relation.ReflTransGen.refl)
  obtain ⟨zero, done⟩ := haltStatus_value halted
  have stepped : last.step image (.halt stale') = some next := by
    simp only [step, front, Option.bind_some, programEvent, done]
  have ends := reached'.path waits
  have path : Path (step image) (fun _ _ => True) k _ next :=
    Path.cons trivial executed ((waits.mono fun _ _ _ => trivial).append (Path.cons trivial stepped (Path.nil next)))
  refine ⟨zero, ⟨_, path⟩, ?_⟩
  have parent : (last.pcbs slot).parentPtr = some process := by
    rw [own.2]
    exact linked
  have apart : process ≠ slot := by
    rintro rfl
    rw [((sound_reachable reached).live_foreground (running_foreground running)).1] at free
    cases free
  rcases systemHalt_effect (running_foreground front) done with ⟨above, ended, -⟩ | ⟨middle, top, ended, -⟩
  · exact (ended.kept (sound_reachable ends) apart kept.1).live
  · cases parent.symm.trans ended.linked

theorem waits_heard {user : UserRead} {bytes : List UInt8} {tty : Tty}
    (reached : Reachable (step image) (PoweredOn image) k) (running : k.running = some process)
    (nonneg : 0 ≤ nbytes) (began : k.systemRead image process fd buf nbytes = some (none, started))
    (waits : Path (step image) (fun state _ => (state.readers k.current).isSome) started events last)
    (front : last.current = k.current) (reading : last.readers k.current = some user)
    (copied : last.tty.readStep k.current user.call = .finished bytes tty)
    (done : last.readAccess user = some next) :
    ((bytes.length : Int) ≤ nbytes ∧ bytes.length < lineBuffer) ∧
      (∃ events, Path (step image) (fun _ _ => True) k events next) ∧ next.pcbTrack process = true := by
  have called : k.step image (.read fd buf nbytes) = some started := by
    simp only [step, running, Option.bind_some, programEvent, readCall_waits began, Option.map_some]
  have accessed : last.step image .readAccess = some next := by
    simp only [step, front, reading, Option.bind_some, done]
  have booted : Reachable (step image) (Booted image) k := reached.mono fun _ poweredOn => poweredOn.1
  obtain ⟨below, alive⟩ := alive_foreground booted (running_foreground running)
  have begun : Alive k k.current process below started :=
    alive.step called (by rintro ⟨_, ⟨⟩⟩)
  have later : Alive k k.current process below next :=
    (begun.waits waits).step accessed (by rintro ⟨_, ⟨⟩⟩)
  have asks : started.readers k.current = some { call := Tty.ReadCall.start nbytes, buf := buf } := by
    rw [systemRead_waits began]
    exact Function.update_self ..
  have path : Path (step image) (fun _ _ => True) k _ next := Path.cons trivial called
    ((waits.mono fun _ _ _ => trivial).append (Path.cons trivial accessed (Path.nil next)))
  exact ⟨heard_bounded (reached.next called) asks nonneg waits reading copied, ⟨_, path⟩,
    (later.kept List.mem_cons_self).1⟩

/-! ### Coming back -/

structure Hearing (image : Image) (process : Slot) (line : List UInt8) (k : Kernel) (user : UserRead) :
    Prop where
  reached : Reachable (step image) (Booted image) k
  front : k.foreground = some process
  reading : k.readers k.current = some user
  buf : user.buf = mb128
  entered : k.tty.keyboardRead = true
  holds : HoldsString (k.tty.lineState k.current).readBuffer line
  serving : Tty.Serving line user.call
  fine : k.tty.LinesOk
  untyped : (k.tty.lineState k.current).size = 0

theorem Hearing.clears {line : List UInt8} {user : UserRead} (hearing : Hearing image process line k user) :
    ClearsUntyped k .readAccess := by
  intro other reads
  cases hearing.reading.symm.trans reads
  exact Tty.ReadStage.Untyped.ofEmpty fun _ => hearing.untyped

theorem storeByte_pokes (v : Nat) (byte : UInt8) (k : Kernel) :
    k.storeByte v byte = (pokes k.paging k.cr3 v [byte] k.mem).map fun mem => { k with mem := mem } := by
  have single : k.storeBytes v [byte] = k.storeByte v byte := by
    rw [storeBytes]
    cases k.storeByte v byte <;> rfl
  rw [← single, storeBytes_pokes]

theorem Hearing.access {line : List UInt8} {user : UserRead} (hearing : Hearing image process line k user) :
    (∃ user' next, k.step image .readAccess = some next ∧ Hearing image process line next user' ∧
      next.current = k.current ∧ Tty.remaining line user'.call < Tty.remaining line user.call) ∨
    ∃ bytes tty next, k.tty.readStep k.current user.call = .finished bytes tty ∧
      k.readAccess user = some next ∧ next.running = some process ∧ next.tty.LinesOk := by
  have goes (next : Kernel) (done : k.readAccess user = some next) : k.step image .readAccess = some next := by
    simp only [step, hearing.reading, Option.bind_some, done]
  have fine (next : Kernel) (done : k.readAccess user = some next) : next.tty.LinesOk :=
    step_linesOk hearing.fine hearing.clears (goes next done)
  have lines := Tty.readStep_lines (hearing.fine.lines k.current)
    (hearing.clears user hearing.reading : user.call.stage.Untyped _)
  rcases Tty.readStep_serving hearing.entered hearing.holds hearing.serving with
    ⟨call, tty, taken, serving, -, -, nearer, same⟩ | ⟨-, taken⟩
  · rw [taken] at lines
    let moved : Kernel := { k with
      tty := tty
      readers := Function.update k.readers k.current (some { user with call := call }) }
    have done : ∃ mem, k.readAccess user = some { moved with mem := mem } := by
      rw [readAccess, taken]
      dsimp only
      split
      · rename_i moving
        have room : user.call.moved.length + 1 ≤ mb4 := by
          have served := hearing.serving
          rw [Tty.Serving, moving] at served
          have short := hearing.holds.fits
          have part := served.2
          simp only [Tty.promised, List.length_take, lineBuffer] at part short
          simp only [mb4]
          omega
        have sound := sound_reachable hearing.reached
        obtain ⟨mem, written⟩ := pokes_some
          (sound.mapped.program process (sound.live_foreground hearing.front).1)
          (show user.call.moved.length +
            [k.tty.keyReadBuffer k.current user.call.moved.length].length ≤ mb4 from room) k.mem
        rw [← sound.front process hearing.front, ← hearing.buf] at written
        refine ⟨mem, (storeByte_pokes ..).trans ?_⟩
        rw [show moved.paging = k.paging from rfl, written]
        rfl
      · exact ⟨k.mem, rfl⟩
    obtain ⟨mem, done⟩ := done
    refine Or.inl ⟨{ user with call := call }, _, goes _ done, ?_, same.current, nearer⟩
    have current : tty.currTerminal = k.current := same.current
    have front : tty.lineState tty.currTerminal = k.tty.lineState k.current := by
      rw [current]
      exact congrFun lines k.current
    refine ⟨hearing.reached.next (goes _ done), ?_, ?_, hearing.buf, same.flag.trans hearing.entered, ?_,
      serving, fine _ done, ?_⟩
    · exact (congrArg k.currPcb current).trans hearing.front
    · change Function.update k.readers k.current _ tty.currTerminal = _
      rw [current, Function.update_self]
    · exact (congrArg LineState.readBuffer front) ▸ hearing.holds
    · exact (congrArg LineState.size front).trans hearing.untyped
  · have done : k.readAccess user = some { k with
        tty := Tty.setKeyboardRead false k.tty
        readers := Function.update k.readers k.current none } := by
      rw [readAccess, taken]
    exact Or.inr ⟨_, _, _, taken, done,
      running_of (Function.update_self ..) hearing.front, fine _ done⟩

theorem Hearing.comes {line : List UInt8} {user : UserRead} (hearing : Hearing image process line k user) :
    ∃ events last user' bytes tty next,
      Path (Kernel.step image)
        (fun state event => (state.readers k.current).isSome ∧ Steady process state event) k events last ∧
      last.current = k.current ∧ last.readers k.current = some user' ∧
      last.tty.readStep k.current user'.call = .finished bytes tty ∧ last.readAccess user' = some next ∧
      next.running = some process ∧ next.tty.LinesOk := by
  obtain ⟨budget, enough⟩ : ∃ budget, Tty.remaining line user.call ≤ budget := ⟨_, Nat.le_refl _⟩
  induction budget generalizing k user with
  | zero =>
      have positive : 0 < Tty.remaining line user.call := remaining_pos
      omega
  | succ budget ih =>
      rcases hearing.access with ⟨user', next, done, again, current, nearer⟩ | ⟨bytes, tty, next, copied, done, running, fine⟩
      · obtain ⟨events, last, later, bytes, tty, after, path, rest⟩ := ih again (by omega)
        rw [current] at path rest
        have waiting : (k.readers k.current).isSome := by
          rw [hearing.reading]
          rfl
        have steady : Steady process k .readAccess := trivial
        exact ⟨_, last, later, bytes, tty, after, Path.cons ⟨waiting, steady⟩ done path, rest⟩
      · exact ⟨[], k, user, bytes, tty, next, Path.nil k, rfl, hearing.reading, copied, done, running, fine⟩

theorem keyEvent_enter (fine : k.tty.LinesOk) (image : Image) :
    k.keyEvent image enter noRegs noDentry = some { k with tty := k.tty.afterKey enter } := by
  rw [keyEvent, if_pos fine.inRange.keyInRow, Tty.afterKey]
  have handled := @Tty.keyboardHandler_handled k.tty enter
  cases outcome : k.tty.keyboardHandler enter with
  | returned tty => rfl
  | switched target tty =>
      rw [outcome] at handled
      cases handled with
      | switched altDown asked => cases asked

theorem heard_comes (reached : Reachable (step image) (Booted image) k) (running : k.running = some process)
    (fine : k.tty.LinesOk)
    (began : k.systemRead image process fd mb128 nbytes = some (none, k.startRead mb128 nbytes)) :
    ∃ reply next, k.Replies image process (.call (.read fd nbytes)) reply next ∧
      next.running = some process ∧ next.tty.LinesOk := by
  let started := k.startRead mb128 nbytes
  let user : UserRead := { call := Tty.ReadCall.start nbytes, buf := mb128 }
  have called : k.step image (.read fd mb128 nbytes) = some started := by
    simp only [step, running, Option.bind_some, programEvent, readCall_waits began, Option.map_some,
      started]
  have asks : started.readers k.current = some user := Function.update_self ..
  let entered : Kernel := { started with tty := k.tty.afterKey enter }
  have pressed : started.step image (.key enter noRegs noDentry) = some entered :=
    @keyEvent_enter started fine image
  have current : entered.current = k.current := by
    change (k.tty.afterKey enter).currTerminal = k.tty.currTerminal
    rw [Tty.currTerminal_afterKey]
    split <;> rfl
  have line : entered.tty.lineState k.current = (k.tty.lineState k.current).enter := by
    change (k.tty.afterKey enter).lineState k.tty.currTerminal = _
    rw [Tty.lineState_afterKey, Function.update_self, LineState.key_enter]
    rfl
  have hearing : Hearing image process ((k.tty.lineState k.current).typed ++ [10]) entered user := by
    refine ⟨(reached.next called).next pressed, ?_, current.symm ▸ asks, rfl, ?_, ?_, rfl, fine.afterKey enter, ?_⟩
    · exact (congrArg k.currPcb current).trans (running_foreground running)
    · change (k.tty.afterKey enter).keyboardRead = true
      rw [Tty.keyboardRead_afterKey]
      simp
    · rw [current, line]
      exact (fine.lines k.current).enter_holds
    · rw [current, line]
      rfl
  obtain ⟨events, last, user', bytes, tty, next, path, front, reading, copied, done, runs, ends⟩ := hearing.comes
  rw [current] at path front reading copied
  have waiting : (started.readers k.current).isSome := by
    rw [asks]
    rfl
  have steady : Steady process started (.key enter noRegs noDentry) := Or.inl current
  exact ⟨_, next, .heard began (Path.cons ⟨waiting, steady⟩ pressed path) front reading copied done,
    runs, ends⟩

theorem loads_programBytes (loads : image.Loads) {command : List UInt8} {header : Nat → UInt8} {dentry : Dentry}
    {entry : UInt32} (found : findProgram image (commandName command) header = some (dentry, entry)) :
    imageOffset + (programBytes image dentry.inode (image.inodeLength dentry.inode)).length ≤ mb4 := by
  have string : IsCString (textOf (commandName command)) (commandName command) :=
    Image.isCString_textOf fun _ member => mem_commandName member
  have named : image.readDentryByName (textOf (commandName command)) = some dentry := by
    rw [findProgram] at found
    split at found
    · cases found
    · rename_i other named
      dsimp only at found
      split at found
      · cases found
        exact named
      · cases found
  obtain ⟨slot, bound, rfl, -⟩ := Image.readDentryByName_some string named
  have fits := loads slot bound
  rw [Image.length] at fits
  by_cases small : (image.inodeLength (image.slotEntry slot).inode).toNat ≤ 4096 * 1023
  · rw [programBytes_file image _ small, List.length_map, List.length_range]
    exact fits
  · rw [programBytes_empty image _ (Nat.lt_of_not_le small)]
    exact Nat.le_of_add_right_le fits

theorem running_print (text : List Char) : (k.print text).running = k.running := rfl

theorem linesOk_print (fine : k.tty.LinesOk) (text : List Char) : (k.print text).tty.LinesOk :=
  fine.of_eq rfl (fine.offset.of_eq rfl)

theorem ran_comes (running : k.running = some process) (fine : k.tty.LinesOk)
    (formatted : image.Formatted) (loads : image.Loads) {command : List UInt8}
    (short : command.length < lineBuffer) :
    ∃ reply next, k.Replies image process (.execute command) reply next ∧ next.running = some process ∧
      next.tty.LinesOk := by
  have word : (commandName command).length < lineBuffer := by
    have inside : (commandName command).length ≤ command.length :=
      (List.takeWhile_sublist _).length_le.trans (length_commandText command)
    omega
  cases found : findProgram image (commandName command) noStale.fileHeader with
  | none => exact ⟨_, k, .refused (systemExecute_iff.mpr (.unknown found)), running, fine⟩
  | some program =>
      obtain ⟨dentry, entry⟩ := program
      cases free : k.freeSlot with
      | none =>
          have failed : k.systemExecute image command noStale = some (.failed 0 (k.print noSlots)) :=
            systemExecute_iff.mpr (.full found free)
          exact ⟨_, _, .refused failed, (running_print noSlots).trans running, linesOk_print fine noSlots⟩
      | some slot =>
          obtain ⟨mem, loaded⟩ := pokes_some
            (programMapped_addPage : ProgramMapped (k.paging.addPage (frameOf slot) slot) slot)
            (loads_programBytes loads found) k.mem
          have contained : dentry.Contained 0 := by
            obtain ⟨place, listed, rfl⟩ :=
              List.mem_map.mp (List.mem_of_find?_eq_some (findProgram_dentry found))
            exact formatted.contained place (List.mem_range.mp listed)
          have kept : spilledName dentry (commandName command) = commandName command :=
            if_pos contained
          let name := spilledName dentry (commandName command)
          let begun := k.launched slot (namedPcb command name noStale.pcb) entry mem
          have began : k.systemExecute image command noStale = some (.started begun) :=
            systemExecute_iff.mpr (.started found free (by rw [kept]; exact word) loaded)
          have waits := running_idle running
          have idle : begun.readers begun.current = none := waits
          have starts : begun.foreground = some slot := Function.update_self ..
          have pcb : begun.pcbs slot = { namedPcb command name noStale.pcb with
              parentPtr := k.foreground
              physicalAddr := frameOf slot
              pid := slot } := Function.update_self ..
          have tty : begun.tty = k.tty := rfl
          clear_value begun
          have parent : (begun.pcbs slot).parentPtr = some process := by
            rw [pcb]
            exact running_foreground running
          have closed : begun.closeAll slot maxFd = some begun := by
            refine closeAll_unopened (fun fd above => ?_) maxFd
            have beyond : ¬fd.val < fdBegin := Nat.not_lt.mpr above
            simp only [descriptor, pcb, namedPcb, newPcbInit, if_neg beyond]
            rfl
          obtain ⟨next, returned, runs, ends⟩ : ∃ next,
              begun.returnSyscall image noStale slot = some next ∧ next.running = some process ∧
                next.tty = begun.tty := by
            rw [returnSyscall, parent]
            exact ⟨_, rfl, running_of idle (Function.update_self ..), rfl⟩
          have halted : begun.haltStatus image 0 noStale slot = some (0, next) := by
            rw [haltStatus_eq, systemHalt, closed, Option.bind_some, returned]
            rfl
          refine ⟨_, next, .ran began starts (Path.nil begun) (running_of idle starts) halted, runs, ?_⟩
          rw [ends, tty]
          exact fine

end Kernel

/-! ### A dialogue with the kernel -/

variable {image : Image} {formatted : image.Formatted} {process : Slot}

structure Overheard where
  kernel : Kernel
  log : List Exchange

structure Asks (image : Image) (process : Slot) (state : Overheard) (ask : Ask) (reply : Reply)
    (next : Overheard) : Prop where
  running : state.kernel.running = some process
  replied : state.kernel.Replies image process ask reply next.kernel
  recorded : next.log = state.log ++ [⟨ask, reply⟩]

def Meanwhile (image : Image) (process : Slot) (state next : Overheard) : Prop :=
  next.log = state.log ∧
    ∃ event, state.kernel.Outside process event ∧ state.kernel.step image event = some next.kernel

def Overheard.Ready (process : Slot) (state : Overheard) : Prop :=
  state.kernel.running = some process ∧ state.kernel.tty.LinesOk

structure Talks (image : Image) (process : Slot) (state : Overheard) (log : List Exchange) : Prop where
  live : state.kernel.pcbTrack process = true
  reached : Reachable (Kernel.step image) (Kernel.PoweredOn image) state.kernel
  log : state.log = log

namespace Talks

variable {state next : Overheard} {log : List Exchange} {ask : Ask} {reply : Reply}

theorem booted (talks : Talks image process state log) :
    Reachable (Kernel.step image) (Kernel.Booted image) state.kernel :=
  talks.reached.mono fun _ poweredOn => poweredOn.1

theorem passed (talks : Talks image process state log) (moved : Meanwhile image process state next) :
    Talks image process next log := by
  obtain ⟨same, event, outside, done⟩ := moved
  have path : Path (Kernel.step image)
      (fun kernel event => (∃ stale, event = .halt stale) → kernel.running ≠ some process)
      state.kernel [event] next.kernel := by
    refine Path.cons ?_ done (Path.nil next.kernel)
    rintro ⟨stale, rfl⟩
    exact outside
  obtain ⟨terminal, below, alive, -⟩ := Kernel.path_alive talks.booted talks.live path
  exact ⟨(alive.kept List.mem_cons_self).1, talks.reached.next done, same.trans talks.log⟩

theorem descriptor_console (talks : Talks image process state log) (fd : Fin 8) (low : fd.val < fdBegin) :
    state.kernel.descriptor process fd = Fd.console :=
  ((saneEntry_rule image).reachable talks.booted process (Or.inl talks.live) fd).1 low

theorem call_write (talks : Talks image process state log) (bytes : List UInt8) (buf : Nat)
    (behind : Nat → UInt8) : state.kernel.call image process buf behind (.write 1 bytes) =
      some (⟨bytes.length + 1, []⟩, state.kernel.mapTty (Tty.terminalWrite bytes)) := by
  have console := talks.descriptor_console 1 (by decide)
  have flags : ((state.kernel.pcbs process).fileArray 1).flags = true := congrArg Fd.flags console
  have used : (state.kernel.pcbs process).fileArray.inUse 1 1 = some 1 := by simp [FileArray.inUse, flags]
  have terminal : ((state.kernel.pcbs process).fileArray 1).fopsPtr = some .terminal :=
    congrArg Fd.fopsPtr console
  simp only [Kernel.call, Kernel.systemWrite, used, terminal, Option.map_some]

theorem systemRead_keyboard (talks : Talks image process state log) (buf : Nat) (nbytes : Int) :
    state.kernel.systemRead image process 0 buf nbytes = some (none, state.kernel.startRead buf nbytes) := by
  have console := talks.descriptor_console 0 (by decide)
  have flags : ((state.kernel.pcbs process).fileArray 0).flags = true := congrArg Fd.flags console
  have used : (state.kernel.pcbs process).fileArray.inUse 0 0 = some 0 := by simp [FileArray.inUse, flags]
  have terminal : ((state.kernel.pcbs process).fileArray 0).fopsPtr = some .terminal :=
    congrArg Fd.fopsPtr console
  rw [Kernel.systemRead, if_neg (by decide), used]
  simp only [terminal]

theorem answered (talks : Talks image process state log)
    (answerable : ∃ reply later, (Image.volume formatted).Replies log ask reply later)
    (asked : Asks image process state ask reply next) :
    ∃ later, (Image.volume formatted).Replies log ask reply later ∧ Talks image process next later := by
  obtain ⟨running, replied, recorded⟩ := asked
  obtain ⟨after, log'⟩ := next
  have before := talks.log
  dsimp only at replied recorded
  have ended (promised : (Image.volume formatted).Promises ask reply)
      (path : ∃ events, Path (Kernel.step image) (fun _ _ => True) state.kernel events after)
      (live : after.pcbTrack process = true) :
      ∃ later, (Image.volume formatted).Replies log ask reply later ∧
        Talks image process ⟨after, log'⟩ later := by
    obtain ⟨events, path⟩ := path
    exact ⟨_, ⟨promised, rfl⟩, live, talks.reached.path path, by rw [recorded, before]⟩
  obtain ⟨_, _, promised, -⟩ := answerable
  cases replied with
  | @called request reply buf behind _ done =>
      cases promised with
      | @wrote bytes =>
          rw [talks.call_write] at done
          have moved := Kernel.call_step running ((talks.call_write bytes buf behind).trans done)
          obtain ⟨rfl, same⟩ := Prod.mk.inj (Option.some.inj done)
          refine ended .wrote ⟨_, Path.cons trivial moved (Path.nil _)⟩ ?_
          rw [← same]
          exact talks.live
      | heard =>
          rw [formatted.call_read, talks.systemRead_keyboard] at done
          cases done
  | heard began waits front reading copied done =>
      cases promised with
      | heard asked short =>
          obtain ⟨⟨fits, short⟩, path, live⟩ :=
            Kernel.waits_heard talks.reached running (by omega) began
              (waits.mono fun _ _ held => held.1) front reading copied done
          exact ended (.heard fits short) path live
  | @refused command stale ret _ done =>
      cases promised with
      | ran short =>
          obtain ⟨passes, fails⟩ := @Kernel.runs_findProgram image formatted command _
          have stepped : state.kernel.step image (.execute command stale) = some after := by
            simp only [Kernel.step, running, Option.bind_some, Kernel.programEvent, done, Kernel.executed]
          have path : Path (Kernel.step image) (fun _ _ => True) state.kernel _ after :=
            Path.cons trivial stepped (Path.nil _)
          cases Kernel.systemExecute_iff.mp done with
          | unknown missing => exact ended (.ran short (fails missing)) ⟨_, path⟩ talks.live
          | full found taken => exact ended (.ran short (passes _ found)) ⟨_, path⟩ talks.live
  | @ran command stale stale' begun last _ child events status value began starts waits front halted =>
      cases promised with
      | ran short =>
          obtain ⟨rfl, path, live⟩ :=
            Kernel.waits_resumed talks.booted running began starts
              (waits.mono fun _ _ held => held.1) front halted
          obtain ⟨slot, dentry, entry, -, found, -, -⟩ := Kernel.systemExecute_started began
          have passes := (@Kernel.runs_findProgram image formatted command _).1 _ found
          exact ended (.ran short passes) path live

theorem comes (talks : Talks image process state log) (formatted : image.Formatted)
    (loads : image.Loads) (ready : state.Ready process)
    (answerable : ∃ reply later, (Image.volume formatted).Replies log ask reply later) :
    ∃ middle reply next, Relation.ReflTransGen (Meanwhile image process) state middle ∧
      Asks image process middle ask reply next ∧ next.Ready process := by
  obtain ⟨running, fine⟩ := ready
  obtain ⟨reply, next, replied, runs, ends⟩ : ∃ reply next,
      state.kernel.Replies image process ask reply next ∧ next.running = some process ∧ next.tty.LinesOk := by
    obtain ⟨_, _, promised, -⟩ := answerable
    cases promised with
    | @wrote bytes =>
        have done := talks.call_write bytes mb128 (fun _ => 0)
        have current : (state.kernel.tty.terminalWrite bytes).currTerminal = state.kernel.tty.currTerminal :=
          Tty.currTerminal_of_keyboard (Tty.keyboard_terminalWrite bytes)
        refine ⟨_, _, .called done, ?_, ?_⟩
        · simp only [Kernel.running, Kernel.foreground, Kernel.current, Kernel.mapTty, current]
          exact running
        · exact @Kernel.step_linesOk image _ _ (.write 1 bytes) fine trivial (Kernel.call_step running done)
    | heard => exact Kernel.heard_comes talks.booted running fine (talks.systemRead_keyboard mb128 _)
    | ran short => exact Kernel.ran_comes running fine formatted loads short
  exact ⟨state, reply, ⟨next, state.log ++ [⟨ask, reply⟩]⟩, Relation.ReflTransGen.refl,
    ⟨running, replied, rfl⟩, runs, ends⟩

end Talks

theorem dialogue_serves (formatted : image.Formatted) (loads : image.Loads) (process : Slot) :
    Serves (Asks image process) (Meanwhile image process) (Overheard.Ready process)
      (Image.volume formatted).Replies (Talks image process) where
  answered talks answerable asked := talks.answered answerable asked
  passed talks moved := talks.passed moved
  comes talks ready answerable := talks.comes formatted loads ready answerable

theorem dialogue_delivers {k : Kernel} {α : Type} {program : Client Ask Reply α}
    {post : α → List Exchange → Prop} (formatted : image.Formatted) (loads : image.Loads)
    (ensures : Ensures (Image.volume formatted).Replies post program [])
    (reached : Reachable (Kernel.step image) (Kernel.PoweredOn image) k) (running : k.running = some process) :
    Delivers (Asks image process) (Meanwhile image process) (Overheard.Ready process) program
      (fun value state => post value state.log) ⟨k, []⟩ := by
  have booted := reached.mono fun _ (poweredOn : Kernel.PoweredOn image _) => poweredOn.1
  have sound := Kernel.sound_reachable booted
  have live := (sound.live_foreground (Kernel.running_foreground running)).1
  have talks : Talks image process ⟨k, []⟩ [] := ⟨live, reached, rfl⟩
  refine (dialogue_serves formatted loads process).delivers talks ensures ?_
  intro value state log talks holds
  rw [talks.log]
  exact holds

end G29Os
