import G29Os.ProcessSpaces
import G29Os.ProcessTurns

/-!
The activations of `system_execute` that have not returned. `system_halt` of a process sets
`%esp` and `%ebp` to the pair saved for its slot and jumps into the code behind the `iret`,
so the pair decides which activation goes on there.
-/

namespace G29Os

open PointerChain StepRun

/-- `serial` is the order of entry. `caller` is the program that made the call; `kernel.c` and
`relaunch_shell` call without one. -/
structure Activation where
  serial : Nat
  caller : Option Slot
  program : Slot
  deriving DecidableEq

inductive Frame where
  | initTerminals
  | execute (activation : Activation)
  deriving DecidableEq

structure CallFrames where
  entered : Nat
  saved : Slot → Option Frame
  active : TerminalId → List Activation

namespace CallFrames

/-- `init_terminals` saves its own frame for the two shells that it builds. -/
def boot : CallFrames where
  entered := 0
  saved slot := if slot = 1 ∨ slot = 2 then some .initTerminals else none
  active _ := []

def enter (terminal : TerminalId) (caller : Option Slot) (program : Slot) (frames : CallFrames) :
    CallFrames :=
  let activation : Activation := { serial := frames.entered, caller := caller, program := program }
  { entered := frames.entered + 1
    saved := Function.update frames.saved program (some (.execute activation))
    active := Function.update frames.active terminal (activation :: frames.active terminal) }

def activation (frames : CallFrames) (slot : Slot) : Option Activation :=
  match frames.saved slot with
  | some (.execute activation) => some activation
  | _ => none

def leave (terminal : TerminalId) (process : Slot) (frames : CallFrames) : CallFrames :=
  match frames.activation process with
  | some activation =>
      { frames with
        active := Function.update frames.active terminal
          ((frames.active terminal).erase activation) }
  | none => frames

end CallFrames

namespace Kernel

/-- What an event does to the activations. A call that fails has returned when the event is
over. A base shell that halts is relaunched by a call inside the activation it came back to. -/
def noteFrames (image : Image) (k : Kernel) (event : Event) (next : Kernel) (frames : CallFrames) :
    CallFrames :=
  match event, next.foreground with
  | .firstShell _, some program => frames.enter k.current none program
  | .execute command stale, some program =>
      match k.systemExecute image command stale with
      | some (.started _) => frames.enter k.current k.foreground program
      | _ => frames
  | .halt _, some program =>
      match k.foreground with
      | none => frames
      | some process =>
          match (k.pcbs process).parentPtr with
          | some _ => frames.leave k.current process
          | none => frames.enter k.current none program
  | _, _ => frames

def framesAfter (image : Image) (start : Kernel) (events : List Event) : CallFrames :=
  recorded (step image) (noteFrames image) start events CallFrames.boot

section Tracking

variable {image : Image} {k next : Kernel} {chain : TerminalId → List Slot}
  {leftover : TerminalId → List Activation} {frames : CallFrames} {process slot : Slot}
  {terminal : TerminalId}

@[simp] theorem activation_enter (caller : Option Slot) :
    (frames.enter terminal caller slot).activation = Function.update frames.activation slot
      (some { serial := frames.entered, caller := caller, program := slot }) := by
  funext other
  rcases eq_or_ne other slot with same | apart
  · subst same
    simp [CallFrames.enter, CallFrames.activation]
  · simp [CallFrames.enter, CallFrames.activation, Function.update_of_ne apart]

@[simp] theorem activation_leave :
    (frames.leave terminal process).activation = frames.activation := by
  rw [CallFrames.leave]
  split <;> rfl

/-- The activations that have not returned are those that started the programs on the chains,
in order, on top of some that are left over. -/
structure Tracked (k : Kernel) (frames : CallFrames) (chain : TerminalId → List Slot)
    (leftover : TerminalId → List Activation) : Prop where
  linked : k.table.Linked chain
  program : ∀ slot activation, frames.activation slot = some activation → activation.program = slot
  caller : ∀ terminal, ∀ slot ∈ chain terminal, ∀ parent, (k.pcbs slot).parentPtr = some parent →
    ∃ activation, frames.activation slot = some activation ∧ activation.caller = some parent
  active : ∀ terminal,
    frames.active terminal = (chain terminal).filterMap frames.activation ++ leftover terminal

theorem filterMap_update_of_notMem {α β : Type*} [DecidableEq α] {f : α → Option β} {cells : List α}
    {cell : α} {value : Option β} (absent : cell ∉ cells) :
    cells.filterMap (Function.update f cell value) = cells.filterMap f :=
  List.filterMap_congr fun other member =>
    Function.update_of_ne (fun same : other = cell => absent (same ▸ member)) ..

theorem Tracked.enter (tracked : Tracked k frames chain leftover) (launched : Launched k next slot)
    {caller : Option Slot} (called : ∀ parent, k.foreground = some parent → caller = some parent) :
    Tracked next (frames.enter k.current caller slot)
      (Function.update chain k.current (slot :: chain k.current)) leftover := by
  have fresh := tracked.linked.dead launched.free
  have parent : (next.pcbs slot).parentPtr = k.foreground :=
    (congrArg (fun table => ProcessTable.parent table slot) launched.table).trans
      (Function.update_self ..)
  constructor
  · rw [launched.table]
    exact (tracked.linked.enter launched.free).count 1
  · intro other activation started
    rw [activation_enter] at started
    rcases eq_or_ne other slot with same | apart
    · subst same
      rw [Function.update_self] at started
      cases started
      rfl
    · rw [Function.update_of_ne apart] at started
      exact tracked.program other activation started
  · intro terminal other member above linked
    rw [activation_enter]
    rcases eq_or_ne other slot with same | apart
    · subst same
      rw [Function.update_self]
      exact ⟨_, rfl, called above (parent.symm.trans linked)⟩
    · rw [Function.update_of_ne apart]
      rw [launched.others other apart] at linked
      refine tracked.caller terminal other ?_ above linked
      rcases eq_or_ne terminal k.current with here | away
      · subst here
        rw [Function.update_self] at member
        exact (List.mem_cons.mp member).resolve_left apart
      · rwa [Function.update_of_ne away] at member
  · intro terminal
    rw [activation_enter]
    rcases eq_or_ne terminal k.current with here | away
    · subst here
      simp only [CallFrames.enter, Function.update_self, List.filterMap_cons,
        filterMap_update_of_notMem (fresh k.current), tracked.active k.current, List.cons_append]
    · simp only [CallFrames.enter, Function.update_of_ne away,
        filterMap_update_of_notMem (fresh terminal), tracked.active terminal]

theorem Tracked.ended {resumed : Option Slot} (tracked : Tracked k frames chain leftover)
    (ended : Ended k next process resumed) :
    ∃ rest, chain k.current = process :: rest ∧ process ∉ rest ∧
      next.table.Linked (Function.update chain k.current rest) ∧
      Chain k.table.parent resumed rest := by
  obtain ⟨rest, stack, under⟩ := tracked.linked.top ended.top
  have nodup := (tracked.linked.follows k.current).nodup
  rw [show chain k.current = _ from stack] at nodup
  have link : k.table.parent process = resumed := ended.linked
  have left := tracked.linked.leave stack under
  rw [link] at left under
  refine ⟨rest, stack, (List.nodup_cons.mp nodup).1, ?_, under⟩
  rw [ended.table]
  exact left.count (-1)

theorem Tracked.callers {resumed : Option Slot} {rest : List Slot}
    (tracked : Tracked k frames chain leftover) (ended : Ended k next process resumed)
    (stack : chain k.current = process :: rest) (gone : process ∉ rest) :
    ∀ terminal, ∀ slot ∈ Function.update chain k.current rest terminal, ∀ parent,
      (next.pcbs slot).parentPtr = some parent →
        ∃ activation, frames.activation slot = some activation ∧ activation.caller = some parent := by
  intro terminal slot member parent linked
  have listed : slot ∈ chain terminal ∧ slot ≠ process := by
    rcases eq_or_ne terminal k.current with here | away
    · subst here
      rw [Function.update_self] at member
      rw [stack]
      exact ⟨List.mem_cons_of_mem process member, fun same => gone (same ▸ member)⟩
    · rw [Function.update_of_ne away] at member
      refine ⟨member, fun same => tracked.linked.apart _ _ away slot member ?_⟩
      rw [stack, same]
      exact List.mem_cons_self
  rw [ended.others slot listed.2] at linked
  exact tracked.caller terminal slot listed.1 parent linked

theorem Tracked.resumed {parent : Slot} (tracked : Tracked k frames chain leftover)
    (ended : Ended k next process (some parent)) :
    ∃ rest activation, frames.activation process = some activation ∧
      activation.caller = some parent ∧ (frames.active k.current).head? = some activation ∧
      Tracked next (frames.leave k.current process) (Function.update chain k.current rest) leftover := by
  obtain ⟨rest, stack, gone, linked, -⟩ := tracked.ended ended
  have listed : process ∈ chain k.current := by
    rw [stack]
    exact List.mem_cons_self
  obtain ⟨activation, started, caller⟩ := tracked.caller k.current process listed parent ended.linked
  have active := tracked.active k.current
  rw [stack, List.filterMap_cons, started, List.cons_append] at active
  refine ⟨rest, activation, started, caller, by rw [active, List.head?_cons], ?_⟩
  constructor
  · exact linked
  · rw [activation_leave]
    exact tracked.program
  · rw [activation_leave]
    exact tracked.callers ended stack gone
  · intro terminal
    rw [activation_leave, CallFrames.leave, started]
    rcases eq_or_ne terminal k.current with here | away
    · subst here
      simp only [Function.update_self, active, List.erase_cons_head]
    · simp only [Function.update_of_ne away, tracked.active terminal]

theorem Tracked.base (tracked : Tracked k frames chain leftover)
    (ended : Ended k next process none) :
    Tracked next frames (Function.update chain k.current [])
      (Function.update leftover k.current (frames.active k.current)) := by
  obtain ⟨rest, stack, gone, linked, under⟩ := tracked.ended ended
  have alone : rest = [] := under.eq_nil
  subst alone
  constructor
  · exact linked
  · exact tracked.program
  · exact tracked.callers ended stack gone
  · intro terminal
    rcases eq_or_ne terminal k.current with here | away
    · subst here
      simp only [Function.update_self, List.filterMap_nil, List.nil_append]
    · simp only [Function.update_of_ne away, tracked.active terminal]

theorem Tracked.same (tracked : Tracked k frames chain leftover)
    (currPcb : next.currPcb = k.currPcb) (pcbTrack : next.pcbTrack = k.pcbTrack)
    (parent : next.table.parent = k.table.parent) (pid : next.table.pid = k.table.pid) :
    Tracked next frames chain leftover := by
  refine ⟨tracked.linked.congr currPcb pcbTrack parent pid, tracked.program, ?_, tracked.active⟩
  intro terminal slot member above linked
  have same : (next.pcbs slot).parentPtr = (k.pcbs slot).parentPtr := congrFun parent slot
  exact tracked.caller terminal slot member above (same ▸ linked)

theorem noteFrames_firstShell {stale : Stale} (top : next.foreground = some slot) :
    noteFrames image k (.firstShell stale) next frames = frames.enter k.current none slot := by
  simp only [noteFrames, top]

theorem noteFrames_started {command : List UInt8} {stale : Stale} {begun : Kernel}
    (top : next.foreground = some slot)
    (called : k.systemExecute image command stale = some (.started begun)) :
    noteFrames image k (.execute command stale) next frames =
      frames.enter k.current k.foreground slot := by
  simp only [noteFrames, top, called]

theorem noteFrames_resumed {stale : Stale} {parent above : Slot} (top : next.foreground = some above)
    (front : k.foreground = some process) (linked : (k.pcbs process).parentPtr = some parent) :
    noteFrames image k (.halt stale) next frames = frames.leave k.current process := by
  simp only [noteFrames, top, front, linked]

theorem noteFrames_relaunched {stale : Stale} (top : next.foreground = some slot)
    (front : k.foreground = some process) (base : (k.pcbs process).parentPtr = none) :
    noteFrames image k (.halt stale) next frames = frames.enter k.current none slot := by
  simp only [noteFrames, top, front, base]

theorem noteFrames_stays {event : Event}
    (silent : ∀ stale, event ≠ .firstShell stale ∧ event ≠ .halt stale)
    (failed : ∀ command stale, event = .execute command stale →
      started (k.systemExecute image command stale) = none) :
    noteFrames image k event next frames = frames := by
  cases event with
  | firstShell stale => exact absurd rfl (silent stale).1
  | halt stale => exact absurd rfl (silent stale).2
  | execute command stale =>
      have unstarted := failed command stale rfl
      cases top : next.foreground with
      | none => simp only [noteFrames, top]
      | some program =>
          simp only [noteFrames, top]
          split
          · rename_i called
            rw [called] at unstarted
            cases unstarted
          · rfl
  | key | rtcTick | read | readAccess | write | «open» | close | getargs | vidmap | store =>
      simp only [noteFrames]

def KeepsBaseShell (k : Kernel) : Event → Prop
  | .halt _ => ∀ process, k.running = some process → (k.pcbs process).parentPtr ≠ none
  | _ => True

theorem Tracked.step {event : Event} (tracked : Tracked k frames chain leftover)
    (done : k.step image event = some next) :
    ∃ chain' leftover', Tracked next (noteFrames image k event next frames) chain' leftover' ∧
      (KeepsBaseShell k event → leftover' = leftover) := by
  cases step_turn done with
  | stays same silent failed =>
      rw [noteFrames_stays silent failed]
      have table := same.table
      exact ⟨chain, leftover, tracked.same (congrArg ProcessTable.currPcb table)
        (congrArg ProcessTable.pcbTrack table) (congrArg ProcessTable.parent table)
        (congrArg ProcessTable.pid table), fun _ => rfl⟩
  | firstShell front empty done =>
      obtain ⟨slot, launched⟩ := executeStarted_launched done
      have noCaller (parent : Slot) (above : k.foreground = some parent) :
          (none : Option Slot) = some parent := by
        rw [foreground, front, empty] at above
        cases above
      rw [noteFrames_firstShell launched.foreground]
      exact ⟨_, leftover, tracked.enter launched noCaller, fun _ => rfl⟩
  | started running done =>
      obtain ⟨slot, launched⟩ := executeStarted_launched done
      rw [noteFrames_started launched.foreground done]
      exact ⟨_, leftover, tracked.enter launched fun parent above => above, fun _ => rfl⟩
  | @halted process stale next running done =>
      have front := running_foreground running
      rcases systemHalt_effect front done with ⟨parent, ended, -⟩ | ⟨middle, slot, ended, launched⟩
      · obtain ⟨rest, activation, -, -, -, kept⟩ := tracked.resumed ended
        rw [noteFrames_resumed ended.foreground front ended.linked]
        exact ⟨_, leftover, kept, fun _ => rfl⟩
      · have current : middle.current = k.current := congrArg ProcessTable.current ended.table
        have noCaller (parent : Slot) (above : middle.foreground = some parent) :
            (none : Option Slot) = some parent := ended.foreground.symm.trans above
        have relaunched := (tracked.base ended).enter launched noCaller
        rw [noteFrames_relaunched launched.foreground front ended.linked, ← current]
        refine ⟨_, _, relaunched, fun keeps => ?_⟩
        exact absurd ended.linked (keeps process running)
  | @switched code regs stale target tty next handled done =>
      have swapped := switchTerminal_swapped handled done
      obtain ⟨-, currPcb, pcbTrack, pid, parent⟩ := swapped.fields
      exact ⟨chain, leftover, tracked.same currPcb pcbTrack parent pid, fun _ => rfl⟩

theorem Booted.tracked (booted : Booted image k) :
    Tracked k CallFrames.boot bootChain fun _ => [] := by
  have unstarted (slot : Slot) : CallFrames.boot.activation slot = none := by
    simp only [CallFrames.activation, CallFrames.boot]
    split_ifs <;> rfl
  refine ⟨booted.consistent.toLinked, ?_, ?_, ?_⟩
  · intro slot activation started
    rw [unstarted] at started
    cases started
  · intro terminal slot member parent linked
    have alone : ∀ terminal, ∀ slot ∈ bootChain terminal, bootChain terminal = [slot] := by decide
    have follows := booted.consistent.follows terminal
    rw [alone terminal slot member] at follows
    cases linked.symm.trans follows.last
  · intro terminal
    have none (cells : List Slot) : cells.filterMap CallFrames.boot.activation = [] :=
      List.filterMap_eq_nil_iff.mpr fun slot _ => unstarted slot
    rw [none]
    rfl

theorem framesAfter_tracked {start : Kernel} {events : List Event} (booted : Booted image start)
    (path : Path (step image) (fun _ _ => True) start events k) :
    ∃ chain leftover, Tracked k (framesAfter image start events) chain leftover := by
  refine path.recorded_invariant (fun k frames => ∃ chain leftover, Tracked k frames chain leftover) ?_
    ⟨bootChain, fun _ => [], booted.tracked⟩
  rintro k event next frames - ⟨chain, leftover, tracked⟩ done
  obtain ⟨chain', leftover', kept, -⟩ := tracked.step done
  exact ⟨chain', leftover', kept⟩

/-! ### The discipline -/

def Balanced (k : Kernel) (frames : CallFrames) : Prop :=
  ∃ chain, k.table.Linked chain ∧ ∀ terminal, (frames.active terminal).length =
    ((chain terminal).filter fun slot => (frames.activation slot).isSome).length

def ReturnsToStarter (k : Kernel) (frames : CallFrames) : Prop :=
  ∀ process, k.running = some process → ∃ activation,
    frames.saved process = some (.execute activation) ∧ activation.program = process ∧
      (frames.active k.current).head? = some activation

theorem length_filterMap_eq {α β : Type*} {f : α → Option β} (cells : List α) :
    (cells.filterMap f).length = (cells.filter fun cell => (f cell).isSome).length := by
  induction cells with
  | nil => rfl
  | cons cell cells ih =>
      cases found : f cell with
      | none => simp [found, ih]
      | some value => simp [found, ih]

theorem Tracked.balanced (tracked : Tracked k frames chain fun _ => []) : Balanced k frames := by
  refine ⟨chain, tracked.linked, fun terminal => ?_⟩
  rw [tracked.active terminal, List.append_nil, length_filterMap_eq]

theorem activation_saved {activation : Activation}
    (started : frames.activation process = some activation) :
    frames.saved process = some (.execute activation) := by
  rw [CallFrames.activation] at started
  split at started
  · rename_i saved
    cases started
    exact saved
  · cases started

theorem Tracked.returns (tracked : Tracked k frames chain leftover)
    (child : ∀ process, k.running = some process → (k.pcbs process).parentPtr ≠ none) :
    ReturnsToStarter k frames := by
  intro process running
  obtain ⟨parent, linked⟩ := Option.ne_none_iff_exists'.mp (child process running)
  obtain ⟨rest, stack, -⟩ := tracked.linked.top (running_foreground running)
  have listed : process ∈ chain k.current := by
    rw [show chain k.current = _ from stack]
    exact List.mem_cons_self
  obtain ⟨activation, started, -⟩ := tracked.caller k.current process listed parent linked
  refine ⟨activation, activation_saved started, tracked.program process activation started, ?_⟩
  rw [tracked.active k.current, show chain k.current = _ from stack, List.filterMap_cons, started]
  rfl

/-- As long as no base shell halts, the activations match the programs, and every halt goes
back to the activation that started the program. -/
theorem callFrames_balanced {start : Kernel} {events : List Event} (booted : Booted image start)
    (path : Path (step image) KeepsBaseShell start events k) :
    Balanced k (framesAfter image start events) ∧
      ∀ stale, KeepsBaseShell k (.halt stale) → ReturnsToStarter k (framesAfter image start events) := by
  have kept : ∃ chain, Tracked k (framesAfter image start events) chain fun _ => [] := by
    refine path.recorded_invariant (fun k frames => ∃ chain, Tracked k frames chain fun _ => []) ?_
      ⟨bootChain, booted.tracked⟩
    rintro k event next frames keeps ⟨chain, tracked⟩ done
    obtain ⟨chain', leftover', kept, same⟩ := tracked.step done
    rw [same keeps] at kept
    exact ⟨chain', kept⟩
  obtain ⟨chain, tracked⟩ := kept
  exact ⟨tracked.balanced, fun _ keeps => tracked.returns keeps⟩

end Tracking

instance (k : Kernel) : (event : Event) → Decidable (KeepsBaseShell k event)
  | .halt _ => inferInstanceAs
      (Decidable (∀ process, k.running = some process → (k.pcbs process).parentPtr ≠ none))
  | .key .. | .rtcTick | .firstShell _ | .execute .. | .read .. | .readAccess | .write .. | .open _
  | .close _ | .getargs .. | .vidmap _ | .store .. => isTrue trivial

def childRun : List Event :=
  [.firstShell noStale, .execute shellName noStale] ++ keys [alt, f2] ++
    [.execute shellName noStale, .execute shellName noStale, .halt noStale]

theorem callFrames_childRun :
    ∃ start k, Booted smallImage start ∧ Path (step smallImage) KeepsBaseShell start childRun k ∧
      Balanced k (framesAfter smallImage start childRun) := by
  have ran : (bootSmall.bind fun start =>
      runWhere (step smallImage) KeepsBaseShell start childRun).isSome = true := by decide +kernel
  obtain ⟨k, computed⟩ := Option.isSome_iff_exists.mp ran
  obtain ⟨start, booted, path⟩ := Option.bind_eq_some_iff.mp computed
  have path := runWhere_path path
  exact ⟨start, k, bootSmall_booted booted, path, (callFrames_balanced (bootSmall_booted booted) path).1⟩

def exitRun : List Event := [.firstShell noStale, .halt noStale]

/-- The first shell exits once, and two activations stand for the one shell that runs. -/
theorem callFrames_nested :
    ¬∀ (start k : Kernel) (events : List Event), Booted smallImage start →
      Path (step smallImage) (fun _ _ => True) start events k →
        Balanced k (framesAfter smallImage start events) := by
  have ran : (bootSmall.bind fun start =>
      (runWhere (step smallImage) (fun _ _ => True) start exitRun).map fun k =>
        decide (((framesAfter smallImage start exitRun).active 0).length = 2 ∧ k.currPcb 0 = some 0 ∧
          (k.pcbs 0).parentPtr = none)) = some true := by decide +kernel
  obtain ⟨start, booted, found⟩ := Option.bind_eq_some_iff.mp ran
  obtain ⟨k, computed, holds⟩ := Option.map_eq_some_iff.mp found
  obtain ⟨two, top, base⟩ := of_decide_eq_true holds
  intro claimed
  obtain ⟨chain, linked, balanced⟩ :=
    claimed start k exitRun (bootSmall_booted booted) (runWhere_path computed)
  obtain ⟨rest, stack, under⟩ := linked.top top
  rw [show k.table.parent 0 = none from base] at under
  have alone : chain 0 = [0] := by rw [stack, under.eq_nil]
  have counted := balanced 0
  have most := List.length_filter_le
    (fun slot => ((framesAfter smallImage start exitRun).activation slot).isSome) (chain 0)
  rw [alone] at counted most
  simp only [List.length_singleton] at most
  omega

end Kernel

end G29Os
