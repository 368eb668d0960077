import G29Os.ProcessSpaces
import G29Os.ReadData

/-!
The page of a program over a switch to another terminal and back. While the terminal is away
nothing reaches the page; on the way back `reload_program` reads the program file over it.
-/

namespace G29Os

open ByteRange PageTables PointerChain StepRun

namespace Kernel

variable {image : Image} {k cur next : Kernel} {process slot : Slot} {terminal : TerminalId}

/-! ### What a reload writes -/

theorem programBytes_empty (image : Image) (inode : UInt32)
    (large : 4096 * 1023 < (image.inodeLength inode).toNat) :
    programBytes image inode (image.inodeLength inode) = [] := by
  have huge : image.inodeLength inode > kb4 * inodeBlocks := by
    rw [gt_iff_lt, UInt32.lt_iff_toNat_lt]
    exact large
  simp only [programBytes, readData, huge, if_true]
  split <;> rfl

theorem programBytes_file (image : Image) (inode : UInt32)
    (small : (image.inodeLength inode).toNat ≤ 4096 * 1023) :
    programBytes image inode (image.inodeLength inode) =
      (List.range (image.inodeLength inode).toNat).map (image.fileByte inode) := by
  by_cases unread : 0 = image.inodeLength inode
  · rw [programBytes, ← unread]
    have none := readData_atEnd image inode 0 fun _ => 0
    rw [← unread] at none
    rw [none]
    rfl
  · obtain ⟨-, written, filled, -⟩ :=
      readData_closed image inode 0 (image.inodeLength inode) (fun _ => 0) small unread
    have inside : (0 : UInt32).toNat + (image.inodeLength inode).toNat ≤
        (image.inodeLength inode).toNat := by
      rw [UInt32.toNat_zero, Nat.zero_add]
    have last : ((0 + image.inodeLength inode) / kb4).toNat =
        (image.inodeLength inode).toNat / 4096 := by
      rw [UInt32.zero_add, UInt32.toNat_div, toNat_kb4]
    simp only [readPlan_inside inside, last, UInt32.toNat_zero, Nat.zero_add] at written filled
    rw [programBytes, written, filled]
    refine List.map_congr_left fun k member => ?_
    have bound : k < (image.inodeLength inode).toNat := List.mem_range.mp member
    have cell := @writeRange_inside _ (fun _ => (0 : UInt8)) 0 (image.inodeLength inode).toNat
      (fun k => spanByte image inode
        (max (skipCount 0) ((image.inodeLength inode).toNat / 4096)) k) k bound
    rw [Nat.zero_add] at cell
    rw [cell]
    exact spanByte_eq_fileByte image inode (by omega)

theorem pokes_page {tables : PageTables} {pid : Slot} (kernel : KernelMapped tables)
    (program : ProgramMapped tables pid) {offset : Nat} {bytes : List UInt8}
    {mem mem' : Nat → UInt8} (within : offset ≤ mb4)
    (done : pokes tables pid (mb128 + offset) bytes mem = some mem') :
    offset + bytes.length ≤ mb4 ∧
      mem' = writeRange mem (frameOf pid + offset) bytes.length fun j => bytes.getD j 0 := by
  induction bytes generalizing offset mem with
  | nil =>
      cases done
      exact ⟨within, writeRange_zero.symm⟩
  | cons byte bytes ih =>
      obtain ⟨middle, first, later⟩ := Option.bind_eq_some_iff.mp done
      by_cases inside : offset < mb4
      · rw [poke_frame program inside] at first
        cases first
        obtain ⟨fits, filled⟩ := ih (Nat.succ_le_of_lt inside) later
        refine ⟨?_, ?_⟩
        · rw [List.length_cons]
          omega
        · rw [filled, update_eq_writeRange, List.length_cons, Nat.add_comm bytes.length]
          refine writeRange_append (fun index here => ?_) fun index _ => ?_
          · have zero : index = 0 := by omega
            rw [zero]
            rfl
          · rw [Nat.add_comm 1 index]
            rfl
      · -- past the end of its page the directory maps nothing, so the store would have faulted
        have bound : mb128 + offset < 4294967296 := by
          simp only [mb4, mb128] at within ⊢
          omega
        rw [poke, walk_beyond kernel (Nat.le_of_not_lt inside) bound] at first
        cases first

/-! ### While the terminal is away -/

/-- The program `process` of `terminal`, which was left in state `k`, waits in `cur`. -/
structure Away (k : Kernel) (terminal : TerminalId) (process : Slot) (cur : Kernel) : Prop where
  elsewhere : cur.current ≠ terminal
  top : cur.currPcb terminal = some process
  count : cur.numProgs terminal = k.numProgs terminal
  live : cur.pcbTrack process = true
  name : (cur.pcbs process).name = (k.pcbs process).name
  page : ∀ j, j < mb4 → cur.mem (frameOf process + j) = k.mem (frameOf process + j)

theorem tops_apart {chain : TerminalId → List Slot} (consistent : k.table.Consistent chain)
    {other : TerminalId} {front : Slot} (here : k.currPcb other = some front)
    (there : k.currPcb terminal = some process) (different : other ≠ terminal) :
    process ≠ front := by
  obtain ⟨rest, stack, -⟩ := consistent.toLinked.top here
  obtain ⟨rest', stack', -⟩ := consistent.toLinked.top there
  rintro rfl
  have member : process ∈ chain other := by
    rw [stack]
    exact List.mem_cons_self
  refine consistent.apart other terminal different process member ?_
  rw [stack']
  exact List.mem_cons_self

theorem Away.front (away : Away k terminal process cur) (sound : Sound cur) {front : Slot}
    (running : cur.foreground = some front) : process ≠ front := by
  obtain ⟨chain, consistent⟩ := sound.consistent
  exact tops_apart consistent running away.top away.elsewhere

theorem Away.local {front : Slot} (away : Away k terminal process cur) (sound : Sound cur)
    (running : cur.foreground = some front) (same : Local cur next) :
    Away k terminal process next := by
  have current : next.current = cur.current := congrArg ProcessTable.current same.table
  have currPcb : next.currPcb = cur.currPcb := congrArg ProcessTable.currPcb same.table
  have numProgs : next.numProgs = cur.numProgs := congrArg ProcessTable.numProgs same.table
  have pcbTrack : next.pcbTrack = cur.pcbTrack := congrArg ProcessTable.pcbTrack same.table
  have written := same.page
  rw [sound.front front running] at written
  constructor
  · rw [current]
    exact away.elsewhere
  · rw [currPcb]
    exact away.top
  · rw [numProgs]
    exact away.count
  · rw [pcbTrack]
    exact away.live
  · rw [same.identity process]
    exact away.name
  · intro j bound
    rw [← away.page j bound]
    exact written.page sound.mapped.kernel
      (sound.mapped.program front (sound.live_foreground running).1) (away.front sound running) bound

theorem Away.launched (away : Away k terminal process cur) (mapped : Mapped cur)
    (launched : Launched cur next slot) : Away k terminal process next := by
  have apart : process ≠ slot := by
    rintro rfl
    have live := away.live
    rw [launched.free] at live
    cases live
  have elsewhere := away.elsewhere.symm
  have currPcb : next.currPcb = Function.update cur.currPcb cur.current (some slot) :=
    congrArg ProcessTable.currPcb launched.table
  have numProgs : next.numProgs = _ := congrArg ProcessTable.numProgs launched.table
  have pcbTrack : next.pcbTrack = Function.update cur.pcbTrack slot true :=
    congrArg ProcessTable.pcbTrack launched.table
  have tracked : next.pcbTrack slot = true := by
    rw [pcbTrack, Function.update_self]
  have mapped' := launched.mapped mapped
  constructor
  · rw [show next.current = cur.current from congrArg ProcessTable.current launched.table]
    exact away.elsewhere
  · rw [currPcb, Function.update_of_ne elsewhere]
    exact away.top
  · rw [numProgs]
    exact (Function.update_of_ne elsewhere ..).trans away.count
  · rw [pcbTrack, Function.update_of_ne apart]
    exact away.live
  · rw [launched.others process apart]
    exact away.name
  · intro j bound
    rw [← away.page j bound]
    exact launched.page.page mapped'.kernel (mapped'.program slot tracked) apart bound

theorem Away.ended {ending : Slot} {resumed : Option Slot} (away : Away k terminal process cur)
    (sound : Sound cur) (ended : Ended cur next ending resumed) : Away k terminal process next := by
  -- the halt is of another terminal, whose chain does not meet this one
  have apart : process ≠ ending := away.front sound ended.top
  have own : (cur.pcbs ending).pid = ending := (sound.live_foreground ended.top).2
  have elsewhere := away.elsewhere.symm
  have currPcb : next.currPcb = Function.update cur.currPcb cur.current resumed :=
    congrArg ProcessTable.currPcb ended.table
  have numProgs : next.numProgs = _ := congrArg ProcessTable.numProgs ended.table
  have pcbTrack : next.pcbTrack = Function.update cur.pcbTrack (cur.pcbs ending).pid false :=
    congrArg ProcessTable.pcbTrack ended.table
  constructor
  · rw [show next.current = cur.current from congrArg ProcessTable.current ended.table]
    exact away.elsewhere
  · rw [currPcb, Function.update_of_ne elsewhere]
    exact away.top
  · rw [numProgs]
    exact (Function.update_of_ne elsewhere ..).trans away.count
  · rw [pcbTrack, own, Function.update_of_ne apart]
    exact away.live
  · rw [ended.others process apart]
    exact away.name
  · intro j bound
    rw [ended.mem]
    exact away.page j bound

theorem Switched.numProgs {target : TerminalId} (switched : Switched cur next target)
    (different : terminal ≠ target) : next.numProgs terminal = cur.numProgs terminal := by
  have table := congrArg (fun table => ProcessTable.numProgs table terminal) switched.table
  refine Eq.trans table ?_
  rw [ProcessTable.switch]
  split
  · exact Function.update_of_ne different ..
  · rfl

theorem Switched.otherPage {target : TerminalId} {front : Slot} (switched : Switched cur next target)
    (sound : Sound cur) (sound' : Sound next) (top : cur.currPcb terminal = some process)
    (different : target ≠ terminal) (running : next.foreground = some front) {j : Nat}
    (bound : j < mb4) : next.mem (frameOf process + j) = cur.mem (frameOf process + j) := by
  obtain ⟨chain, consistent⟩ := sound.consistent
  have there : cur.currPcb target = some front := switched.foreground.symm.trans running
  have apart : process ≠ front := tops_apart consistent there top different
  have written := switched.page
  rw [sound'.front front running, ← switched.paging] at written
  exact written.page sound'.mapped.kernel
    (sound'.mapped.program front (sound'.live_foreground running).1) apart bound

theorem Away.switched {target : TerminalId} {front : Slot} (away : Away k terminal process cur)
    (sound : Sound cur) (sound' : Sound next) (switched : Switched cur next target)
    (different : target ≠ terminal) (running : next.foreground = some front) :
    Away k terminal process next := by
  obtain ⟨current, currPcb, pcbTrack⟩ := switched.table_eq
  constructor
  · rw [current]
    exact different
  · rw [currPcb]
    exact away.top
  · exact (switched.numProgs different.symm).trans away.count
  · rw [pcbTrack]
    exact away.live
  · rw [switched.pcbs]
    exact away.name
  · intro j bound
    rw [← away.page j bound]
    exact switched.otherPage sound sound' away.top different running bound

theorem Transition.busy (transition : Transition image cur next)
    (consistent : ∃ chain, cur.table.Consistent chain) (busy : ∃ front, cur.foreground = some front) :
    ∃ front, next.foreground = some front := by
  obtain ⟨chain, consistent⟩ := consistent
  obtain ⟨front, running⟩ := busy
  cases transition with
  | stay same => exact ⟨front, same.foreground.trans running⟩
  | launched started => exact ⟨_, started.foreground⟩
  | resumed ended => exact ⟨_, ended.foreground⟩
  | relaunched ended started => exact ⟨_, started.foreground⟩
  | @shellStarted target switched unvisited cr3 =>
      have nonzero : target ≠ 0 := by
        rintro rfl
        have first : cur.numProgs 0 = _ := consistent.first
        omega
      have follows := consistent.follows target
      rw [(consistent.waiting target nonzero unvisited).2] at follows
      cases top : cur.currPcb target with
      | none =>
          rw [show cur.table.currPcb target = none from top] at follows
          cases follows
      | some shell => exact ⟨shell, switched.foreground.trans top⟩
  | reloaded switched visited top => exact ⟨_, switched.foreground.trans top⟩

theorem Away.transition {front : Slot} (away : Away k terminal process cur) (sound : Sound cur)
    (sound' : Sound next) (running : cur.foreground = some front)
    (transition : Transition image cur next) (elsewhere : next.current ≠ terminal) :
    Away k terminal process next := by
  obtain ⟨front', running'⟩ := transition.busy sound.consistent ⟨front, running⟩
  cases transition with
  | stay same => exact away.local sound running same
  | launched started => exact away.launched sound.mapped started
  | resumed ended => exact away.ended sound ended
  | relaunched ended started =>
      exact (away.ended sound ended).launched (ended.mapped sound.mapped) started
  | shellStarted switched =>
      have different := switched.table_eq.1 ▸ elsewhere
      exact away.switched sound sound' switched different running'
  | reloaded switched =>
      have different := switched.table_eq.1 ▸ elsewhere
      exact away.switched sound sound' switched different running'

theorem Away.path {events : List Event}
    (path : Path (step image) (fun cur _ => cur.current ≠ terminal) cur events next)
    (away : Away k terminal process cur) (sound : Sound cur)
    (busy : ∃ front, cur.foreground = some front) (elsewhere : next.current ≠ terminal) :
    Sound next ∧ Away k terminal process next := by
  induction path with
  | nil => exact ⟨sound, away⟩
  | @cons cur middle finish event events gone taken later ih =>
      obtain ⟨front, running⟩ := busy
      have transition := step_transition taken
      have sound' := sound.step taken
      have stays : middle.current ≠ terminal := by
        cases later with
        | nil => exact elsewhere
        | cons gone' => exact gone'
      exact ih (away.transition sound sound' running transition stays) sound'
        (transition.busy sound.consistent ⟨front, running⟩) elsewhere

theorem Away.leave {target : TerminalId} {front : Slot} (sound : Sound k) (sound' : Sound next)
    (running : k.foreground = some process) (switched : Switched k next target)
    (running' : next.foreground = some front) : Away k k.current process next := by
  obtain ⟨current, currPcb, pcbTrack⟩ := switched.table_eq
  constructor
  · rw [current]
    exact switched.other
  · rw [currPcb]
    exact running
  · exact switched.numProgs switched.other.symm
  · rw [pcbTrack]
    exact (sound.live_foreground running).1
  · rw [switched.pcbs]
  · intro j bound
    exact switched.otherPage sound sound' running switched.other running' bound

/-! ### Coming back -/

def imageOffset : Nat := 0x48000

/-- The page of a process still holds, byte for byte, the program file that `reload_program`
would read: the one by the name in its PCB, or else what a stale dentry names. -/
def ImageIntact (image : Image) (k : Kernel) (process : Slot) (stale : Dentry) : Prop :=
  let inode := (k.programDentry image process stale).inode
  (image.inodeLength inode).toNat ≤ 4096 * 1023 →
    ∀ j, j < (image.inodeLength inode).toNat →
      k.mem (frameOf process + imageOffset + j) = image.fileByte inode j

instance (image : Image) (k : Kernel) (process : Slot) (stale : Dentry) :
    Decidable (ImageIntact image k process stale) :=
  inferInstanceAs (Decidable (_ → ∀ j, j < _ → _))

theorem imageIntact_iff (stale : Dentry) :
    (∀ j, j < (k.reloadedBytes image process stale).length →
      k.mem (frameOf process + imageOffset + j) = (k.reloadedBytes image process stale).getD j 0) ↔
      ImageIntact image k process stale := by
  rw [ImageIntact, reloadedBytes]
  generalize (k.programDentry image process stale).inode = inode
  by_cases small : (image.inodeLength inode).toNat ≤ 4096 * 1023
  · simp only [programBytes_file image inode small, small, true_implies, List.length_map,
      List.length_range]
    refine forall_congr' fun j => forall_congr' fun bound => ?_
    have cell : ((List.range (image.inodeLength inode).toNat).map (image.fileByte inode)).getD j 0 =
        image.fileByte inode j := by
      simp [List.getD_eq_getElem?_getD, bound]
    rw [cell]
  · rw [programBytes_empty image inode (Nat.lt_of_not_le small)]
    simp [small]

theorem Away.reloadedBytes (away : Away k terminal process cur) (stale : Dentry) :
    cur.reloadedBytes image process stale = k.reloadedBytes image process stale := by
  rw [Kernel.reloadedBytes, Kernel.reloadedBytes, programDentry, programDentry, away.name]

theorem Away.reloaded {stale : Dentry} (away : Away k terminal process cur) (sound : Sound cur)
    (again : Reloaded image stale cur next process) :
    (∀ j, j < mb4 → next.mem (frameOf process + j) = k.mem (frameOf process + j)) ↔
      ImageIntact image k process stale := by
  obtain ⟨chain, consistent⟩ := sound.consistent
  obtain ⟨rest, stack, -⟩ := consistent.toLinked.top away.top
  have listed : process ∈ chain terminal := by
    rw [stack]
    exact List.mem_cons_self
  have loaded : next.cr3 = process := again.cr3.trans (consistent.placed terminal process listed)
  have written := again.loaded
  rw [loaded, show imageAddr = mb128 + imageOffset from rfl, away.reloadedBytes] at written
  obtain ⟨fits, filled⟩ := pokes_page sound.mapped.kernel
    (sound.mapped.program process away.live) (by decide) written
  have window (mem : Nat → UInt8) :
      (∀ j, j < mb4 → mem (frameOf process + j) = k.mem (frameOf process + j)) ↔
        ∀ address, frameOf process ≤ address → address < frameOf process + mb4 →
          mem address = k.mem address := by
    constructor
    · intro same address lower upper
      obtain ⟨j, rfl⟩ := Nat.exists_eq_add_of_le lower
      exact same j (Nat.lt_of_add_lt_add_left upper)
    · intro same j bound
      exact same _ (Nat.le_add_right ..) (Nat.add_lt_add_left bound _)
  rw [window, filled, ← imageIntact_iff]
  exact writeRange_invisible_iff (Nat.le_add_right ..) (by omega) ((window cur.mem).mp away.page)

/-- When a program's terminal is left and later comes back, its page is what it was exactly
if it still held its program file unchanged when the terminal was left. -/
theorem switchMemory_preserved_iff {left gone back : Kernel} {code code' : UInt8}
    {regs regs' : SaveRegs} {stale stale' : Dentry} {events : List Event}
    (reached : Reachable (step image) (Booted image) k) (running : k.foreground = some process)
    (leaves : k.step image (.key code regs stale') = some left) (elsewhere : left.current ≠ k.current)
    (away : Path (step image) (fun cur _ => cur.current ≠ k.current) left events gone)
    (elsewhere' : gone.current ≠ k.current)
    (returns : gone.step image (.key code' regs' stale) = some back)
    (here : back.current = k.current) :
    (∀ j, j < mb4 → back.mem (frameOf process + j) = k.mem (frameOf process + j)) ↔
      ImageIntact image k process stale := by
  have sound := sound_reachable reached
  have soundLeft := sound.step leaves
  obtain ⟨front, running'⟩ := (step_transition leaves).busy sound.consistent ⟨process, running⟩
  have waiting : Away k k.current process left := by
    rcases keyEvent_effect leaves with same | ⟨target, switched, -⟩
    · exact absurd (congrArg ProcessTable.current same.table) elsewhere
    · exact Away.leave sound soundLeft running switched running'
  obtain ⟨soundGone, waiting⟩ := waiting.path away soundLeft ⟨front, running'⟩ elsewhere'
  rcases keyEvent_effect returns with same | ⟨target, switched, ⟨unvisited, -⟩ | reload⟩
  · have stays : back.current = gone.current := congrArg ProcessTable.current same.table
    exact absurd (stays.symm.trans here) elsewhere'
  -- `num_progs` of a terminal that ran a program is not 0, so its shell does not start anew
  · obtain ⟨chain, consistent⟩ := sound.consistent
    obtain ⟨rest, stack, -⟩ := consistent.toLinked.top running
    have counted := consistent.toCounted.current
    have target' : target = k.current := switched.table_eq.1.symm.trans here
    rw [target', waiting.count] at unvisited
    rw [show chain k.table.current = _ from stack, List.length_cons] at counted
    rw [show k.table.numProgs k.table.current = 0 from unvisited] at counted
    split at counted <;> omega
  · obtain ⟨-, process', top, again⟩ := reload
    have target' : target = k.current := switched.table_eq.1.symm.trans here
    rw [target', waiting.top] at top
    cases top
    exact waiting.reloaded soundGone again

def storedEvents (v : Nat) : List Event := [.firstShell noStale, .store v 7] ++ keys [alt]

/-- A byte stored where the program file was loaded is gone after F2 and F1. -/
theorem switchMemory_overwritten :
    ∃ k left back : Kernel, Reachable (step smallImage) (Booted smallImage) k ∧ k.foreground = some 0 ∧
      k.step smallImage (.key f2 noRegs noDentry) = some left ∧ left.current ≠ k.current ∧
      left.step smallImage (.key f1 noRegs noDentry) = some back ∧ back.current = k.current ∧
      ∃ j, j < mb4 ∧ back.mem (frameOf 0 + j) ≠ k.mem (frameOf 0 + j) := by
  have ran : ((runSmall (storedEvents imageAddr)).bind fun k =>
      (k.step smallImage (.key f2 noRegs noDentry)).bind fun left =>
        (left.step smallImage (.key f1 noRegs noDentry)).map fun back =>
          decide (k.foreground = some 0 ∧ left.current ≠ k.current ∧ back.current = k.current ∧
            back.mem (frameOf 0 + imageOffset) ≠ k.mem (frameOf 0 + imageOffset))) = some true := by
    decide +kernel
  obtain ⟨k, computed, found⟩ := Option.bind_eq_some_iff.mp ran
  obtain ⟨left, leaves, found⟩ := Option.bind_eq_some_iff.mp found
  obtain ⟨back, returns, found⟩ := Option.map_eq_some_iff.mp found
  obtain ⟨running, elsewhere, here, changed⟩ := of_decide_eq_true found
  exact ⟨k, left, back, runSmall_reachable computed, running, leaves, elsewhere, returns, here,
    imageOffset, by decide, changed⟩

theorem switchMemory_preserved_stack :
    ∃ k back : Kernel, Reachable (step smallImage) (Booted smallImage) k ∧ k.foreground = some 0 ∧
      ∀ j, j < mb4 → back.mem (frameOf 0 + j) = k.mem (frameOf 0 + j) := by
  have ran : ((runSmall (storedEvents mb128)).bind fun k =>
      (k.step smallImage (.key f2 noRegs noDentry)).bind fun left =>
        (runWhere (step smallImage) (fun cur _ => cur.current ≠ 0) left [.store mb128 9]).bind
          fun gone => (gone.step smallImage (.key f1 noRegs noDentry)).map fun back =>
            decide (k.current = 0 ∧ k.foreground = some 0 ∧ left.current ≠ 0 ∧ gone.current ≠ 0 ∧
              back.current = 0 ∧ ImageIntact smallImage k 0 noDentry)) = some true := by
    decide +kernel
  obtain ⟨k, computed, found⟩ := Option.bind_eq_some_iff.mp ran
  obtain ⟨left, leaves, found⟩ := Option.bind_eq_some_iff.mp found
  obtain ⟨gone, path, found⟩ := Option.bind_eq_some_iff.mp found
  obtain ⟨back, returns, found⟩ := Option.map_eq_some_iff.mp found
  obtain ⟨front, running, elsewhere, elsewhere', here, intact⟩ := of_decide_eq_true found
  have away := (runWhere_path path).mono fun _ _ gone => front.symm ▸ gone
  refine ⟨k, back, runSmall_reachable computed, running, ?_⟩
  exact (switchMemory_preserved_iff (runSmall_reachable computed) running leaves
    (front.symm ▸ elsewhere) away (front.symm ▸ elsewhere') returns (here.trans front.symm)).mpr intact

end Kernel

end G29Os
