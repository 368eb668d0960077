import G29Os.ProcessSpaces

/-!
Executing a program and halting it. While a child of `process` runs, the processes that were
there before the call are suspended: `Bracket` says what stays of them.
-/

namespace G29Os

open PointerChain StepRun

namespace ProcessTable

theorem Linked.tracked {table : ProcessTable} {chain : TerminalId → List Slot} {cells : List Slot}
    {terminal : TerminalId} {slot : Slot} (linked : Linked table chain)
    (stack : Chain table.parent (table.currPcb terminal) cells) (member : slot ∈ cells) :
    table.pcbTrack slot = true := by
  have same : cells = chain terminal := stack.unique (linked.follows terminal)
  exact (linked.live slot).mpr ⟨terminal, same ▸ member⟩

end ProcessTable

namespace Kernel

variable {image : Image} {k cur next : Kernel} {chain : TerminalId → List Slot}
  {terminal : TerminalId} {above : List Slot} {process slot : Slot}

/-- The kernel `cur` inside a call made in state `k`: the processes `above` were started since
on the terminal of the call, and those that were live then are as they were. -/
structure Bracket (k : Kernel) (chain : TerminalId → List Slot) (terminal : TerminalId)
    (above : List Slot) (cur : Kernel) : Prop where
  current : cur.current = terminal
  stack : Chain cur.table.parent (cur.currPcb terminal) (above ++ chain terminal)
  fresh : ∀ slot ∈ above, k.pcbTrack slot = false
  tops : ∀ other, other ≠ terminal → cur.currPcb other = k.currPcb other
  counts : ∀ other, other ≠ terminal → cur.numProgs other = k.numProgs other
  live : ∀ slot, k.pcbTrack slot = true → cur.pcbTrack slot = true
  pcbs : ∀ slot, k.pcbTrack slot = true → cur.pcbs slot = k.pcbs slot
  page : ∀ slot, k.pcbTrack slot = true → ∀ j, j < mb4 →
    cur.mem (frameOf slot + j) = k.mem (frameOf slot + j)
  fs : (∀ slot ∈ above, ¬HasFile (cur.pcbs slot).fileArray) ∨
    ∃ slot, cur.fsPcb = some slot ∧ k.pcbTrack slot = false

theorem Bracket.start (consistent : k.table.Consistent chain) :
    Bracket k chain k.current [] k where
  current := rfl
  stack := consistent.follows k.current
  fresh _ member := absurd member List.not_mem_nil
  tops _ _ := rfl
  counts _ _ := rfl
  live _ live := live
  pcbs _ _ := rfl
  page _ _ _ _ := rfl
  fs := Or.inl fun _ member => absurd member List.not_mem_nil

theorem Bracket.front (bracket : Bracket k chain terminal above cur) (inside : above ≠ []) :
    ∃ front rest, above = front :: rest ∧ cur.foreground = some front ∧
      k.pcbTrack front = false ∧
      Chain cur.table.parent (cur.pcbs front).parentPtr (rest ++ chain terminal) := by
  obtain ⟨front, rest, rfl⟩ := List.exists_cons_of_ne_nil inside
  have stack := bracket.stack
  cases top : cur.currPcb terminal with
  | none =>
      rw [top] at stack
      cases stack.eq_nil
  | some process =>
      rw [top] at stack
      obtain ⟨below, split, under⟩ := stack.pop
      cases split
      have running : cur.foreground = some front := by
        rw [foreground, bracket.current, top]
      exact ⟨front, rest, rfl, running, bracket.fresh front List.mem_cons_self, under⟩

theorem Bracket.suspended (bracket : Bracket k chain terminal above cur) (inside : above ≠ [])
    (live : k.pcbTrack slot = true) : cur.foreground ≠ some slot := by
  obtain ⟨front, rest, -, running, fresh, -⟩ := bracket.front inside
  intro same
  cases running.symm.trans same
  rw [live] at fresh
  cases fresh

theorem Bracket.local (bracket : Bracket k chain terminal above cur) (inside : above ≠ [])
    (sound : Sound cur) (same : Local cur next) : Bracket k chain terminal above next := by
  obtain ⟨front, rest, listed, running, fresh, -⟩ := bracket.front inside
  have member : front ∈ above := by
    rw [listed]
    exact List.mem_cons_self
  have frontFile (has : HasFile (cur.pcbs front).fileArray) :
      ∃ slot, cur.fsPcb = some slot ∧ k.pcbTrack slot = false :=
    bracket.fs.resolve_left fun none => none front member has
  have current : next.current = cur.current := congrArg ProcessTable.current same.table
  have currPcb : next.currPcb = cur.currPcb := congrArg ProcessTable.currPcb same.table
  have numProgs : next.numProgs = cur.numProgs := congrArg ProcessTable.numProgs same.table
  have pcbTrack : next.pcbTrack = cur.pcbTrack := congrArg ProcessTable.pcbTrack same.table
  constructor
  · exact current.trans bracket.current
  · rw [same.table, currPcb]
    exact bracket.stack
  · exact bracket.fresh
  · rw [currPcb]
    exact bracket.tops
  · rw [numProgs]
    exact bracket.counts
  · rw [pcbTrack]
    exact bracket.live
  · intro slot live
    rw [← bracket.pcbs slot live]
    rcases same.files slot (bracket.suspended inside live) with kept | ⟨shared, process, front', has⟩
    · exact kept
    · -- `fs_read` works on the PCB of the last open, which is younger than the call
      cases running.symm.trans front'
      obtain ⟨opener, last, young⟩ := frontFile has
      cases shared.symm.trans last
      rw [live] at young
      cases young
  · intro slot live j bound
    rw [← bracket.page slot live j bound]
    have loaded : cur.cr3 = front := sound.front front running
    have apart : slot ≠ front := by
      rintro rfl
      rw [live] at fresh
      cases fresh
    have written := same.page
    rw [loaded] at written
    exact written.page sound.mapped.kernel
      (sound.mapped.program front (sound.live_foreground running).1) apart bound
  · rcases bracket.fs with none | ⟨opener, last, young⟩
    · by_cases opened : next.fsPcb = some front
      · exact Or.inr ⟨front, opened, fresh⟩
      · refine Or.inl fun slot listed has => ?_
        rcases same.opened slot has with before | ⟨front', opens⟩
        · exact none slot listed before
        · cases running.symm.trans front'
          exact opened opens
    · rcases same.fs with kept | opens
      · exact Or.inr ⟨opener, kept.trans last, young⟩
      · exact Or.inr ⟨front, opens.trans running, fresh⟩

theorem Bracket.launched (bracket : Bracket k chain terminal above cur) (sound : Sound cur)
    (launched : Launched cur next slot) : Bracket k chain terminal (slot :: above) next := by
  obtain ⟨chain', consistent⟩ := sound.consistent
  -- a slot in use before the call is still in use, so the new one was free then
  have young : k.pcbTrack slot = false := by
    by_contra old
    have tracked := bracket.live slot (by simpa using old)
    rw [launched.free] at tracked
    cases tracked
  have apart {other : Slot} (tracked : cur.pcbTrack other = true) : other ≠ slot := by
    rintro rfl
    rw [launched.free] at tracked
    cases tracked
  have placed {other : Slot} (member : other ∈ above ++ chain terminal) : other ≠ slot :=
    apart (consistent.toLinked.tracked bracket.stack member)
  have table := launched.table
  have numProgs : next.numProgs = _ := congrArg ProcessTable.numProgs table
  have currPcb : next.currPcb = Function.update cur.currPcb cur.current (some slot) :=
    congrArg ProcessTable.currPcb table
  have pcbTrack : next.pcbTrack = Function.update cur.pcbTrack slot true :=
    congrArg ProcessTable.pcbTrack table
  have parent : next.table.parent = Function.update cur.table.parent slot cur.foreground :=
    congrArg ProcessTable.parent table
  constructor
  · exact (congrArg ProcessTable.current table).trans bracket.current
  · rw [parent, currPcb, bracket.current, Function.update_self]
    refine bracket.stack.push (fun member => placed member rfl) ?_ fun cell different => ?_
    · rw [Function.update_self, foreground, bracket.current]
    · exact Function.update_of_ne different ..
  · intro other member
    rcases List.mem_cons.mp member with same | older
    · exact same ▸ young
    · exact bracket.fresh other older
  · intro other away
    rw [currPcb, bracket.current, Function.update_of_ne away]
    exact bracket.tops other away
  · intro other away
    rw [numProgs]
    have away' : other ≠ cur.current := bracket.current ▸ away
    exact (Function.update_of_ne away' ..).trans (bracket.counts other away)
  · intro other live
    rw [pcbTrack, Function.update_of_ne (apart (bracket.live other live))]
    exact bracket.live other live
  · intro other live
    rw [launched.others other (apart (bracket.live other live))]
    exact bracket.pcbs other live
  · intro other live j bound
    have mapped := launched.mapped sound.mapped
    have tracked : next.pcbTrack slot = true := by
      rw [pcbTrack, Function.update_self]
    rw [← bracket.page other live j bound]
    exact launched.page.page mapped.kernel (mapped.program slot tracked)
      (apart (bracket.live other live)) bound
  · rcases bracket.fs with none | ⟨opener, last, old⟩
    · refine Or.inl fun other member => ?_
      rcases List.mem_cons.mp member with same | older
      · exact same ▸ launched.fresh
      · rw [launched.others other (placed (List.mem_append_left _ older))]
        exact none other older
    · exact Or.inr ⟨opener, launched.fs.trans last, old⟩

theorem Bracket.ended {parent : Slot} (bracket : Bracket k chain terminal above cur)
    (inside : above ≠ []) (sound : Sound cur) (ended : Ended cur next process (some parent)) :
    ∃ rest, above = process :: rest ∧ Bracket k chain terminal rest next := by
  obtain ⟨front, rest, rfl, running, young, under⟩ := bracket.front inside
  cases running.symm.trans ended.top
  refine ⟨rest, rfl, ?_⟩
  have own : (cur.pcbs process).pid = process := (sound.live_foreground running).2
  have others : ∀ other, k.pcbTrack other = true → other ≠ process := by
    rintro other live rfl
    rw [live] at young
    cases young
  have nodup : process ∉ rest ++ chain terminal := (List.nodup_cons.mp bracket.stack.nodup).1
  have table := ended.table
  have numProgs : next.numProgs = _ := congrArg ProcessTable.numProgs table
  have currPcb : next.currPcb = Function.update cur.currPcb cur.current (some parent) :=
    congrArg ProcessTable.currPcb table
  have pcbTrack : next.pcbTrack = Function.update cur.pcbTrack (cur.pcbs process).pid false :=
    congrArg ProcessTable.pcbTrack table
  have links : next.table.parent = cur.table.parent := by
    rw [table]
    rfl
  constructor
  · exact (congrArg ProcessTable.current table).trans bracket.current
  · rw [links, currPcb, bracket.current, Function.update_self, ← ended.linked]
    exact under
  · exact fun other member => bracket.fresh other (List.mem_cons_of_mem process member)
  · intro other away
    rw [currPcb, bracket.current, Function.update_of_ne away]
    exact bracket.tops other away
  · intro other away
    rw [numProgs]
    have away' : other ≠ cur.current := bracket.current ▸ away
    exact (Function.update_of_ne away' ..).trans (bracket.counts other away)
  · intro other live
    rw [pcbTrack, own, Function.update_of_ne (others other live)]
    exact bracket.live other live
  · intro other live
    rw [ended.others other (others other live)]
    exact bracket.pcbs other live
  · intro other live j bound
    rw [ended.mem]
    exact bracket.page other live j bound
  · rcases bracket.fs with none | ⟨opener, last, old⟩
    · refine Or.inl fun other member => ?_
      have different : other ≠ process := by
        rintro rfl
        exact nodup (List.mem_append_left _ member)
      rw [ended.others other different]
      exact none other (List.mem_cons_of_mem process member)
    · exact Or.inr ⟨opener, ended.fs.trans last, old⟩

theorem Bracket.step {event : Event} (bracket : Bracket k chain terminal above cur)
    (inside : above ≠ []) (caller : chain terminal ≠ []) (sound : Sound cur)
    (done : cur.step image event = some next) (stays : next.current = terminal) :
    ∃ above', Bracket k chain terminal above' next := by
  cases step_transition done with
  | stay same => exact ⟨above, bracket.local inside sound same⟩
  | launched started => exact ⟨_, bracket.launched sound started⟩
  | resumed ended =>
      obtain ⟨rest, -, kept⟩ := bracket.ended inside sound ended
      exact ⟨rest, kept⟩
  | relaunched ended =>
      -- the process in front has a caller, so it is no base shell
      obtain ⟨front, rest, -, running, -, under⟩ := bracket.front inside
      cases running.symm.trans ended.top
      rw [ended.linked] at under
      exact absurd (List.append_eq_nil_iff.mp under.eq_nil).2 caller
  | shellStarted switched =>
      have moved := switched.table_eq.1
      exact absurd (moved.symm.trans (stays.trans bracket.current.symm)) switched.other
  | reloaded switched =>
      have moved := switched.table_eq.1
      exact absurd (moved.symm.trans (stays.trans bracket.current.symm)) switched.other

def Inside (terminal : TerminalId) (process : Slot) (k : Kernel) : Prop :=
  k.current = terminal ∧ k.currPcb terminal ≠ some process

instance (terminal : TerminalId) (process : Slot) (k : Kernel) :
    Decidable (Inside terminal process k) := inferInstanceAs (Decidable (_ ∧ _))

theorem Bracket.inside (bracket : Bracket k chain terminal above cur) {rest : List Slot}
    (caller : chain terminal = process :: rest) (away : cur.currPcb terminal ≠ some process) :
    above ≠ [] := by
  rintro rfl
  have stack := bracket.stack
  rw [List.nil_append, caller] at stack
  cases top : cur.currPcb terminal with
  | none =>
      rw [top] at stack
      cases stack.eq_nil
  | some front =>
      rw [top] at stack
      obtain ⟨below, split, -⟩ := stack.pop
      cases split
      exact away top

theorem Bracket.path {events : List Event} {rest : List Slot}
    (caller : chain terminal = process :: rest)
    (path : Path (Kernel.step image) (fun cur _ => Inside terminal process cur) cur events next)
    (bracket : Bracket k chain terminal above cur) (sound : Sound cur)
    (ends : next.current = terminal) :
    Sound next ∧ ∃ above', Bracket k chain terminal above' next := by
  induction path generalizing above with
  | nil => exact ⟨sound, above, bracket⟩
  | @cons cur middle finish event events away taken later ih =>
      have stays : middle.current = terminal := by
        cases later with
        | nil => exact ends
        | cons away' => exact away'.1
      have occupied : chain terminal ≠ [] := by
        rw [caller]
        exact List.cons_ne_nil _ _
      obtain ⟨above', kept⟩ :=
        bracket.step (bracket.inside caller away.2) occupied sound taken stays
      exact ih kept (sound.step taken) ends

structure Restored (k next : Kernel) (process : Slot) : Prop where
  pcbTrack : next.pcbTrack = k.pcbTrack
  currPcb : next.currPcb = k.currPcb
  numProgs : next.numProgs = k.numProgs
  cr3 : next.cr3 = k.cr3
  pcb : next.pcbs process = k.pcbs process
  page : ∀ j, j < mb4 → next.mem (frameOf process + j) = k.mem (frameOf process + j)

theorem Bracket.restored {rest : List Slot} (sound : Sound k) (sound' : Sound next)
    (consistent : k.table.Consistent chain) (running : k.foreground = some process)
    (caller : chain k.current = process :: rest)
    (bracket : Bracket k chain k.current above next)
    (back : next.currPcb k.current = some process) : Restored k next process := by
  obtain ⟨chain', consistent'⟩ := sound'.consistent
  have live : k.pcbTrack process = true := (sound.live_foreground running).1
  have alone : above = [] := by
    by_contra inside
    have suspended := bracket.suspended inside live
    rw [foreground, bracket.current] at suspended
    exact suspended back
  subst alone
  have links (other : TerminalId) (cell : Slot) (member : cell ∈ chain other) :
      next.table.parent cell = k.table.parent cell :=
    congrArg Pcb.parentPtr (bracket.pcbs cell ((consistent.live cell).mpr ⟨other, member⟩))
  have currPcb : next.currPcb = k.currPcb := by
    funext other
    rcases eq_or_ne other k.current with here | away
    · subst here
      exact back.trans running.symm
    · exact bracket.tops other away
  -- the links of the processes of `k` are unchanged, and a chain is determined by them
  have chains : chain' = chain := by
    funext other
    have follows : Chain next.table.parent (next.currPcb other) (chain other) := by
      rw [currPcb]
      exact (consistent.follows other).congr (links other)
    exact (consistent'.follows other).unique follows
  subst chains
  constructor
  · funext slot
    have same : next.pcbTrack slot = true ↔ k.pcbTrack slot = true :=
      (consistent'.live slot).trans (consistent.live slot).symm
    exact Bool.eq_iff_iff.mpr same
  · exact currPcb
  · funext other
    rcases eq_or_ne other k.current with here | away
    · subst here
      have after := consistent'.toCounted.current
      rw [show next.table.current = k.current from bracket.current] at after
      exact after.trans consistent.toCounted.current.symm
    · exact bracket.counts other away
  · have front : next.foreground = some process := by
      rw [foreground, bracket.current]
      exact back
    exact (sound'.front process front).trans (sound.front process running).symm
  · exact bracket.pcbs process live
  · exact bracket.page process live

theorem executeBracket_restores {command : List UInt8} {stale : Stale} {started returning : Kernel}
    {events : List Event} {event : Event} (reached : Reachable (step image) (Booted image) k)
    (running : k.running = some process)
    (called : k.systemExecute image command stale = some (.started started))
    (child : Path (step image) (fun cur _ => Inside k.current process cur) started events returning)
    (inside : Inside k.current process returning)
    (returned : returning.step image event = some next) (stays : next.current = k.current)
    (back : next.currPcb k.current = some process) : Restored k next process := by
  have sound := sound_reachable reached
  obtain ⟨chain, consistent⟩ := sound.consistent
  have front := running_foreground running
  obtain ⟨rest, caller, -⟩ := consistent.toLinked.top front
  obtain ⟨slot, launched⟩ := executeStarted_launched called
  have entered := (Bracket.start consistent).launched sound launched
  have begun : k.step image (.execute command stale) = some started := by
    simp only [step, running, Option.bind_some, programEvent, called, executed]
  obtain ⟨sound', above, bracket⟩ :=
    Bracket.path caller child entered (sound.step begun) inside.1
  have occupied : chain k.current ≠ [] := by
    rw [show chain k.current = _ from caller]
    exact List.cons_ne_nil _ _
  obtain ⟨above', finished⟩ :=
    bracket.step (bracket.inside caller inside.2) occupied sound' returned stays
  exact finished.restored sound (sound'.step returned) consistent front caller back

end Kernel

end G29Os
