import G29Os.DirectoryLookup
import G29Os.StruckParent

/-!
Round trips whose own frames have reached the PCBs. The pid and the name are still whole, so the trips go
on, until a call of `system_execute` stores over the pid.
-/

namespace G29Os

open PageTables StepRun StrayWrites

namespace Kernel

variable {table : FopsTable} {s next : StackedKernel} {k : Kernel} {here there : TerminalId}
  {trips : TerminalId → Nat} {stray : PcbCell → Option UInt8}

/-- Bytes from `esp0` down to the last one that a key on its way through `reload_program` stores. -/
def keyDepth : Nat := 524

def keyFrame (k : Kernel) (cell : PcbCell) : Option UInt8 :=
  let address := pcbAddr cell.1 + cell.2
  if k.esp0 ≤ address + keyDepth ∧ address < k.esp0 then some 0 else none

def headSize : Nat := nameAt + nameSize

def HeadsClear (stray : PcbCell → Option UInt8) : Prop := ∀ cell : PcbCell, cell.2 < headSize → stray cell = none

theorem strayAt_clear (clear : HeadsClear stray) (slot : Slot) {j : Nat} (inside : j < headSize) :
    strayAt stray slot j = none := by
  rw [strayAt]
  split
  · exact clear _ inside
  · rfl

theorem rereadPcbs_pid (clear : HeadsClear stray) (slot : Slot) :
    ((k.rereadPcbs table stray).pcbs slot).pid = (k.pcbs slot).pid := by
  refine rereadPcb_pid fun j inside => strayAt_clear clear slot ?_
  simp only [headSize, nameAt, nameSize]
  omega

theorem rereadPcbs_name (clear : HeadsClear stray) (slot : Slot) {j : Nat} (inside : j < nameSize) :
    ((k.rereadPcbs table stray).pcbs slot).name j = (k.pcbs slot).name j :=
  rereadText_clean (strayAt_clear clear slot (Nat.add_lt_add_left inside nameAt))

theorem Shuttle.reread (shuttle : Shuttle k here there) (clear : HeadsClear stray) :
    Shuttle (k.rereadPcbs table stray) here there := by
  refine ⟨⟨shuttle.mapped.kernel, shuttle.mapped.program⟩, shuttle.current, shuttle.altDown, shuttle.lines,
    shuttle.idle, shuttle.visited, fun terminal either => ?_⟩
  obtain ⟨process, top, live, placed, named⟩ := shuttle.top terminal either
  refine ⟨process, top, live, (rereadPcbs_pid clear process).trans placed, ?_⟩
  rw [Image.readDentryByName_prefix fun j inside => rereadPcbs_name clear process (Nat.lt_of_lt_pred inside)]
  exact named

theorem Drifted.reread (drifted : Drifted k trips) : Drifted (k.rereadPcbs table stray) trips :=
  ⟨drifted.front, drifted.away⟩

structure Limping (s : StackedKernel) (here there : TerminalId) (trips : TerminalId → Nat) : Prop where
  shuttle : Shuttle s.state here there
  drifted : Drifted s.state trips
  heads : HeadsClear s.stray
  second : s.state.currPcb 1 = some 1
  freeSlot : s.state.freeSlot = some 3

theorem keyFrame_heads {process : Slot} (drifted : Drifted k trips) (front : k.foreground = some process)
    (near : trips k.current ≤ 208) : HeadsClear (keyFrame k) := by
  have place := drifted.place front (by omega)
  have top := stackTop_pcb process
  intro cell head
  refine if_neg (@frame_misses k process cell.1 keyDepth headSize cell.2 ?_ ?_ head)
  · omega
  · simp only [headSize, keyDepth, nameAt, nameSize]
    omega

theorem Limping.step {code : UInt8} (limping : Limping s here there trips) (other : there ≠ here)
    (asked : Tty.switchTarget code = some there) (near : trips here ≤ 208) :
    ∃ move next, Real table smallImage s move ∧ (pcbLayout table smallImage).run s move = some next ∧
      Limping next there here (Function.update trips there (trips there + 1)) := by
  let event : Event := .key code { noRegs with esp := s.state.wrapperEsp } noDentry
  let move : StackMove := { event := event, writes := keyFrame s.state }
  obtain ⟨after, taken, swapped, shuttle⟩ : ∃ after, s.state.step smallImage event = some after ∧
    Swapped s.state after there _ ∧ Shuttle after there here := limping.shuttle.step other asked
  have current := limping.shuttle.current
  obtain ⟨process, top, -⟩ := limping.shuttle.top here (Or.inl rfl)
  have front : s.state.foreground = some process := by
    rw [foreground, current]
    exact top
  have clear := keyFrame_heads limping.drifted front (current.symm ▸ near)
  have user : UserKey s.state event := @Shuttle.user _ _ _ code noDentry limping.shuttle other asked
  have made : s.state.mappedStep smallImage event = some after :=
    (mappedStep_mapped limping.shuttle.mapped.kernel user.1.2).trans taken
  let settled := (pcbLayout table smallImage).settled s move after
  have stray : settled.stray = fun cell => (keyFrame s.state cell).or (s.stray cell) := by
    funext cell
    change (keyFrame s.state cell).or (if decide (makes smallImage s.state event after = some cell.1) then _ else _) = _
    simp only [event, makes, reduceCtorEq, decide_false, Bool.false_eq_true, if_false]
  have heads : HeadsClear settled.stray := by
    intro cell head
    rw [stray]
    change (keyFrame s.state cell).or (s.stray cell) = none
    rw [clear cell head, limping.heads cell head]
    rfl
  refine ⟨move, settled, ⟨⟨?_, ?_⟩, user.1.1⟩, pcbLayout_run made, shuttle.reread heads, ?_, heads, ?_, ?_⟩
  · rintro cell ⟨-, -, -, part⟩
    have head : cell.2 < headSize := by
      simp only [argsAt, headSize, nameAt, nameSize] at part ⊢
      omega
    exact ⟨clear cell head, by rw [Layout.memory, limping.heads cell head]; rfl⟩
  · intro command stale same
    cases same
  · have drifted := limping.drifted.step user.1.1 taken
    have visited : s.state.numProgs there ≠ 0 := limping.shuttle.visited there (Or.inr rfl)
    have noted : noteTrips smallImage s.state event after trips =
        Function.update trips there (trips there + 1) := by
      simp only [event, noteTrips, shuttle.current, current, if_neg other, if_neg visited]
    rw [noted] at drifted
    exact drifted.reread
  · exact (congrFun swapped.fields.2.1 1).trans limping.second
  · have live : after.pcbTrack = s.state.pcbTrack := swapped.fields.2.2.1
    have free : after.freeSlot = some 3 := by
      rw [Kernel.freeSlot, live]
      exact limping.freeSlot
    exact free

theorem Limping.rounds (limping : Limping s 1 0 trips) (count : Nat) (near : trips 1 + count ≤ 208)
    (near' : trips 0 + count ≤ 208) : ∃ moves finish trips', Path (pcbLayout table smallImage).run
      (Real table smallImage) s moves finish ∧ Limping finish 1 0 trips' ∧ trips' 1 = trips 1 + count := by
  induction count generalizing s trips with
  | zero => exact ⟨[], s, trips, Path.nil s, limping, rfl⟩
  | succ count ih =>
      obtain ⟨away, gone, leaves, left, limping'⟩ := @Limping.step table _ _ _ _ f1 limping (by decide) rfl (by omega)
      obtain ⟨home, back, returns, came, limping''⟩ := @Limping.step table _ _ _ _ f2 limping' (by decide) rfl
        (by simp only [Function.update_self]; omega)
      have first : Function.update (Function.update trips 0 (trips 0 + 1)) 1
          (Function.update trips 0 (trips 0 + 1) 1 + 1) 1 = trips 1 + 1 := by
        rw [Function.update_self, Function.update_of_ne (by decide)]
      have zeroth : Function.update (Function.update trips 0 (trips 0 + 1)) 1
          (Function.update trips 0 (trips 0 + 1) 1 + 1) 0 = trips 0 + 1 := by
        rw [Function.update_of_ne (by decide), Function.update_self]
      obtain ⟨moves, finish, trips', path, ends, counted⟩ := ih limping'' (by omega) (by omega)
      exact ⟨away :: home :: moves, finish, trips', Path.cons leaves left (Path.cons returns came path), ends, by omega⟩

def tornCommand : List UInt8 := shellName ++ [0x20] ++ List.replicate 20 0x61

theorem limping_reached (table : FopsTable) : ∃ start moves s trips, Booted smallImage start ∧
    Path (pcbLayout table smallImage).run (Real table smallImage) (Strayed.alone start) moves s ∧
      Limping s 1 0 trips ∧ trips 1 = 208 := by
  obtain ⟨start, first, booted, path, shuttle, running, none, free, -⟩ := twoShells_shuttle
  have drifted : Drifted first fun _ => 0 := by
    have counted := booted.drifts (path.mono fun _ _ => And.left)
    rwa [show roundTrips smallImage start twoShells = fun _ => 0 from funext none] at counted
  have second : first.currPcb 1 = some 1 := by
    rw [running_idle_iff (shuttle.idle _), shuttle.current] at running
    exact running
  have limping : Limping (Strayed.alone first) 1 0 fun _ => 0 := ⟨shuttle, drifted, fun _ _ => rfl, second, free⟩
  obtain ⟨moves, s, trips, rounds, ends, counted⟩ := @Limping.rounds table _ _ limping 208 (by decide) (by decide)
  exact ⟨start, _, s, trips, booted, (quiet_path booted.sound (twoShells_uncalled path)).append rounds, ends,
    counted⟩

theorem Limping.esp0 (limping : Limping s 1 0 trips) (counted : trips 1 = 208) : s.state.esp0 = pcbAddr 1 + 700 := by
  have front : s.state.foreground = some 1 := by
    rw [foreground, limping.shuttle.current]
    exact limping.second
  obtain ⟨drift, bound⟩ := limping.drifted.front 1 front
  rw [limping.shuttle.current, counted] at drift
  have top : stackTop 1 = 8380412 := rfl
  have base : pcbAddr 1 = 8372224 := rfl
  omega

theorem tornCommand_frame (place : k.esp0 = pcbAddr 1 + 700) (j : Fin pcbSize) (low : j.val < argsAt) :
    newPcbFrame table tornCommand k (1, j) = if j.val = 0 then some 0 else none := by
  have offset : pcbAddr 1 + j.val + newPcbDepth = k.esp0 + (argsAt + 20 + j.val) := by
    simp only [newPcbDepth, argsAt]
    omega
  refine (@newPcbFrame_at table k tornCommand (1, j) _ offset).trans ?_
  generalize j.val = i at low
  simp only [argsAt] at low
  obtain rfl | rfl | rfl | rfl : i = 0 ∨ i = 1 ∨ i = 2 ∨ i = 3 := by omega
  all_goals rfl

theorem Limping.struck_head (limping : Limping s 1 0 trips) (counted : trips 1 = 208) (j : Fin pcbSize)
    (low : j.val < argsAt) : struck table tornCommand s (1, j) = if j.val = 0 then some 0 else none := by
  have head : j.val < headSize := Nat.lt_trans low (by decide)
  rw [struck, tornCommand_frame (limping.esp0 counted) j low, limping.heads (1, j) head, Option.or_none]

theorem Limping.struck_pid (limping : Limping s 1 0 trips) (counted : trips 1 = 208) :
    (struckPcb table tornCommand s).pid = 0 := by
  obtain ⟨process, top, -, placed, -⟩ := limping.shuttle.top 1 (Or.inl rfl)
  obtain rfl : process = 1 := Option.some.inj (top.symm.trans limping.second)
  let stray := strayAt (struck table tornCommand s) 1
  have shown (j : Nat) (low : j < 4) : stray j = if j = 0 then some 0 else none := by
    have inside : j < pcbSize := Nat.lt_trans low (by decide)
    rw [show stray j = struck table tornCommand s (1, ⟨j, inside⟩) from dif_pos inside]
    exact limping.struck_head counted ⟨j, inside⟩ low
  have bytes (j : Nat) (low : j < 4) : (stray (0 + j)).getD (pcbByte table (s.state.pcbs 1) (0 + j)) = byteAt 0 j := by
    rw [pcbByte_pid low, placed, Nat.zero_add, shown j low]
    obtain rfl | rfl | rfl | rfl : j = 0 ∨ j = 1 ∨ j = 2 ∨ j = 3 := by omega
    all_goals rfl
  have touched : spoilt stray 0 4 = true := by
    rw [spoilt, List.any_eq_true]
    exact ⟨0, by decide, congrArg Option.isSome (shown 0 (by decide))⟩
  have word : rereadWord (fun j => (stray j).getD (pcbByte table (s.state.pcbs 1) j)) stray 0 slotOf
      (s.state.pcbs 1).pid = 0 := by
    rw [rereadWord, touched, if_pos rfl, wordFrom_congr bytes, wordFrom_byteAt (by decide)]
    rfl
  simp only [struckPcb, rereadPcb]
  exact word

theorem cr3_torn (table : FopsTable) : ∃ start moves s, Booted smallImage start ∧
    Path (pcbLayout table smallImage).run (Real table smallImage) (Strayed.alone start) moves s ∧
      s.state.running = some 1 ∧ s.state.cr3 = 0 := by
  obtain ⟨start, moves, s, trips, booted, path, limping, counted⟩ := limping_reached table
  have settles (j : Fin pcbSize) (low : j.val < argsAt) (byte : UInt8)
      (written : struck table tornCommand s (1, j) = some byte) :
      byteAt (struckPcb table tornCommand s).pid j = byte := by
    rw [limping.struck_pid counted]
    rw [limping.struck_head counted j low] at written
    split at written
    · rename_i first
      rw [first, ← Option.some.inj written]
      rfl
    · cases written
  have running : s.state.running = some 1 := by
    rw [running_idle_iff (limping.shuttle.idle _), limping.shuttle.current]
    exact limping.second
  have high : pcbAddr 1 ≤ s.state.esp0 := by
    rw [limping.esp0 counted]
    exact Nat.le_add_right ..
  obtain ⟨begun, started, -, begins, runs⟩ := @struck_childRuns table s tornCommand limping.shuttle.mapped
    limping.shuttle.idle running limping.freeSlot high (by decide)
  obtain ⟨back, halts, returns⟩ := runs.halts
  have calls : Real table smallImage s (executeMove table tornCommand noStale s.state) := ⟨executeMove_faithful, trivial⟩
  have whole := path.append (Path.cons calls begins (Path.cons ⟨runs.faithful settles, trivial⟩ halts (Path.nil back)))
  exact ⟨start, _, back, booted, whole, returns.running, returns.cr3.trans (limping.struck_pid counted)⟩

end Kernel

end G29Os
