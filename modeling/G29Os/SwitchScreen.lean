import G29Os.ConsoleText
import G29Os.DriverSteps
import G29Os.KeyWrites

/-!
The screen of a terminal over a switch to another one and back. Its characters wait in a
back buffer; its write position comes back from `start_position`.
-/

namespace G29Os

open StepRun

namespace Tty

variable {tty next last : Tty} {terminal cur : TerminalId} {code : UInt8}

structure Local (cur : TerminalId) (tty next : Tty) : Prop where
  start : ∀ other, other ≠ cur → next.startPosition other = tty.startPosition other
  vbuffer : next.vbuffer = tty.vbuffer

namespace Local

theorem of_eq (start : next.startPosition = tty.startPosition) (vbuffer : next.vbuffer = tty.vbuffer) :
    Local cur tty next := ⟨fun _ _ => by rw [start], vbuffer⟩

theorem trans (first : Local cur tty next) (second : Local cur next last) : Local cur tty last where
  start other apart := (second.start other apart).trans (first.start other apart)
  vbuffer := second.vbuffer.trans first.vbuffer

theorem ofWrites (writes : Writes cur tty next) : Local cur tty next := by
  refine writes.keeps (Local cur tty) (fun before after kept write => ?_) (of_eq rfl rfl)
  refine kept.trans ?_
  cases write with
  | start position => exact ⟨fun other apart => Function.update_of_ne apart .., rfl⟩
  | _ => exact of_eq rfl rfl

end Local

section Switched

variable {target : TerminalId}

theorem currTerminal_switchedTo : (tty.switchedTo target code).currTerminal = target := rfl

theorem startPosition_switchedTo : (tty.switchedTo target code).startPosition = tty.startPosition := rfl

theorem vbuffer_other {other : TerminalId} (apart : other ≠ tty.currTerminal) :
    (tty.switchedTo target code).vbuffer other = tty.vbuffer other := by
  simp only [switchedTo, switchScreen]
  exact Function.update_of_ne apart ..

theorem cell_inside {cell : Nat} (inside : cell < 2000) :
    (0 : Int) ≤ 2 * cell ∧ (2 * cell : Int) < vidmemSize := by
  simp only [vidmemSize]
  omega

theorem vbuffer_left {cell : Nat} (inside : cell < 2000) :
    (tty.switchedTo target code).vbuffer tty.currTerminal (2 * cell) = tty.console.charAt cell := by
  have front : (recallStart target
      (setModifiers (tty.modifiers.key code) (tty.mapPic (disableIrq keyboardIrq)))).currTerminal =
      tty.currTerminal := rfl
  simp only [switchedTo, switchScreen]
  rw [front, Function.update_self, if_pos (cell_inside inside)]
  exact Console.charAt_setNewPosition

theorem charAt_switchedTo {cell : Nat} (inside : cell < 2000) (other : target ≠ tty.currTerminal) :
    (tty.switchedTo target code).console.charAt cell = tty.vbuffer target (2 * cell) := by
  have even : ¬(0 ≤ (2 * cell : Int) ∧ (2 * cell : Int) < 2 * (numRows * numCols) ∧
      (2 * cell : Int) % 2 = 1) := by omega
  have kept := @vbuffer_other tty code target target other
  simp only [switchedTo, switchScreen] at kept
  simp only [Console.charAt, switchedTo, switchScreen]
  rw [if_neg even, if_pos (cell_inside inside), kept]

theorem position_switchedTo :
    ((tty.switchedTo target code).console.screenX, (tty.switchedTo target code).console.screenY) =
      normalizePosition (tty.startPosition target).xCoord.toNat
        (tty.startPosition target).yCoord.toNat := rfl

end Switched

end Tty

namespace Kernel

variable {image : Image} {k next : Kernel} {terminal : TerminalId} {event : Event}

theorem step_screen (done : k.step image event = some next) :
    next.current = k.current ∧ Tty.Local k.current k.tty next.tty ∨
      ∃ target code, target ≠ k.current ∧ next.tty = k.tty.switchedTo target code := by
  have driver := step_driver done
  rw [show next.current = next.tty.currTerminal from rfl]
  generalize next.tty = tty at driver ⊢
  cases driver with
  | silent => exact Or.inl ⟨rfl, Tty.Local.of_eq rfl rfl⟩
  | @key code regs stale inRow =>
      rcases k.tty.afterKey_writes code with writes | ⟨target, other, switched⟩
      · exact Or.inl ⟨writes.currTerminal, Tty.Local.ofWrites writes⟩
      · exact Or.inr ⟨target, code, other, switched⟩
  | @access user reading =>
      have same := k.tty.readStep_screen k.current user.call
      exact Or.inl ⟨same.current, Tty.Local.of_eq same.start same.vbuffer⟩
  | @write fd bytes =>
      have writes := @Tty.Writes.terminalWrite k.tty k.current bytes rfl
      exact Or.inl ⟨writes.currTerminal, Tty.Local.ofWrites writes⟩
  | print text => exact Or.inl ⟨rfl, Tty.Local.of_eq rfl rfl⟩

structure Waiting (terminal : TerminalId) (k cur : Kernel) : Prop where
  chars : ∀ cell : Nat, cell < 2000 → cur.tty.vbuffer terminal (2 * cell) = k.tty.console.charAt cell
  start : cur.tty.startPosition terminal = k.tty.startPosition terminal

def ScreenRestored (k back : Kernel) : Prop :=
  (∀ cell, cell < 2000 → back.tty.console.charAt cell = k.tty.console.charAt cell) ∧
    back.tty.console.screenX = k.tty.console.screenX ∧
      back.tty.console.screenY = k.tty.console.screenY

def WritesAtStart (k : Kernel) : Prop :=
  normalizePosition (k.tty.startPosition k.current).xCoord.toNat
      (k.tty.startPosition k.current).yCoord.toNat =
    (k.tty.console.screenX, k.tty.console.screenY)

theorem Waiting.leave {left : Kernel} (leaves : k.step image event = some left)
    (elsewhere : left.current ≠ k.current) : Waiting k.current k left := by
  rcases step_screen leaves with ⟨stays, -⟩ | ⟨target, code, -, switched⟩
  · exact absurd stays elsewhere
  · refine ⟨fun cell inside => ?_, ?_⟩
    · rw [switched]
      exact Tty.vbuffer_left inside
    · rw [switched, Tty.startPosition_switchedTo]

theorem Waiting.step {cur : Kernel} (waiting : Waiting terminal k cur) (away : cur.current ≠ terminal)
    (done : cur.step image event = some next) : Waiting terminal k next := by
  rcases step_screen done with ⟨-, kept⟩ | ⟨target, code, -, switched⟩
  · refine ⟨fun cell inside => ?_, ?_⟩
    · rw [kept.vbuffer]
      exact waiting.chars cell inside
    · exact (kept.start terminal away.symm).trans waiting.start
  · refine ⟨fun cell inside => ?_, ?_⟩
    · rw [switched, Tty.vbuffer_other away.symm]
      exact waiting.chars cell inside
    · rw [switched, Tty.startPosition_switchedTo]
      exact waiting.start

/-- When a terminal comes back, its characters do; the write position does exactly if it was
at `start_position` when the terminal was left. -/
theorem screenRestored_iff {left gone back : Kernel} {leaving returning : Event} {events : List Event}
    (leaves : k.step image leaving = some left) (elsewhere : left.current ≠ k.current)
    (away : Path (step image) (fun cur _ => cur.current ≠ k.current) left events gone)
    (elsewhere' : gone.current ≠ k.current) (returns : gone.step image returning = some back)
    (here : back.current = k.current) :
    (∀ cell, cell < 2000 → back.tty.console.charAt cell = k.tty.console.charAt cell) ∧
      (ScreenRestored k back ↔ WritesAtStart k) := by
  have waiting : Waiting k.current k gone := away.preserves (Waiting k.current k)
    (fun _ _ _ other waiting done => waiting.step other done) (Waiting.leave leaves elsewhere)
  rcases step_screen returns with ⟨stays, -⟩ | ⟨target, code, other, switched⟩
  · exact absurd (stays.symm.trans here) elsewhere'
  · have target' : target = k.current := by
      rw [← here, show back.current = back.tty.currTerminal from rfl, switched]
      exact Tty.currTerminal_switchedTo.symm
    subst target'
    have chars (cell : Nat) (inside : cell < 2000) :
        back.tty.console.charAt cell = k.tty.console.charAt cell := by
      rw [switched, Tty.charAt_switchedTo inside other, waiting.chars cell inside]
    have position : (back.tty.console.screenX, back.tty.console.screenY) =
        normalizePosition (k.tty.startPosition k.current).xCoord.toNat
          (k.tty.startPosition k.current).yCoord.toNat := by
      rw [switched, Tty.position_switchedTo, waiting.start]
    refine ⟨chars, ?_⟩
    rw [WritesAtStart, ← position, Prod.mk.injEq]
    exact ⟨fun restored => restored.2, fun same => ⟨chars, same⟩⟩

/-- The shell has written "hi". -/
def promptShown : List Event := [.firstShell noStale, .write 1 [0x68, 0x69]] ++ keys [alt]

theorem screenRestored_emptyLine :
    ∃ k left back : Kernel, Reachable (step smallImage) (Booted smallImage) k ∧
      k.step smallImage (.key f2 noRegs noDentry) = some left ∧
      left.step smallImage (.key f1 noRegs noDentry) = some back ∧
      (k.tty.console.charAt 0 = 0x68 ∧ k.tty.console.charAt 1 = 0x69 ∧ k.tty.console.screenX = 2) ∧
      ScreenRestored k back := by
  have ran : (runSmall promptShown).bind (fun k =>
      (k.step smallImage (.key f2 noRegs noDentry)).bind fun left =>
        (left.step smallImage (.key f1 noRegs noDentry)).map fun back =>
          decide (k.current = 0 ∧ left.current = 1 ∧ back.current = 0 ∧
            (k.tty.console.charAt 0 = 0x68 ∧ k.tty.console.charAt 1 = 0x69 ∧
              k.tty.console.screenX = 2) ∧
            normalizePosition (k.tty.startPosition 0).xCoord.toNat
              (k.tty.startPosition 0).yCoord.toNat =
                (k.tty.console.screenX, k.tty.console.screenY))) = some true := by decide +kernel
  obtain ⟨k, computed, found⟩ := Option.bind_eq_some_iff.mp ran
  obtain ⟨left, leaves, found⟩ := Option.bind_eq_some_iff.mp found
  obtain ⟨back, returns, checks⟩ := Option.map_eq_some_iff.mp found
  obtain ⟨front, behind, again, shown, start⟩ := of_decide_eq_true checks
  have elsewhere : left.current ≠ k.current := by
    rw [front, behind]
    decide
  have atStart : WritesAtStart k := by
    rw [WritesAtStart, front]
    exact start
  exact ⟨k, left, back, runSmall_reachable computed, leaves, returns, shown,
    (screenRestored_iff leaves elsewhere (Path.nil left) elsewhere returns
      (again.trans front.symm)).2.mpr atStart⟩

def letterTyped : List Event := [.firstShell noStale] ++ keys [0x1E, alt]

/-- With a letter on the line the cursor comes back under it. -/
theorem screenRestored_typed :
    ¬∀ (image : Image) (k left gone back : Kernel) (leaving returning : Event) (events : List Event),
      Reachable (step image) (Booted image) k → k.step image leaving = some left →
        left.current ≠ k.current →
          Path (step image) (fun cur _ => cur.current ≠ k.current) left events gone →
            gone.current ≠ k.current → gone.step image returning = some back →
              back.current = k.current → ScreenRestored k back := by
  have ran : (runSmall letterTyped).bind (fun k =>
      (k.step smallImage (.key f2 noRegs noDentry)).bind fun left =>
        (left.step smallImage (.key f1 noRegs noDentry)).map fun back =>
          decide (k.current = 0 ∧ left.current = 1 ∧ back.current = 0 ∧
            k.tty.console.screenX = 1 ∧ back.tty.console.screenX = 0)) = some true := by
    decide +kernel
  intro claimed
  obtain ⟨k, computed, found⟩ := Option.bind_eq_some_iff.mp ran
  obtain ⟨left, leaves, found⟩ := Option.bind_eq_some_iff.mp found
  obtain ⟨back, returns, checks⟩ := Option.map_eq_some_iff.mp found
  obtain ⟨front, behind, again, before, after⟩ := of_decide_eq_true checks
  have elsewhere : left.current ≠ k.current := by
    rw [front, behind]
    decide
  have restored := claimed smallImage k left left back _ _ [] (runSmall_reachable computed) leaves
    elsewhere (Path.nil left) elsewhere returns (again.trans front.symm)
  have same := restored.2.1
  rw [before, after] at same
  exact absurd same (by decide)

end Kernel

end G29Os
