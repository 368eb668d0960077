import G29Os.ArgumentTransfer

/-!
The pointer that `system_vidmap` stores through. Its check is on the first byte alone and takes in
the end of the page, but four bytes are stored.
-/

namespace G29Os

open ByteRange StepRun

namespace Kernel

variable {image : Image} {k : Kernel} {process : Slot}

def vidmapRefuses (screenStart : UInt32) : Prop :=
  screenStart = 0 ∨ screenStart.toInt32.toInt < mb128 ∨ mem132mb < screenStart.toInt32.toInt

theorem vidmapRefuses_iff (screenStart : UInt32) :
    vidmapRefuses screenStart ↔ screenStart.toNat < mb128 ∨ mem132mb < screenStart.toNat := by
  have bound := screenStart.toNat_lt
  have signed : screenStart.toInt32.toInt =
      if screenStart.toNat < 2147483648 then (screenStart.toNat : Int)
      else screenStart.toNat - 4294967296 := by
    change screenStart.toBitVec.toInt = _
    rw [BitVec.toInt_eq_toNat_cond, UInt32.toNat_toBitVec]
    split_ifs <;> omega
  have null : screenStart = 0 ↔ screenStart.toNat = 0 := UInt32.toNat_inj.symm
  rw [vidmapRefuses, signed, null]
  simp only [mb128, mem132mb]
  split_ifs <;> omega

/-- The call gives 0, and all that it changes are the four bytes behind the pointer, which lie in the
caller's page and hold `VIDMEM`. -/
structure VidmapStores (process : Slot) (screenStart : Nat) (k next : Kernel) : Prop where
  returned : k.systemVidmap screenStart = some (0, next)
  only : next = { k with mem := next.mem }
  directory : k.cr3 = process
  inside : ∀ i < vidmem.length, mb128 ≤ screenStart + i ∧ screenStart + i < mem132mb ∧
    k.paging.walk process (screenStart + i) = some (frameOf process + (screenStart + i - mb128)) ∧
    next.mem (frameOf process + (screenStart + i - mb128)) = vidmem.getD i 0
  outside : ∀ address, next.mem address ≠ k.mem address →
    ∃ i < vidmem.length, k.paging.walk process (screenStart + i) = some address

def VidmapSafe (process : Slot) (screenStart : Nat) (k : Kernel) : Prop :=
  k.systemVidmap screenStart = some (-1, k) ∨ ∃ next, VidmapStores process screenStart k next

theorem systemVidmap_refused {screenStart : Nat}
    (outside : screenStart < mb128 ∨ mem132mb < screenStart) :
    k.systemVidmap screenStart = some (-1, k) := if_pos outside

theorem systemVidmap_stores {screenStart : Nat}
    (inside : ¬(screenStart < mb128 ∨ mem132mb < screenStart)) :
    k.systemVidmap screenStart = (k.storeBytes screenStart vidmem).map fun stored => (0, stored) :=
  if_neg inside

theorem systemVidmap_faults (reached : Reachable (step image) (Booted image) k)
    (running : k.foreground = some process) {screenStart : Nat} (late : mem132mb - 4 < screenStart)
    (most : screenStart ≤ mem132mb) : k.systemVidmap screenStart = none := by
  have sound := sound_reachable reached
  have inside : ¬(screenStart < mb128 ∨ mem132mb < screenStart) := by
    simp only [mb128, mem132mb] at *
    omega
  rw [systemVidmap_stores inside, Option.map_eq_none_iff]
  by_contra stored
  have writable := storeBytes_isSome_iff.mp (Option.isSome_iff_ne_none.mpr stored)
  obtain ⟨address, walked, user⟩ := writable 3 (by decide)
  rw [sound.front process running,
    sound.mapped.walk (sound.live_foreground running).1 (by simp only [mem132mb] at most; omega)] at walked
  obtain ⟨-, high, -⟩ := processSpace_user walked user
  simp only [mb128, mb4, mem132mb] at high late
  omega

theorem not_vidmapSafe {screenStart : Nat} (late : mem132mb - 4 < screenStart)
    (most : screenStart ≤ mem132mb) : ¬VidmapSafe process screenStart k := by
  rintro (refused | ⟨next, stores⟩)
  · have inside : ¬(screenStart < mb128 ∨ mem132mb < screenStart) := by
      simp only [mb128, mem132mb] at *
      omega
    rw [systemVidmap_stores inside] at refused
    obtain ⟨stored, -, result⟩ := Option.map_eq_some_iff.mp refused
    cases congrArg Prod.fst result
  · obtain ⟨-, last, -⟩ := stores.inside 3 (by decide)
    omega

theorem Sound.vidmapStores (sound : Sound k) (running : k.foreground = some process) {offset : Nat}
    (fits : offset + vidmem.length ≤ mb4) : ∃ next, VidmapStores process (mb128 + offset) k next := by
  have four : vidmem.length = 4 := rfl
  have directory := sound.front process running
  have live := (sound.live_foreground running).1
  have accepted : ¬(mb128 + offset < mb128 ∨ mem132mb < mb128 + offset) := by
    simp only [mb128, mem132mb, mb4] at *
    omega
  have writable := storeBytes_isSome_iff.mpr (sound.page_writable running fits)
  rw [storeBytes_pokes, Option.isSome_map] at writable
  obtain ⟨mem, stored⟩ := Option.isSome_iff_exists.mp writable
  have returned : k.systemVidmap (mb128 + offset) = some (0, { k with mem := mem }) := by
    rw [systemVidmap_stores accepted, storeBytes_pokes, stored]
    rfl
  have walked {i : Nat} (inside : i < vidmem.length) :
      k.paging.walk process (mb128 + offset + i) = some (frameOf process + (offset + i)) := by
    have here := sound.walk_page running (show offset + i < mb4 by omega)
    rwa [directory, ← Nat.add_assoc] at here
  rw [directory] at stored
  have filled := (pokes_page sound.mapped.kernel (sound.mapped.program process live)
    (by omega) stored).2
  refine ⟨_, returned, rfl, directory, fun i inside => ?_, fun address changed => ?_⟩
  · have index : mb128 + offset + i - mb128 = offset + i := by omega
    refine ⟨by omega, ?_, ?_, ?_⟩
    · simp only [mb128, mem132mb, mb4] at *
      omega
    · rw [index]
      exact walked inside
    · rw [index, ← Nat.add_assoc]
      exact (congrFun filled _).trans (writeRange_inside inside)
  · dsimp only at changed
    by_cases beyond : address < frameOf process + offset ∨
        frameOf process + offset + vidmem.length ≤ address
    · rw [filled] at changed
      exact absurd (writeRange_outside beyond) changed
    · obtain ⟨i, rfl⟩ : ∃ i, address = frameOf process + offset + i :=
        ⟨address - (frameOf process + offset), by omega⟩
      have inside : i < vidmem.length := by omega
      exact ⟨i, inside, by rw [walked inside, Nat.add_assoc]⟩

/-- For every pointer: the call is refused or stores its four bytes in the caller's page exactly when
the pointer is not among the last three addresses of the page or the one behind it. -/
theorem systemVidmap_safe_iff (reached : Reachable (step image) (Booted image) k)
    (running : k.foreground = some process) (screenStart : UInt32) :
    VidmapSafe process screenStart.toNat k ↔
      ¬(mem132mb - 4 < screenStart.toNat ∧ screenStart.toNat ≤ mem132mb) := by
  constructor
  · rintro safe ⟨late, most⟩
    exact not_vidmapSafe late most safe
  · intro early
    by_cases outside : screenStart.toNat < mb128 ∨ mem132mb < screenStart.toNat
    · exact Or.inl (systemVidmap_refused outside)
    · obtain ⟨above, below⟩ := not_or.mp outside
      obtain ⟨offset, pointer⟩ := Nat.exists_eq_add_of_le (Nat.le_of_not_lt above)
      have fits : offset + vidmem.length ≤ mb4 := by
        simp only [mem132mb, mb128, mb4, vidmem, List.length_cons, List.length_nil] at *
        omega
      rw [pointer]
      exact Or.inr ((sound_reachable reached).vidmapStores running fits)

/-- The last two bytes of the pointer lie behind the page. -/
theorem systemVidmap_acrossEnd : ∃ k, Reachable (step smallImage) (Booted smallImage) k ∧
    k.foreground = some 0 ∧ ¬VidmapSafe 0 (0x83FFFFE : UInt32).toNat k ∧
    k.systemVidmap (0x83FFFFE : UInt32).toNat = none := by
  obtain ⟨k, reached, running⟩ := shell_running
  exact ⟨k, reached, running, not_vidmapSafe (by decide) (by decide),
    systemVidmap_faults reached running (by decide) (by decide)⟩

theorem systemVidmap_firstPage : ∃ k, Reachable (step smallImage) (Booted smallImage) k ∧
    VidmapSafe 0 (0x8000000 : UInt32).toNat k := by
  obtain ⟨k, reached, running⟩ := shell_running
  exact ⟨k, reached, (systemVidmap_safe_iff reached running 0x8000000).mpr (by decide)⟩

end Kernel

end G29Os
