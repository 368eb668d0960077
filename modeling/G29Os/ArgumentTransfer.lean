import G29Os.DirectoryLookup
import G29Os.SwitchMemory

/-!
What `system_getargs` stores in the buffer of its caller. It copies as many bytes as the caller
asks for, whatever the length of the arguments, and a NUL to the place behind them.
-/

namespace G29Os

open ByteRange PageTables StepRun

theorem processSpace_user {pid : Slot} {v address : Nat} (mapped : processSpace pid v = some address)
    (user : kernelMemEnd ≤ address) :
    mb128 ≤ v ∧ v < mb128 + mb4 ∧ address = frameOf pid + (v - mb128) := by
  rw [processSpace] at mapped
  split at mapped
  · rename_i low
    cases mapped
    simp only [kernelMemEnd, mb4] at user low
    omega
  · split at mapped
    · rename_i page
      exact ⟨page.1, page.2, (Option.some.inj mapped).symm⟩
    · cases mapped

theorem IsCString.textOf_eq {args : Nat → UInt8} {text : List UInt8} (string : IsCString args text)
    {i : Nat} (inside : i ≤ text.length) : args i = textOf text i := by
  rcases Nat.lt_or_eq_of_le inside with before | rfl
  · rw [string.bytes i before, textOf, List.getD_eq_getElem _ _ before]
  · rw [string.ends, textOf, List.getD_eq_default _ _ (Nat.le_refl _)]

namespace Kernel

variable {image : Image} {k next : Kernel} {process : Slot} {buf : Nat} {nbytes : Int}
  {text : List UInt8} {pcb : Pcb} {behind : Nat → UInt8}

def Writable (k : Kernel) (buf count : Nat) : Prop :=
  ∀ i, i < count → ∃ address, k.paging.walk k.cr3 (buf + i) = some address ∧ kernelMemEnd ≤ address

theorem pokes_isSome_iff {tables : PageTables} {pid : Slot} {v : Nat} {bytes : List UInt8}
    {mem : Nat → UInt8} : (pokes tables pid v bytes mem).isSome ↔
      ∀ i, i < bytes.length → ∃ address, tables.walk pid (v + i) = some address ∧ kernelMemEnd ≤ address := by
  induction bytes generalizing v mem with
  | nil => simp [pokes]
  | cons byte bytes ih =>
      rw [pokes]
      constructor
      · intro done i inside
        obtain ⟨mem', taken⟩ := Option.isSome_iff_exists.mp done
        obtain ⟨middle, first, rest⟩ := Option.bind_eq_some_iff.mp taken
        cases i with
        | zero =>
            rw [poke] at first
            split at first
            · rename_i address walked
              split at first
              · rename_i user
                exact ⟨address, walked, user⟩
              · cases first
            · cases first
        | succ i =>
            have later : (pokes tables pid (v + 1) bytes middle).isSome :=
              Option.isSome_iff_exists.mpr ⟨mem', rest⟩
            have here := ih.mp later i (by simpa using inside)
            rwa [Nat.add_assoc, Nat.add_comm 1 i] at here
      · intro writable
        obtain ⟨address, walked, user⟩ := writable 0 (Nat.succ_pos _)
        rw [Nat.add_zero] at walked
        simp only [poke, walked, if_pos user, Option.bind_some]
        apply ih.mpr
        intro i inside
        have here := writable (i + 1) (by simpa using inside)
        rwa [Nat.add_comm i 1, ← Nat.add_assoc] at here

theorem storeBytes_isSome_iff {bytes : List UInt8} :
    (k.storeBytes buf bytes).isSome ↔ k.Writable buf bytes.length := by
  rw [storeBytes_pokes, Option.isSome_map, pokes_isSome_iff]
  rfl

theorem Sound.writable_page (sound : Sound k) (running : k.foreground = some process)
    (pointer : buf < 4294967296) {count : Nat} (positive : 0 < count) (writable : k.Writable buf count) :
    ∃ offset, buf = mb128 + offset ∧ offset < mb4 := by
  obtain ⟨address, walked, user⟩ := writable 0 positive
  rw [Nat.add_zero, sound.front process running,
    sound.mapped.walk (sound.live_foreground running).1 pointer] at walked
  obtain ⟨low, high, -⟩ := processSpace_user walked user
  exact ⟨buf - mb128, by omega, by omega⟩

theorem Sound.walk_page (sound : Sound k) (running : k.foreground = some process) {offset : Nat}
    (inside : offset < mb4) :
    k.paging.walk k.cr3 (mb128 + offset) = some (frameOf process + offset) := by
  rw [sound.front process running]
  exact walk_frame (sound.mapped.program process (sound.live_foreground running).1) inside

theorem Sound.page_writable (sound : Sound k) (running : k.foreground = some process)
    {offset count : Nat} (fits : offset + count ≤ mb4) : k.Writable (mb128 + offset) count := by
  intro i inside
  refine ⟨frameOf process + (offset + i), ?_, ?_⟩
  · rw [Nat.add_assoc]
    exact sound.walk_page running (by omega)
  · rw [frameOf]
    omega

def argumentBytes (pcb : Pcb) (behind : Nat → UInt8) (nbytes : Int) : List UInt8 :=
  ((List.range nbytes.toNat).map fun j => if j < lineBuffer then pcb.args j else behind j) ++ [0]

def ByteCount (nbytes : Int) : Prop := 0 < nbytes ∧ nbytes < 2147483648

theorem systemGetargs_eq (notNull : buf ≠ 0) (count : ByteCount nbytes) :
    (k.setPcb process pcb).systemGetargs process buf nbytes behind =
      ((k.setPcb process pcb).storeBytes buf (argumentBytes pcb behind nbytes)).map fun stored => (0, stored) := by
  have whole : (nbytes % 4294967296).toNat = nbytes.toNat := by
    rw [ByteCount] at count
    omega
  have own : (k.setPcb process pcb).pcbs process = pcb := Function.update_self ..
  rw [systemGetargs, if_neg notNull, own, whole]
  rfl

theorem length_argumentBytes : (argumentBytes pcb behind nbytes).length = nbytes.toNat + 1 := by
  simp [argumentBytes]

theorem argumentBytes_get {i : Nat} (inside : i < nbytes.toNat) :
    (argumentBytes pcb behind nbytes).getD i 0 = if i < lineBuffer then pcb.args i else behind i := by
  have bound : i < ((List.range nbytes.toNat).map fun j =>
      if j < lineBuffer then pcb.args j else behind j).length := by
    simpa using inside
  rw [argumentBytes, List.getD_append _ _ _ _ bound, List.getD_eq_getElem _ _ bound]
  simp

theorem argumentBytes_last : (argumentBytes pcb behind nbytes).getD nbytes.toNat 0 = 0 := by
  have length : ((List.range nbytes.toNat).map fun j =>
      if j < lineBuffer then pcb.args j else behind j).length = nbytes.toNat := by
    simp
  rw [argumentBytes, List.getD_append_right _ _ _ _ (Nat.le_of_eq length), length, Nat.sub_self]
  rfl

/-- The call hands over the argument string `text` and nothing else, whatever the rest of the PCB
holds and whatever lies behind its `args`. -/
structure Transfers (process : Slot) (buf : Nat) (nbytes : Int) (text : List UInt8) (k : Kernel) :
    Prop where
  only : ∀ pcb behind ret next, IsCString pcb.args text →
    (k.setPcb process pcb).systemGetargs process buf nbytes behind = some (ret, next) →
      ∀ address, next.mem address ≠ k.mem address →
        ∃ i < nbytes.toNat, k.paging.walk k.cr3 (buf + i) = some address
  complete : (text.length : Int) + 1 ≤ nbytes → k.Writable buf nbytes.toNat →
    ∀ pcb behind, IsCString pcb.args text → ∃ next,
      (k.setPcb process pcb).systemGetargs process buf nbytes behind = some (0, next) ∧
        ∀ i, i ≤ text.length → ∃ address, k.paging.walk k.cr3 (buf + i) = some address ∧
          next.mem address = textOf text i
  same : ∀ pcb pcb' behind behind' ret ret' next next', IsCString pcb.args text →
    IsCString pcb'.args text →
    (k.setPcb process pcb).systemGetargs process buf nbytes behind = some (ret, next) →
    (k.setPcb process pcb').systemGetargs process buf nbytes behind' = some (ret', next') →
      ∀ i < nbytes.toNat, ∀ address, k.paging.walk k.cr3 (buf + i) = some address →
        next.mem address = next'.mem address

/-- The caller asks for no more than the string and its NUL, and the byte behind what it asks for
is 0 already. Where that byte cannot be written the call faults, so the string must not fit. -/
structure AskedWithin (buf : Nat) (nbytes : Int) (text : List UInt8) (k : Kernel) : Prop where
  written : k.Writable buf (nbytes.toNat + 1) → nbytes ≤ text.length + 1 ∧
    ∀ address, k.paging.walk k.cr3 (buf + nbytes.toNat) = some address → k.mem address = 0
  faulted : k.Writable buf nbytes.toNat → ¬k.Writable buf (nbytes.toNat + 1) → nbytes ≤ text.length

theorem systemGetargs_faults (notNull : buf ≠ 0) (count : ByteCount nbytes)
    (unwritable : ¬k.Writable buf (nbytes.toNat + 1)) :
    (k.setPcb process pcb).systemGetargs process buf nbytes behind = none := by
  have stuck : ¬((k.setPcb process pcb).storeBytes buf (argumentBytes pcb behind nbytes)).isSome := by
    rw [storeBytes_isSome_iff, length_argumentBytes]
    exact unwritable
  rw [systemGetargs_eq notNull count, Option.not_isSome_iff_eq_none.mp stuck]
  rfl

structure Placed (process : Slot) (buf : Nat) (nbytes : Int) (start : Nat) (k : Kernel) : Prop where
  walked : ∀ i, i ≤ nbytes.toNat → k.paging.walk k.cr3 (buf + i) = some (start + i)
  stores : ∀ pcb behind, (k.setPcb process pcb).systemGetargs process buf nbytes behind =
    some (0, { k.setPcb process pcb with
      mem := writeRange k.mem start (nbytes.toNat + 1) fun j => (argumentBytes pcb behind nbytes).getD j 0 })

theorem Sound.placed (sound : Sound k) (running : k.foreground = some process)
    (pointer : buf < 4294967296) (notNull : buf ≠ 0) (count : ByteCount nbytes)
    (writable : k.Writable buf (nbytes.toNat + 1)) : ∃ start, Placed process buf nbytes start k := by
  obtain ⟨offset, rfl, inside⟩ := sound.writable_page running pointer (Nat.succ_pos _) writable
  have live := (sound.live_foreground running).1
  have written (pcb : Pcb) (behind : Nat → UInt8) : offset + (nbytes.toNat + 1) ≤ mb4 ∧
      pokes k.paging k.cr3 (mb128 + offset) (argumentBytes pcb behind nbytes) k.mem =
        some (writeRange k.mem (frameOf process + offset) (nbytes.toNat + 1) fun j =>
          (argumentBytes pcb behind nbytes).getD j 0) := by
    have stored : (pokes k.paging k.cr3 (mb128 + offset) (argumentBytes pcb behind nbytes) k.mem).isSome := by
      rw [pokes_isSome_iff, length_argumentBytes]
      exact writable
    obtain ⟨mem, stored⟩ := Option.isSome_iff_exists.mp stored
    have page := stored
    rw [sound.front process running] at page
    obtain ⟨fits, filled⟩ := pokes_page sound.mapped.kernel (sound.mapped.program process live)
      (Nat.le_of_lt inside) page
    rw [length_argumentBytes] at fits filled
    exact ⟨fits, stored.trans (congrArg some filled)⟩
  refine ⟨frameOf process + offset, fun i before => ?_, fun pcb behind => ?_⟩
  · have fits := (written noPcb fun _ => 0).1
    rw [Nat.add_assoc, Nat.add_assoc]
    exact sound.walk_page running (by omega)
  · have same : (k.setPcb process pcb).storeBytes (mb128 + offset) (argumentBytes pcb behind nbytes) =
        (pokes k.paging k.cr3 (mb128 + offset) (argumentBytes pcb behind nbytes) k.mem).map fun mem =>
          { k.setPcb process pcb with mem := mem } := storeBytes_pokes _ _
    rw [systemGetargs_eq notNull count, same, (written pcb behind).2]
    rfl

section Placed

variable {start : Nat} (placed : Placed process buf nbytes start k) (nonzero : ∀ c ∈ text, c ≠ 0)

include placed nonzero

theorem Transfers.count_le (transfers : Transfers process buf nbytes text k) :
    nbytes ≤ text.length + 1 := by
  by_contra long
  have before : text.length + 1 < nbytes.toNat := by omega
  have zeroes : IsCString (textOf text) text := Image.isCString_textOf nonzero
  have ones : IsCString (fun k => if k ≤ text.length then textOf text k else 1) text := by
    refine ⟨fun index bound => ?_, nonzero, ?_⟩
    · simp only [Nat.le_of_lt bound, if_true]
      exact zeroes.bytes index bound
    · simp only [Nat.le_refl, if_true]
      exact zeroes.ends
  have agree := transfers.same { noPcb with args := textOf text }
    { noPcb with args := fun k => if k ≤ text.length then textOf text k else 1 } (fun _ => 0)
    (fun _ => 1) _ _ _ _ zeroes ones (placed.stores _ _) (placed.stores _ _) (text.length + 1) before _
    (placed.walked _ before.le)
  have beyond : ¬text.length + 1 ≤ text.length := by omega
  have blank : textOf text (text.length + 1) = 0 := List.getD_eq_default _ _ (Nat.le_succ _)
  simp only [writeRange_inside (Nat.lt_succ_of_lt before), argumentBytes_get before, beyond,
    if_false, blank, ite_self] at agree
  cases agree

theorem Transfers.behind_zero (transfers : Transfers process buf nbytes text k) :
    k.mem (start + nbytes.toNat) = 0 := by
  by_contra other
  have last := @writeRange_inside _ k.mem start (nbytes.toNat + 1)
    (fun j => (argumentBytes { noPcb with args := textOf text } (fun _ => 0) nbytes).getD j 0) _
    (Nat.lt_succ_self _)
  rw [argumentBytes_last] at last
  obtain ⟨i, before, same⟩ := transfers.only { noPcb with args := textOf text } (fun _ => 0) _ _
    (Image.isCString_textOf nonzero) (placed.stores _ _) (start + nbytes.toNat)
    (fun kept => other (kept.symm.trans last))
  rw [placed.walked i (Nat.le_of_lt before)] at same
  have equal := Option.some.inj same
  omega

omit nonzero in
theorem Placed.transfers (short : text.length < lineBuffer) (most : nbytes ≤ text.length + 1)
    (blank : k.mem (start + nbytes.toNat) = 0) : Transfers process buf nbytes text k := by
  have given {pcb : Pcb} {behind : Nat → UInt8} (string : IsCString pcb.args text) {i : Nat}
      (before : i < nbytes.toNat) :
      writeRange k.mem start (nbytes.toNat + 1)
        (fun j => (argumentBytes pcb behind nbytes).getD j 0) (start + i) = textOf text i := by
    have inText : i ≤ text.length := by omega
    rw [writeRange_inside (Nat.lt_succ_of_lt before), argumentBytes_get before,
      if_pos (Nat.lt_of_le_of_lt inText short), string.textOf_eq inText]
  refine ⟨?_, ?_, ?_⟩
  · intro pcb behind ret next string done address changed
    cases (placed.stores pcb behind).symm.trans done
    dsimp only at changed
    by_cases outside : address < start ∨ start + (nbytes.toNat + 1) ≤ address
    · exact absurd (writeRange_outside outside) changed
    · obtain ⟨i, rfl⟩ : ∃ i, address = start + i := ⟨address - start, by omega⟩
      refine ⟨i, ?_, placed.walked i (by omega)⟩
      by_contra beyond
      have last : i = nbytes.toNat := by omega
      subst last
      rw [writeRange_inside (Nat.lt_succ_self _), argumentBytes_last, blank] at changed
      exact changed rfl
  · intro fitting _ pcb behind string
    refine ⟨_, placed.stores pcb behind, fun i inText => ⟨start + i, placed.walked i (by omega), ?_⟩⟩
    exact given string (by omega)
  · intro pcb pcb' behind behind' ret ret' next next' string string' done done' i before address here
    cases (placed.stores pcb behind).symm.trans done
    cases (placed.stores pcb' behind').symm.trans done'
    cases (placed.walked i (Nat.le_of_lt before)).symm.trans here
    exact (given string before).trans (given string' before).symm

end Placed

theorem Transfers.room (transfers : Transfers process buf nbytes text k) (notNull : buf ≠ 0)
    (count : ByteCount nbytes) (nonzero : ∀ c ∈ text, c ≠ 0) (room : k.Writable buf nbytes.toNat)
    (unwritable : ¬k.Writable buf (nbytes.toNat + 1)) : nbytes ≤ text.length := by
  by_contra long
  obtain ⟨next, done, -⟩ := transfers.complete (by omega) room { noPcb with args := textOf text }
    (fun _ => 0) (Image.isCString_textOf nonzero)
  cases (systemGetargs_faults notNull count unwritable).symm.trans done

theorem transfers_faulting (notNull : buf ≠ 0) (count : ByteCount nbytes)
    (unwritable : ¬k.Writable buf (nbytes.toNat + 1))
    (most : k.Writable buf nbytes.toNat → nbytes ≤ text.length) : Transfers process buf nbytes text k where
  only _ _ _ _ _ done := by cases (systemGetargs_faults notNull count unwritable).symm.trans done
  complete fitting room := by
    have fewer := most room
    omega
  same _ _ _ _ _ _ _ _ _ _ done := by
    cases (systemGetargs_faults notNull count unwritable).symm.trans done

/-- For every argument string, buffer and count: the call hands over just the string exactly when
the caller asks for no more than the string with its NUL and a 0 lies behind already. -/
theorem systemGetargs_transfers_iff (reached : Reachable (step image) (Booted image) k)
    (running : k.foreground = some process) (short : text.length < lineBuffer)
    (nonzero : ∀ c ∈ text, c ≠ 0) (notNull : buf ≠ 0) (pointer : buf < 4294967296)
    (count : ByteCount nbytes) : Transfers process buf nbytes text k ↔ AskedWithin buf nbytes text k := by
  have sound := sound_reachable reached
  by_cases writable : k.Writable buf (nbytes.toNat + 1)
  · obtain ⟨start, placed⟩ := sound.placed running pointer notNull count writable
    have last := placed.walked _ (Nat.le_refl _)
    constructor
    · intro transfers
      refine ⟨fun _ => ⟨transfers.count_le placed nonzero, ?_⟩, fun _ other => absurd writable other⟩
      intro address here
      cases last.symm.trans here
      exact transfers.behind_zero placed nonzero
    · intro within
      obtain ⟨most, zero⟩ := within.written writable
      exact placed.transfers short most (zero _ last)
  · constructor
    · intro transfers
      exact ⟨fun writes => absurd writes writable,
        fun room _ => transfers.room notNull count nonzero room writable⟩
    · intro within
      exact transfers_faulting notNull count writable fun room => within.faulted room writable

/-- `cat` and `grep` ask for 1024 bytes. -/
theorem systemGetargs_leaks : ∃ k, Reachable (step smallImage) (Booted smallImage) k ∧
    k.foreground = some 0 ∧ ¬Transfers 0 mb128 1024 (ascii "frame0.txt".toList) k := by
  obtain ⟨k, reached, running⟩ := shell_running
  have sound := sound_reachable reached
  refine ⟨k, reached, running, fun transfers => ?_⟩
  have writable := @Sound.page_writable _ _ sound running 0 1025 (by decide)
  obtain ⟨start, placed⟩ := @Sound.placed k 0 mb128 1024 sound running (by decide) (by decide)
    ⟨by decide, by decide⟩ writable
  have most := transfers.count_le placed (Image.nonzero_of_all rfl)
  revert most
  decide

theorem systemGetargs_exactCount : ∃ k, Reachable (step smallImage) (Booted smallImage) k ∧
    Transfers 0 mb128 11 (ascii "frame0.txt".toList) k := by
  have ran : (runSmall [.firstShell noStale]).map (fun k => decide (k.foreground = some 0 ∧
      (k.paging.walk k.cr3 (mb128 + 11)).map k.mem = some 0)) = some true := by
    decide +kernel
  obtain ⟨k, computed, checks⟩ := Option.map_eq_some_iff.mp ran
  obtain ⟨running, blank⟩ := of_decide_eq_true checks
  have reached := runSmall_reachable computed
  have writable := @Sound.page_writable _ _ (sound_reachable reached) running 0 12 (by decide)
  refine ⟨k, reached, (systemGetargs_transfers_iff reached running (by decide) (Image.nonzero_of_all rfl)
    (by decide) (by decide) ⟨by decide, by decide⟩).mpr ⟨fun _ => ⟨by decide, ?_⟩, fun _ other => absurd writable other⟩⟩
  intro address here
  rw [show mb128 + (11 : Int).toNat = mb128 + 11 from rfl] at here
  rw [here] at blank
  exact Option.some.inj blank

end Kernel

end G29Os
