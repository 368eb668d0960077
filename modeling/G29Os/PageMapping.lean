import G29Os.AddressSpace

/-!
What calls of `page_4kb` build from empty tables. Whatever the process and the 4 MB region, the
directory entry points to the table of slot 0, while the page is entered in the table of the
slot, at a place that the region has no part in.
-/

namespace G29Os

structure PageCall where
  physaddr : Nat
  virtualaddr : Nat
  pid : Slot
  physAligned : 4096 ∣ physaddr
  virtualAligned : 4096 ∣ virtualaddr
  virtualBound : virtualaddr < 4294967296

namespace PageCall

def region (call : PageCall) : Nat := call.virtualaddr / mb4

def index (call : PageCall) : Nat := call.virtualaddr % mb4 / 4096

end PageCall

namespace PageTables

variable {frame : Nat} {calls : List PageCall} {pid : Slot} {region index v : Nat}

/-- The tables as the loader leaves them, `page_table` being linked at `frame`. -/
def blank (frame : Nat) : PageTables where
  tableFrame := frame
  pageDirectory _ _ := { dirEntry 0 false with present := false }
  pageTable _ _ := { tableEntry 0 with present := false }

def mapped (frame : Nat) : List PageCall → PageTables
  | [] => blank frame
  | call :: earlier => page4kb call.physaddr call.virtualaddr call.pid (mapped frame earlier)

def tableCall (calls : List PageCall) (pid : Slot) (index : Nat) : Option PageCall :=
  calls.find? fun call => decide (call.pid = pid ∧ call.index = index)

def pageCall (calls : List PageCall) (pid : Slot) (region index : Nat) : Option PageCall :=
  calls.find? fun call => decide (call.pid = pid ∧ call.region = region ∧ call.index = index)

def RegionUsed (calls : List PageCall) (pid : Slot) (region : Nat) : Prop :=
  ∃ call ∈ calls, call.pid = pid ∧ call.region = region

theorem tableFrame_mapped : (mapped frame calls).tableFrame = frame := by
  induction calls with
  | nil => rfl
  | cons call earlier ih => exact ih

theorem regionUsed_cons {call : PageCall} :
    RegionUsed (call :: calls) pid region ↔
      call.pid = pid ∧ call.region = region ∨ RegionUsed calls pid region := by
  simp [RegionUsed]

theorem page4kb_directory {physaddr virtualaddr : Nat} {slot : Slot} {tables : PageTables} :
    (page4kb physaddr virtualaddr slot tables).pageDirectory pid region =
      if pid = slot ∧ region = virtualaddr / mb4 then dirEntry tables.tableFrame false
      else tables.pageDirectory pid region := by
  simp only [page4kb, setDirectory, setTable, Function.update_apply]
  by_cases own : pid = slot
  · subst own
    simp only [if_true, Function.update_apply, true_and]
  · simp only [own, if_false, false_and]

theorem page4kb_table {physaddr virtualaddr : Nat} {slot : Slot} {tables : PageTables} :
    (page4kb physaddr virtualaddr slot tables).pageTable pid index =
      if pid = slot ∧ index = virtualaddr % mb4 / 4096 then tableEntry (physaddr >>> addrShift)
      else tables.pageTable pid index := by
  simp only [page4kb, setDirectory, setTable, Function.update_apply]
  by_cases own : pid = slot
  · subst own
    simp only [if_true, Function.update_apply, true_and]
  · simp only [own, if_false, false_and]

theorem directory_used (used : RegionUsed calls pid region) :
    (mapped frame calls).pageDirectory pid region = dirEntry frame false := by
  induction calls with
  | nil =>
      obtain ⟨call, listed, -⟩ := used
      cases listed
  | cons call earlier ih =>
      rw [mapped, page4kb_directory]
      split
      · rw [tableFrame_mapped]
      · rename_i other
        apply ih
        refine (regionUsed_cons.mp used).resolve_left fun same => other ?_
        exact ⟨same.1.symm, same.2.symm⟩

theorem directory_unused (unused : ¬RegionUsed calls pid region) :
    ((mapped frame calls).pageDirectory pid region).present = false := by
  induction calls with
  | nil => rfl
  | cons call earlier ih =>
      have apart := not_or.mp (mt regionUsed_cons.mpr unused)
      have other : ¬(pid = call.pid ∧ region = call.virtualaddr / mb4) := by
        intro same
        exact apart.1 ⟨same.1.symm, same.2.symm⟩
      rw [mapped, page4kb_directory, if_neg other]
      exact ih apart.2

theorem table_mapped :
    (mapped frame calls).pageTable pid index =
      match tableCall calls pid index with
      | some call => tableEntry (call.physaddr >>> addrShift)
      | none => { tableEntry 0 with present := false } := by
  induction calls with
  | nil => rfl
  | cons call earlier ih =>
      have turned : (call.pid = pid ∧ call.index = index) ↔
          (pid = call.pid ∧ index = call.virtualaddr % mb4 / 4096) := by
        rw [PageCall.index, eq_comm, and_congr_right_iff]
        exact fun _ => eq_comm
      rw [mapped, page4kb_table, tableCall, List.find?_cons, decide_eq_decide.mpr turned]
      split
      · rename_i here
        rw [decide_eq_true here]
      · rename_i elsewhere
        rw [decide_eq_false elsewhere]
        exact ih

theorem PageCall.shift_mul (call : PageCall) :
    (call.physaddr >>> addrShift) * 4096 = call.physaddr := by
  rw [Nat.shiftRight_eq_div_pow]
  exact Nat.div_mul_cancel call.physAligned

theorem walk_used (bound : v < 4294967296) (used : RegionUsed calls pid (v / mb4)) :
    (mapped frame calls).walk pid v =
      (tableCall calls 0 (v % mb4 / 4096)).map fun call => call.physaddr + v % 4096 := by
  have region : v / mb4 % 1024 = v / mb4 := by
    simp only [mb4]
    omega
  have base := tableAt_base (mapped frame calls)
  rw [tableFrame_mapped] at base
  rw [walk, region, directory_used used]
  simp only [dirEntry, if_true, Bool.false_eq_true, if_false, base, Option.bind_some, table_mapped]
  cases tableCall calls 0 (v % mb4 / 4096) with
  | none => simp
  | some call => simp [tableEntry, PageCall.shift_mul]

theorem walk_unused (bound : v < 4294967296) (unused : ¬RegionUsed calls pid (v / mb4)) :
    (mapped frame calls).walk pid v = none := by
  have region : v / mb4 % 1024 = v / mb4 := by
    simp only [mb4]
    omega
  rw [walk, region, directory_unused unused]
  simp

/-- The mapping asked for: the page of the last call for the slot and the page of the address. -/
def askedFor (calls : List PageCall) (pid : Slot) (v : Nat) : Option Nat :=
  (calls.find? fun call => decide (call.pid = pid ∧ call.virtualaddr = v / 4096 * 4096)).map fun call =>
    call.physaddr + v % 4096

theorem PageCall.page_iff (call : PageCall) :
    call.virtualaddr = v / 4096 * 4096 ↔ call.region = v / mb4 ∧ call.index = v % mb4 / 4096 := by
  obtain ⟨page, aligned⟩ := call.virtualAligned
  simp only [PageCall.region, PageCall.index, mb4]
  omega

theorem askedFor_eq : askedFor calls pid v =
    (pageCall calls pid (v / mb4) (v % mb4 / 4096)).map fun call => call.physaddr + v % 4096 := by
  simp only [askedFor, pageCall, PageCall.page_iff]

/-- What slot 0 and a slot that has used the region last asked for agree, page by page. -/
def AgreeWithFirst (calls : List PageCall) : Prop :=
  ∀ pid region, RegionUsed calls pid region → ∀ index, index < 1024 →
    (tableCall calls 0 index).map PageCall.physaddr =
      (pageCall calls pid region index).map PageCall.physaddr

theorem page4kb_mapping_iff (frame : Nat) (calls : List PageCall) :
    (∀ pid v, v < 4294967296 → (mapped frame calls).walk pid v = askedFor calls pid v) ↔
      AgreeWithFirst calls := by
  constructor
  · intro asked pid region used index small
    obtain ⟨call, listed, own, here⟩ := id used
    have last : region < 1024 := by
      have bound := call.virtualBound
      simp only [PageCall.region, mb4] at here
      omega
    have bound : region * mb4 + index * 4096 < 4294967296 := by
      simp only [mb4]
      omega
    have regionOf : (region * mb4 + index * 4096) / mb4 = region := by
      simp only [mb4]
      omega
    have indexOf : (region * mb4 + index * 4096) % mb4 / 4096 = index := by
      simp only [mb4]
      omega
    have start : (region * mb4 + index * 4096) % 4096 = 0 := by
      simp only [mb4]
      omega
    have same := asked pid (region * mb4 + index * 4096) bound
    rw [walk_used bound (regionOf.symm ▸ used), askedFor_eq] at same
    simpa only [regionOf, indexOf, start, Nat.add_zero] using same
  · intro agree pid v bound
    rw [askedFor_eq]
    by_cases used : RegionUsed calls pid (v / mb4)
    · have small : v % mb4 / 4096 < 1024 := by
        simp only [mb4]
        omega
      have offset := congrArg (Option.map fun physaddr => physaddr + v % 4096)
        (agree pid (v / mb4) used (v % mb4 / 4096) small)
      rw [walk_used bound used]
      simpa only [Option.map_map, Function.comp_def] using offset
    · have none : pageCall calls pid (v / mb4) (v % mb4 / 4096) = none := by
        apply List.find?_eq_none.mpr
        intro call listed found
        obtain ⟨own, here, -⟩ := of_decide_eq_true found
        exact used ⟨call, listed, own, here⟩
      rw [walk_unused bound used, none]
      rfl

def ownPage : PageCall where
  physaddr := 0x5000
  virtualaddr := 0x1000
  pid := 1
  physAligned := by decide
  virtualAligned := by decide
  virtualBound := by decide

theorem page4kb_unmapped : ¬∀ (frame : Nat) (calls : List PageCall) (pid : Slot) (v : Nat),
    v < 4294967296 → (mapped frame calls).walk pid v = askedFor calls pid v := by
  intro asked
  have walked : (mapped 512 [ownPage]).walk 1 0x1000 = none := by decide
  have wanted : askedFor [ownPage] 1 0x1000 = some 0x5000 := by decide
  have same := asked 512 [ownPage] 1 0x1000 (by decide)
  rw [walked, wanted] at same
  cases same

end PageTables

end G29Os
