import G29Os.Paging

/-!
What the page walk yields once `paging_init` has run: the kernel's own 4 KB to 8 MB in
every directory, and a program page at 128 MB in those that `add_page` has touched.
-/

namespace G29Os

namespace PageTables

variable {tables : PageTables} {pid other : Slot} {v : Nat}

/-- The entries that every directory and table shares from `paging_init` on. -/
structure KernelMapped (tables : PageTables) : Prop where
  lower : ∀ pid, tables.pageDirectory pid 0 = dirEntry tables.tableFrame false
  upper : ∀ pid, tables.pageDirectory pid 1 = dirEntry 1024 true
  table : ∀ pid index, 0 < index → index < 1024 → tables.pageTable pid index = tableEntry index
  firstPage : ∀ pid, (tables.pageTable pid 0).present = false
  rest : ∀ pid index, index ≠ 0 → index ≠ 1 → index ≠ 32 →
    (tables.pageDirectory pid index).present = false

def ProgramMapped (tables : PageTables) (pid : Slot) : Prop :=
  tables.pageDirectory pid 32 = dirEntry (2048 + pid.val * 1024) true

/-- The address space of a process: the identity on the kernel, then its own page. -/
def processSpace (pid : Slot) (v : Nat) : Option Nat :=
  if 4096 ≤ v ∧ v < 2 * mb4 then some v
  else if mb128 ≤ v ∧ v < mb128 + mb4 then some (2 * mb4 + pid.val * mb4 + (v - mb128))
  else none

theorem tableAt_base (tables : PageTables) :
    tables.tableAt tables.tableFrame = some (tables.pageTable 0) := by
  have bound : tables.tableFrame ≤ tables.tableFrame ∧ tables.tableFrame - tables.tableFrame < 6 := by
    omega
  rw [tableAt, dif_pos bound]
  congr 2
  exact Fin.ext (Nat.sub_self _)

theorem walk_lower (mapped : KernelMapped tables) (inside : v < mb4) :
    tables.walk pid v = if 4096 ≤ v then some v else none := by
  have index : v / mb4 % 1024 = 0 := by
    rw [Nat.div_eq_of_lt inside]
  have offset : v % mb4 = v := Nat.mod_eq_of_lt inside
  have bound : v / 4096 < 1024 := by
    simp only [mb4] at inside
    omega
  rw [walk, index, mapped.lower, offset]
  simp only [dirEntry, if_true, Bool.false_eq_true, if_false, tableAt_base, Option.bind_some]
  by_cases page : 4096 ≤ v
  · have positive : 0 < v / 4096 := by omega
    rw [mapped.table 0 _ positive bound, if_pos page]
    simp only [tableEntry, if_true]
    congr 1
    omega
  · have first : v / 4096 = 0 := by omega
    rw [first, mapped.firstPage 0, if_neg page]
    simp

theorem walk_upper (mapped : KernelMapped tables) (above : mb4 ≤ v) (below : v < 2 * mb4) :
    tables.walk pid v = some v := by
  have index : v / mb4 % 1024 = 1 := by
    simp only [mb4] at above below ⊢
    omega
  rw [walk, index, mapped.upper]
  simp only [dirEntry, if_true]
  refine congrArg some ?_
  simp only [mb4] at above below ⊢
  omega

theorem walk_program (program : ProgramMapped tables pid) (above : mb128 ≤ v)
    (below : v < mb128 + mb4) :
    tables.walk pid v = some (2 * mb4 + pid.val * mb4 + (v - mb128)) := by
  have index : v / mb4 % 1024 = 32 := by
    simp only [mb4, mb128] at above below ⊢
    omega
  rw [walk, index, program]
  simp only [dirEntry, if_true]
  refine congrArg some ?_
  simp only [mb4, mb128] at above below ⊢
  omega

theorem walk_rest (mapped : KernelMapped tables) (high : 2 * mb4 ≤ v) (bound : v < 4294967296)
    (outside : v < mb128 ∨ mb128 + mb4 ≤ v) : tables.walk pid v = none := by
  have index : v / mb4 % 1024 = v / mb4 := by
    simp only [mb4]
    omega
  have absent : (tables.pageDirectory pid (v / mb4)).present = false := by
    apply mapped.rest <;> · simp only [mb4, mb128] at *; omega
  rw [walk, index]
  simp only [absent, Bool.false_eq_true, if_false]

theorem walk_process (mapped : KernelMapped tables) (program : ProgramMapped tables pid)
    (bound : v < 4294967296) : tables.walk pid v = processSpace pid v := by
  rw [processSpace]
  by_cases lower : v < mb4
  · rw [walk_lower mapped lower]
    by_cases page : 4096 ≤ v
    · have kernel : 4096 ≤ v ∧ v < 2 * mb4 := ⟨page, by omega⟩
      rw [if_pos page, if_pos kernel]
    · have kernel : ¬(4096 ≤ v ∧ v < 2 * mb4) := fun inside => page inside.1
      have user : ¬(mb128 ≤ v ∧ v < mb128 + mb4) := by
        simp only [mb4, mb128] at lower ⊢
        omega
      rw [if_neg page, if_neg kernel, if_neg user]
  · by_cases upper : v < 2 * mb4
    · have kernel : 4096 ≤ v ∧ v < 2 * mb4 := by
        simp only [mb4] at lower upper ⊢
        omega
      rw [walk_upper mapped (Nat.le_of_not_lt lower) upper, if_pos kernel]
    · have kernel : ¬(4096 ≤ v ∧ v < 2 * mb4) := fun inside => upper inside.2
      rw [if_neg kernel]
      by_cases user : mb128 ≤ v ∧ v < mb128 + mb4
      · rw [walk_program program user.1 user.2, if_pos user]
      · rw [walk_rest mapped (Nat.le_of_not_lt upper) bound (by omega), if_neg user]

theorem walk_mod (pid : Slot) (v : Nat) : tables.walk pid (v % 4294967296) = tables.walk pid v := by
  have index : v % 4294967296 / mb4 % 1024 = v / mb4 % 1024 := by
    simp only [mb4]
    omega
  have offset : v % 4294967296 % mb4 = v % mb4 := by
    simp only [mb4]
    omega
  have page : v % 4294967296 % 4096 = v % 4096 := by omega
  rw [walk, walk, index, offset, page]

section Building

theorem shift_page (index : Nat) : (index * 4096) >>> addrShift = index := by
  rw [addrShift, Nat.shiftRight_eq_div_pow]
  omega

theorem directory_pageKernel_other {index count : Nat} (bound : count ≤ 1023)
    (different : other ≠ pid ∨ index ≠ 0) :
    (pageKernel pid count tables).pageDirectory other index = tables.pageDirectory other index := by
  induction count with
  | zero => rfl
  | succ count ih =>
      have first : (count + 1) * 4096 / mb4 = 0 := by
        simp only [mb4]
        omega
      rw [← ih (by omega), pageKernel, page4kb, first]
      rcases eq_or_ne other pid with same | apart
      · subst same
        have away : index ≠ 0 := different.resolve_left fun absurd => absurd rfl
        simp [setDirectory, setTable, Function.update_of_ne away]
      · simp [setDirectory, setTable, Function.update_of_ne apart]

theorem tableFrame_pageKernel (count : Nat) :
    (pageKernel pid count tables).tableFrame = tables.tableFrame := by
  induction count with
  | zero => rfl
  | succ count ih => exact ih

theorem directory_pageKernel {count : Nat} (bound : count + 1 ≤ 1023) :
    (pageKernel pid (count + 1) tables).pageDirectory pid 0 = dirEntry tables.tableFrame false := by
  have first : (count + 1) * 4096 / mb4 = 0 := by
    simp only [mb4]
    omega
  rw [pageKernel, page4kb, first, tableFrame_pageKernel]
  simp [setDirectory]

theorem table_pageKernel {count : Nat} (bound : count ≤ 1023) (index : Nat) :
    (pageKernel pid count tables).pageTable other index =
      if other = pid ∧ 0 < index ∧ index ≤ count then tableEntry index
      else tables.pageTable other index := by
  induction count with
  | zero =>
      have none : ¬(other = pid ∧ 0 < index ∧ index ≤ 0) := by omega
      rw [if_neg none]
      rfl
  | succ count ih =>
      have place : (count + 1) * 4096 % mb4 / 4096 = count + 1 := by
        simp only [mb4]
        omega
      rw [pageKernel, page4kb, place, shift_page]
      rcases eq_or_ne other pid with same | apart
      · subst same
        rcases eq_or_ne index (count + 1) with here | elsewhere
        · have last : other = other ∧ 0 < index ∧ index ≤ count + 1 := ⟨rfl, by omega⟩
          rw [if_pos last, here]
          simp [setDirectory, setTable]
        · have grows : (0 < index ∧ index ≤ count + 1) ↔ (0 < index ∧ index ≤ count) := by omega
          simp only [setDirectory, setTable, Function.update_self, Function.update_of_ne elsewhere,
            ih (by omega), true_and, grows]
      · have away : ∀ n, ¬(other = pid ∧ 0 < index ∧ index ≤ n) := fun _ both => apart both.1
        simp only [setDirectory, setTable, Function.update_of_ne apart, ih (by omega), away, if_false]

structure Mappable (tables : PageTables) : Prop where
  firstPage : ∀ pid, (tables.pageTable pid 0).present = false
  rest : ∀ pid index, index ≠ 0 → index ≠ 1 → index ≠ 32 →
    (tables.pageDirectory pid index).present = false

structure SlotMapped (tables : PageTables) (pid : Slot) : Prop where
  lower : tables.pageDirectory pid 0 = dirEntry tables.tableFrame false
  upper : tables.pageDirectory pid 1 = dirEntry 1024 true
  table : ∀ index, 0 < index → index < 1024 → tables.pageTable pid index = tableEntry index

theorem directory_mapKernel (index : Nat) :
    (mapKernel tables pid).pageDirectory other index =
      if other = pid then
        if index = 1 then dirEntry 1024 true
        else if index = 0 then dirEntry tables.tableFrame false
        else tables.pageDirectory other index
      else tables.pageDirectory other index := by
  have place : mb4 / mb4 = 1 := by decide
  have frame : mb4 >>> addrShift = 1024 := by decide
  rw [mapKernel, page4mb, place, frame]
  rcases eq_or_ne other pid with same | apart
  · subst same
    rcases eq_or_ne index 1 with here | elsewhere
    · simp [setDirectory, here]
    · rcases eq_or_ne index 0 with zero | nonzero
      · simp only [setDirectory, Function.update_self, zero, Nat.zero_ne_one, if_true, if_false]
        rw [Function.update_of_ne Nat.zero_ne_one]
        exact directory_pageKernel (by decide)
      · simp only [setDirectory, Function.update_self, Function.update_of_ne elsewhere, elsewhere,
          nonzero, if_true, if_false]
        exact directory_pageKernel_other (by decide) (Or.inr nonzero)
  · simp only [setDirectory, Function.update_of_ne apart, apart, if_false]
    exact directory_pageKernel_other (by decide) (Or.inl apart)

theorem table_mapKernel (index : Nat) :
    (mapKernel tables pid).pageTable other index =
      if other = pid ∧ 0 < index ∧ index ≤ kernelPages then tableEntry index
      else tables.pageTable other index := by
  have outer : (mapKernel tables pid).pageTable other index =
      (pageKernel pid kernelPages tables).pageTable other index := by
    rw [mapKernel, page4mb]
    simp only [setDirectory]
  rw [outer, table_pageKernel (by decide)]

theorem tableFrame_mapKernel : (mapKernel tables pid).tableFrame = tables.tableFrame := by
  rw [mapKernel, page4mb]
  simp only [setDirectory, tableFrame_pageKernel]

theorem Mappable.mapKernel (mappable : Mappable tables) : Mappable (tables.mapKernel pid) := by
  constructor
  · intro other
    have first : ¬(other = pid ∧ 0 < 0 ∧ 0 ≤ kernelPages) := by omega
    rw [table_mapKernel, if_neg first]
    exact mappable.firstPage other
  · intro other index zero one program
    rw [directory_mapKernel, if_neg one, if_neg zero, ite_self]
    exact mappable.rest other index zero one program

theorem SlotMapped.mapped : SlotMapped (tables.mapKernel pid) pid := by
  constructor
  · rw [directory_mapKernel, if_pos rfl, tableFrame_mapKernel, if_neg Nat.zero_ne_one, if_pos rfl]
  · rw [directory_mapKernel, if_pos rfl, if_pos rfl]
  · intro index positive bound
    have inside : pid = pid ∧ 0 < index ∧ index ≤ kernelPages := by
      refine ⟨rfl, positive, ?_⟩
      simp only [kernelPages]
      omega
    rw [table_mapKernel, if_pos inside]

theorem SlotMapped.mapKernel (mapped : SlotMapped tables other) :
    SlotMapped (tables.mapKernel pid) other := by
  rcases eq_or_ne other pid with same | apart
  · subst same
    exact SlotMapped.mapped
  · constructor
    · rw [directory_mapKernel, if_neg apart, tableFrame_mapKernel]
      exact mapped.lower
    · rw [directory_mapKernel, if_neg apart]
      exact mapped.upper
    · intro index positive bound
      have away : ¬(other = pid ∧ 0 < index ∧ index ≤ kernelPages) := fun both => apart both.1
      rw [table_mapKernel, if_neg away]
      exact mapped.table index positive bound

theorem mapKernel_all (slots : List Slot) (mappable : Mappable tables) :
    Mappable (slots.foldl mapKernel tables) ∧
      ∀ pid, (pid ∈ slots ∨ SlotMapped tables pid) →
        SlotMapped (slots.foldl mapKernel tables) pid := by
  induction slots generalizing tables with
  | nil => exact ⟨mappable, fun pid given => given.resolve_left List.not_mem_nil⟩
  | cons slot slots ih =>
      rw [List.foldl_cons]
      obtain ⟨kept, all⟩ := ih mappable.mapKernel
      refine ⟨kept, fun pid given => all pid ?_⟩
      rcases given with member | mapped
      · rcases List.mem_cons.mp member with same | later
        · exact Or.inr (same ▸ SlotMapped.mapped)
        · exact Or.inl later
      · exact Or.inr mapped.mapKernel

theorem pagingInit_mapped (mappable : Mappable tables) : KernelMapped tables.pagingInit := by
  obtain ⟨kept, all⟩ := mapKernel_all (List.finRange 6) mappable
  have mapped (pid : Slot) : SlotMapped tables.pagingInit pid := all pid (Or.inl (List.mem_finRange pid))
  exact ⟨fun pid => (mapped pid).lower, fun pid => (mapped pid).upper, fun pid => (mapped pid).table,
    kept.firstPage, kept.rest⟩

theorem directory_addPage (index : Nat) :
    (tables.addPage (2 * mb4 + pid.val * mb4) pid).pageDirectory other index =
      if other = pid ∧ index = 32 then dirEntry (2048 + pid.val * 1024) true
      else tables.pageDirectory other index := by
  have place : mb128 / mb4 = 32 := by decide
  have frame : (2 * mb4 + pid.val * mb4) >>> addrShift = 2048 + pid.val * 1024 := by
    rw [addrShift, Nat.shiftRight_eq_div_pow]
    simp only [mb4]
    omega
  rw [addPage, page4mb, place, frame]
  rcases eq_or_ne other pid with same | apart
  · subst same
    rcases eq_or_ne index 32 with here | elsewhere
    · simp [setDirectory, here]
    · simp [setDirectory, elsewhere]
  · simp [setDirectory, apart]

theorem KernelMapped.addPage (mapped : KernelMapped tables) :
    KernelMapped (tables.addPage (2 * mb4 + pid.val * mb4) pid) := by
  constructor
  · intro other
    rw [directory_addPage, if_neg (by omega)]
    exact mapped.lower other
  · intro other
    rw [directory_addPage, if_neg (by omega)]
    exact mapped.upper other
  · exact mapped.table
  · exact mapped.firstPage
  · intro other index zero one program
    rw [directory_addPage, if_neg fun both => program both.2]
    exact mapped.rest other index zero one program

theorem programMapped_addPage :
    ProgramMapped (tables.addPage (2 * mb4 + pid.val * mb4) pid) pid := by
  rw [ProgramMapped, directory_addPage, if_pos ⟨rfl, rfl⟩]

theorem ProgramMapped.addPage (mapped : ProgramMapped tables other) :
    ProgramMapped (tables.addPage (2 * mb4 + pid.val * mb4) pid) other := by
  rcases eq_or_ne other pid with same | apart
  · subst same
    exact programMapped_addPage
  · rw [ProgramMapped, directory_addPage, if_neg fun both => apart both.1]
    exact mapped

end Building

end PageTables

end G29Os
