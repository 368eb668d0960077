import G29Os.PageWalk
import G29Os.ProcessSpaces

/-!
The page directories and tables as the words that the processor reads.
-/

namespace G29Os

open BitFields PageWalk StepRun

/-! ### The bit fields of `paging.h` -/

def PageTableEntry.fields (entry : PageTableEntry) : List Field :=
  [flag entry.present, flag entry.readwrite, flag entry.usersupervisor, flag entry.writeThrough, flag entry.cache,
    flag entry.accessed, flag entry.dirty, flag entry.reserved, flag entry.global, flag entry.avail1,
    flag entry.avail2, flag entry.avail3, ⟨20, entry.pageAddr⟩]

def PageTableEntry.word (entry : PageTableEntry) : Nat := pack entry.fields

def PageDirEntry.fields (entry : PageDirEntry) : List Field :=
  [flag entry.present, flag entry.readwrite, flag entry.usersupervisor, flag entry.writeThrough, flag entry.cache,
    flag entry.accessed, flag entry.reserved, flag entry.pagesize, flag entry.global, flag entry.avail1,
    flag entry.avail2, flag entry.avail3, ⟨20, entry.pageAddr⟩]

def PageDirEntry.word (entry : PageDirEntry) : Nat := pack entry.fields

namespace PageTables

variable {tables : PageTables} {pid : Slot} {directoryFrame v frame index : Nat} {words : Nat → Nat}

/-- The arrays `page_directory` and `page_table` in memory, where the processor may have set bits of its own. -/
structure Placed (tables : PageTables) (directoryFrame : Nat) (words : Nat → Nat) : Prop where
  directory : ∀ pid index, index < 1024 →
    SameWalk (words ((directoryFrame + pid.val) * 4096 + 4 * index)) (tables.pageDirectory pid index).word
  table : ∀ pid index, index < 1024 →
    SameWalk (words ((tables.tableFrame + pid.val) * 4096 + 4 * index)) (tables.pageTable pid index).word

def inMemory (directoryFrame : Nat) (tables : PageTables) (address : Nat) : Nat :=
  let frame := address / 4096
  let index := address % 4096 / 4
  if frame - directoryFrame < 6 ∧ directoryFrame ≤ frame then
    (tables.pageDirectory (Fin.ofNat 6 (frame - directoryFrame)) index).word
  else (tables.pageTable (Fin.ofNat 6 (frame - tables.tableFrame)) index).word

theorem placed_inMemory (apart : directoryFrame + 6 ≤ tables.tableFrame) :
    Placed tables directoryFrame (inMemory directoryFrame tables) := by
  have split (frame index : Nat) (inside : index < 1024) :
      (frame * 4096 + 4 * index) / 4096 = frame ∧ (frame * 4096 + 4 * index) % 4096 / 4 = index := by omega
  constructor
  · intro pid index inside
    obtain ⟨frame, offset⟩ := split (directoryFrame + pid.val) index inside
    have slot : Fin.ofNat 6 pid.val = pid := Fin.ofNat_val_eq_self ..
    rw [inMemory, frame, offset, Nat.add_sub_cancel_left, if_pos ⟨pid.isLt, Nat.le_add_right ..⟩, slot]
    exact SameWalk.refl _
  · intro pid index inside
    obtain ⟨frame, offset⟩ := split (tables.tableFrame + pid.val) index inside
    have slot : Fin.ofNat 6 pid.val = pid := Fin.ofNat_val_eq_self ..
    rw [inMemory, frame, offset, Nat.add_sub_cancel_left, if_neg (by omega), slot]
    exact SameWalk.refl _

theorem bit_absent {entry : PageDirEntry} : bit 0 entry.word = entry.present := bit_flag 0 rfl rfl

theorem bit_noPage {entry : PageTableEntry} : bit 0 entry.word = entry.present := bit_flag 0 rfl rfl

theorem bits_dirEntry (frame : Nat) (pagesize : Bool) :
    bit 0 (dirEntry frame pagesize).word = true ∧ bit 1 (dirEntry frame pagesize).word = true ∧
      bit 2 (dirEntry frame pagesize).word = true ∧ bit 7 (dirEntry frame pagesize).word = pagesize :=
  ⟨bit_flag 0 rfl rfl, bit_flag 1 rfl rfl, bit_flag 2 rfl rfl, bit_flag 7 rfl rfl⟩

theorem bits_tableEntry (frame : Nat) :
    bit 0 (tableEntry frame).word = true ∧ bit 1 (tableEntry frame).word = true ∧
      bit 2 (tableEntry frame).word = true :=
  ⟨bit_flag 0 rfl rfl, bit_flag 1 rfl rfl, bit_flag 2 rfl rfl⟩

theorem address_dirEntry {pagesize : Bool} (fits : frame < 2 ^ 20) :
    extract 12 20 (dirEntry frame pagesize).word = frame := extract_field 12 rfl rfl fits

theorem address_tableEntry (fits : frame < 2 ^ 20) : extract 12 20 (tableEntry frame).word = frame :=
  extract_field 12 rfl rfl fits

theorem large_dirEntry (fits : index < 1024) :
    extract 13 9 (dirEntry (index * 1024) true).word = 0 ∧
      extract 22 10 (dirEntry (index * 1024) true).word = index := by
  have whole := @address_dirEntry (index * 1024) true (by omega)
  have middle := extract_high 12 1 19 (dirEntry (index * 1024) true).word
  have upper := extract_high 12 10 10 (dirEntry (index * 1024) true).word
  have lower := extract_low 13 9 10 (dirEntry (index * 1024) true).word
  rw [whole] at middle upper
  rw [lower, middle, upper]
  exact ⟨by omega, by omega⟩

theorem directoryWord_placed (pid : Slot) (placed : Placed tables directoryFrame words) (bound : v < 4294967296) :
    SameWalk (directoryWord words ((directoryFrame + pid.val) * 4096) v) (tables.pageDirectory pid (v / mb4)).word := by
  have inside : v / 4194304 < 1024 := by omega
  rw [directoryWord, Nat.mod_eq_of_lt inside]
  exact placed.directory pid _ inside

theorem tableWord_placed (placed : Placed tables directoryFrame words) (low : tables.tableFrame < 2 ^ 20)
    (inside : v < mb4) {pagesize : Bool} :
    SameWalk (tableWord words (dirEntry tables.tableFrame pagesize).word v) (tables.pageTable 0 (v / 4096)).word := by
  have index : v / 4096 < 1024 := by
    simp only [mb4] at inside
    omega
  have first := placed.table 0 _ index
  rw [Fin.val_zero, Nat.add_zero] at first
  rw [tableWord, address_dirEntry low, Nat.mod_eq_of_lt index]
  exact first

def ProgramEntries (tables : PageTables) : Prop :=
  ∀ pid, (tables.pageDirectory pid 32).present = true → ProgramMapped tables pid

def unprotected (address : Nat) : Page := ⟨address, true, true⟩

theorem translate_dirEntry (placed : Placed tables directoryFrame words)
    (bound : v < 4294967296) (entry_eq : tables.pageDirectory pid (v / mb4) = dirEntry (index * 1024) true)
    (fits : index < 1024) :
    translate words ((directoryFrame + pid.val) * 4096) v = some (unprotected (index * mb4 + v % mb4)) := by
  obtain ⟨present, writable, user, size⟩ := bits_dirEntry (index * 1024) true
  obtain ⟨reserved, address⟩ := large_dirEntry fits
  have at_entry := directoryWord_placed pid placed bound
  rw [entry_eq] at at_entry
  rw [translate_large rfl (at_entry.present.trans present) (at_entry.size.trans size)
    (at_entry.reserved.trans reserved), at_entry.large, large, address, writable, user]
  rfl

theorem translate_tables (kernel : KernelMapped tables) (program : ProgramEntries tables)
    (placed : Placed tables directoryFrame words) (low : tables.tableFrame < 2 ^ 20) (bound : v < 4294967296) :
    translate words ((directoryFrame + pid.val) * 4096) v = (tables.walk pid v).map unprotected := by
  have at_entry := directoryWord_placed pid placed bound
  have index : v / mb4 % 1024 = v / mb4 := by
    simp only [mb4]
    omega
  by_cases present : (tables.pageDirectory pid (v / mb4)).present = true
  · by_cases first : v / mb4 = 0
    · have inside : v < mb4 := by
        simp only [mb4] at first ⊢
        omega
      have entry_eq : tables.pageDirectory pid (v / mb4) = dirEntry tables.tableFrame false := by
        rw [first, kernel.lower]
      obtain ⟨present', writable, user, size⟩ := bits_dirEntry tables.tableFrame false
      rw [entry_eq] at at_entry
      have at_page := @tableWord_placed tables directoryFrame v words placed low inside false
      rw [translate_small rfl (at_entry.present.trans present') (at_entry.size.trans size) rfl,
        at_entry.tableWord, at_page.present, at_entry.small at_page, walk_lower kernel inside, bit_noPage]
      by_cases page : 4096 ≤ v
      · have positive : 0 < v / 4096 := by omega
        have small' : v / 4096 < 1024 := by
          simp only [mb4] at inside
          omega
        obtain ⟨-, writable', user'⟩ := bits_tableEntry (v / 4096)
        rw [kernel.table 0 _ positive small', if_pos page, small, address_tableEntry (by omega), writable, user,
          writable', user']
        have address : v / 4096 * 4096 + v % 4096 = v := Nat.div_add_mod' v 4096
        rw [address]
        rfl
      · have zero : v / 4096 = 0 := by omega
        rw [zero, kernel.firstPage 0, if_neg page]
        rfl
    · have large_entry : ∃ frame, frame < 1024 ∧
          tables.pageDirectory pid (v / mb4) = dirEntry (frame * 1024) true := by
        by_cases second : v / mb4 = 1
        · exact ⟨1, by decide, by rw [second, kernel.upper]⟩
        · by_cases own : v / mb4 = 32
          · rw [own] at present ⊢
            refine ⟨2 + pid.val, by omega, ?_⟩
            rw [program pid present, Nat.add_mul]
          · rw [kernel.rest pid _ first second own] at present
            cases present
      obtain ⟨frame, fits, entry_eq⟩ := large_entry
      rw [translate_dirEntry placed bound entry_eq fits, walk, index, entry_eq]
      simp only [dirEntry, if_true, Option.map_some, Nat.mul_div_cancel frame (show 0 < 1024 by decide)]
  · rw [Bool.not_eq_true] at present
    rw [translate_absent rfl (at_entry.present.trans (bit_absent.trans present)), walk, index, present]
    rfl

theorem programEntries_addPage (program : ProgramEntries tables) {slot : Slot} :
    ProgramEntries (tables.addPage (frameOf slot) slot) := by
  intro pid present
  rcases eq_or_ne pid slot with rfl | other
  · exact programMapped_addPage
  · have kept : (tables.addPage (frameOf slot) slot).pageDirectory pid 32 = tables.pageDirectory pid 32 := by
      simp [addPage, page4mb, setDirectory, Function.update_of_ne other]
    rw [ProgramMapped, kept]
    rw [kept] at present
    exact program pid present

theorem programEntries_pagingInit (absent : ∀ pid, (tables.pageDirectory pid 32).present = false) :
    ProgramEntries tables.pagingInit := by
  have kept : ∀ pid, (tables.pagingInit.pageDirectory pid 32).present = false := by
    refine List.foldlRecOn (motive := fun tables => ∀ pid, (pageDirectory tables pid 32).present = false)
      (List.finRange 6) mapKernel absent ?_
    intro tables absent slot _ pid
    simpa [directory_mapKernel] using absent pid
  intro pid present
  rw [kept pid] at present
  cases present

end PageTables

namespace Kernel

open PageTables

variable {image : Image} {k next : Kernel}

theorem Transition.programEntries (transition : Transition image k next) (program : ProgramEntries k.paging) :
    ProgramEntries next.paging := by
  cases transition with
  | stay same => exact same.paging ▸ program
  | launched started => exact started.paging ▸ programEntries_addPage program
  | resumed ended => exact ended.paging ▸ program
  | relaunched ended started =>
      rw [started.paging, ended.paging]
      exact programEntries_addPage program
  | shellStarted switched => exact switched.paging ▸ program
  | reloaded switched => exact switched.paging ▸ program

theorem programEntries_reachable (reached : Reachable (step image) (Booted image) k) : ProgramEntries k.paging := by
  refine reached.invariant (fun k => ProgramEntries k.paging) (fun k booted => ?_)
    fun _ _ _ program done => (step_transition done).programEntries program
  obtain ⟨raw, ready, middle, statics, paging, -, -, -, -, -, second, third⟩ := booted.prebuilt
  have first : ProgramEntries ready.paging :=
    paging ▸ programEntries_pagingInit fun pid => statics.noDirectory pid 32
  have one : ProgramEntries middle.paging := second.paging ▸ programEntries_addPage first
  exact third.paging ▸ programEntries_addPage one

/-- In every run and for every slot the processor finds in the words what `walk` says, and never
keeps a user program from reading or writing it. -/
theorem words_translated {directoryFrame v : Nat} {words : Nat → Nat} {pid : Slot}
    (reached : Reachable (step image) (Booted image) k) (placed : Placed k.paging directoryFrame words)
    (low : k.paging.tableFrame < 2 ^ 20) (bound : v < 4294967296) :
    translate words ((directoryFrame + pid.val) * 4096) v = (k.paging.walk pid v).map unprotected :=
  translate_tables (sound_reachable reached).mapped.kernel (programEntries_reachable reached) placed low bound

theorem words_translated_shell :
    ∃ k words, Reachable (step smallImage) (Booted smallImage) k ∧ Placed k.paging 506 words ∧
      translate words (506 * 4096) imageAddr = some (unprotected (kernelMemEnd + 0x48000)) := by
  have ran : ((runSmall [.firstShell noStale]).map fun k =>
      decide (k.paging.tableFrame = 512 ∧ k.pcbTrack 0 = true)) = some true := by decide +kernel
  obtain ⟨k, computed, checks⟩ := Option.map_eq_some_iff.mp ran
  obtain ⟨frame, live⟩ := of_decide_eq_true checks
  have reached := runSmall_reachable computed
  have placed : Placed k.paging 506 (inMemory 506 k.paging) := placed_inMemory (by rw [frame])
  have walked : k.paging.walk 0 imageAddr = some (kernelMemEnd + 0x48000) :=
    (sound_reachable reached).mapped.walk live (by decide)
  have found := @words_translated smallImage k 506 imageAddr _ 0 reached placed (by rw [frame]; decide) (by decide)
  rw [walked] at found
  exact ⟨k, _, reached, placed, found⟩

end Kernel

end G29Os
