import G29Os.ReadDataCore
import Mathlib.Tactic.Linarith

/-!
What `read_data` computes, first in closed form for every argument, then for reads that
lie inside the file.
-/

namespace G29Os

open BoundedLoop ByteRange

theorem toNat_block : block.toNat = 4096 := rfl

theorem toNat_kb4 : kb4.toNat = 4096 := rfl

theorem toNat_sub_blocks (offset : UInt32) (count : Nat) (fits : 4096 * count ≤ offset.toNat) :
    (offset - UInt32.ofNat (4096 * count)).toNat = offset.toNat - 4096 * count := by
  have below := offset.toNat_lt
  have value : (UInt32.ofNat (4096 * count)).toNat = 4096 * count :=
    UInt32.toNat_ofNat_of_lt' (by change 4096 * count < 2 ^ 32; omega)
  rw [UInt32.toNat_sub_of_le _ _ (by rw [UInt32.le_iff_toNat_le, value]; exact fits), value]

theorem sub_blocks_succ (offset : UInt32) (count : Nat)
    (fits : 4096 * (count + 1) ≤ offset.toNat) :
    offset - UInt32.ofNat (4096 * count) - block = offset - UInt32.ofNat (4096 * (count + 1)) := by
  apply UInt32.toNat_inj.mp
  have now := toNat_sub_blocks offset count (by omega)
  rw [toNat_sub_blocks offset (count + 1) fits, UInt32.toNat_sub_of_le, now, toNat_block]
  · omega
  · rw [UInt32.le_iff_toNat_le, now, toNat_block]
    omega

/-- The block in which the skip loop leaves a read: the first whose end is at or past the
offset, so an offset on a block boundary stops with `offset` 4096 in the block before it. -/
def skipCount (offset : Nat) : Nat := (offset - 1) / 4096

theorem skipBlocks_eq (state : CopyState) :
    skipBlocks state = { state with
      i := state.i + skipCount state.offset.toNat
      blockCount := state.blockCount - (skipCount state.offset.toNat : Nat)
      offset := state.offset - UInt32.ofNat (4096 * skipCount state.offset.toNat) } := by
  let after (count : Nat) : CopyState := { state with
    i := state.i + count
    blockCount := state.blockCount - count
    offset := state.offset - UInt32.ofNat (4096 * count) }
  have finished := whileLoop_rule (fun current => decide (current.offset > block)) skipStep
    (fun current => ∃ count, 4096 * count ≤ state.offset.toNat - 1 ∧ current = after count)
    (fun current => current.offset.toNat)
    (by
      rintro current ⟨count, fits, rfl⟩ running
      have offsetNow := toNat_sub_blocks state.offset count (by omega)
      simp only [after, decide_eq_true_eq, gt_iff_lt, UInt32.lt_iff_toNat_lt, toNat_block,
        offsetNow] at running
      have offsetNext := toNat_sub_blocks state.offset (count + 1) (by omega)
      have sameOffset := sub_blocks_succ state.offset count (by omega)
      refine ⟨⟨count + 1, by omega, ?_⟩, ?_⟩
      · simp only [skipStep, after, sameOffset, CopyState.mk.injEq, and_true]
        omega
      · simp only [skipStep, after, sameOffset, offsetNow, offsetNext]
        omega)
    state.offset.toNat state ⟨0, by omega, by simp [after]⟩ (Nat.le_refl _)
  obtain ⟨⟨count, fits, reached⟩, stopped⟩ := finished
  change skipBlocks state = after (skipCount state.offset.toNat)
  have offsetEnd := toNat_sub_blocks state.offset count (by omega)
  rw [reached] at stopped
  simp only [after, decide_eq_false_iff_not, gt_iff_lt, UInt32.lt_iff_toNat_lt, toNat_block,
    offsetEnd] at stopped
  have exact : count = skipCount state.offset.toNat := by
    unfold skipCount
    omega
  rw [← exact]
  exact reached

/-- What a read that stops following the block list after block `last` delivers for a
file position: from there on the bytes that happen to lie behind that block. -/
def spanByte (image : Image) (inode : UInt32) (last position : Nat) : UInt8 :=
  if position < 4096 * last then image.fileByte inode position
  else image.dataByte (image.inodeBlock inode last) (position - 4096 * last)

theorem fileByte_in_block (image : Image) (inode : UInt32) {i within : Nat} (bound : within < 4096) :
    image.fileByte inode (4096 * i + within) =
      image.dataByte (image.inodeBlock inode i) within := by
  have number : (4096 * i + within) / 4096 = i := by omega
  have place : (4096 * i + within) % 4096 = within := by omega
  rw [Image.fileByte, number, place]

theorem spanByte_eq_fileByte (image : Image) (inode : UInt32) {last position : Nat}
    (bound : position < 4096 * (last + 1)) :
    spanByte image inode last position = image.fileByte inode position := by
  unfold spanByte
  split
  · rfl
  · obtain ⟨within, rfl⟩ : ∃ within, position = 4096 * last + within :=
      ⟨position - 4096 * last, by omega⟩
    rw [fileByte_in_block image inode (by omega), Nat.add_sub_cancel_left]

theorem copyBlock_count {state : CopyState} (offsetBound : state.offset.toNat ≤ 4096) :
    (kb4 - state.offset).toNat = 4096 - state.offset.toNat := by
  rw [UInt32.toNat_sub_of_le _ _ (by rw [UInt32.le_iff_toNat_le]; exact offsetBound), toNat_kb4]

theorem copyBlocks_done (image : Image) (inode : UInt32) {state : CopyState}
    (finished : state.bytesToRead.toNat = 0) : copyBlocks image inode state = state := by
  apply whileLoop_done
  simp [UInt32.lt_iff_toNat_lt, finished]

theorem copyBlocks_tail (image : Image) (inode : UInt32) {state : CopyState}
    (pending : 0 < state.bytesToRead.toNat) (noBlocks : state.blockCount.toNat = 0) :
    copyBlocks image inode state = copyTail image inode state := by
  have noCount : ¬state.blockCount > 0 := by omega
  rw [copyBlocks, noBlocks, whileLoop_step (by simpa [UInt32.lt_iff_toNat_lt] using pending),
    copyStep, if_neg noCount, whileLoop]

theorem copyBlocks_block (image : Image) (inode : UInt32) {state : CopyState}
    (pending : 0 < state.bytesToRead.toNat) (moreBlocks : 0 < state.blockCount.toNat) :
    copyBlocks image inode state = copyBlocks image inode (copyBlock image inode state) := by
  have someCount : state.blockCount > 0 := by omega
  have fuel : state.blockCount.toNat = (copyBlock image inode state).blockCount.toNat + 1 := by
    simp only [copyBlock]
    omega
  rw [copyBlocks, fuel, whileLoop_step (by simpa [UInt32.lt_iff_toNat_lt] using pending),
    copyStep, if_pos someCount, copyBlocks]

/-- A copy from `position` on has filled exactly `bytes_to_read` bytes. It follows the block
list up to block `last` and takes everything after it from behind the block it stopped at. -/
structure BlocksCopied (image : Image) (inode : UInt32) (position last : Nat)
    (state copied : CopyState) : Prop where
  buf : copied.buf = writeRange state.buf state.bufStart state.bytesToRead.toNat
    (fun k => spanByte image inode last (position + k))
  written : copied.written = state.written + state.bytesToRead.toNat
  used : ∀ i ∈ copied.used, i ∈ state.used ∨ 4096 * i < position + state.bytesToRead.toNat

theorem BlocksCopied.finished {image : Image} {inode : UInt32} {position last : Nat}
    {state : CopyState} (none : state.bytesToRead.toNat = 0) :
    BlocksCopied image inode position last state state where
  buf := by rw [none, writeRange_zero]
  written := none.symm ▸ rfl
  used _ listed := Or.inl listed

theorem BlocksCopied.tail {image : Image} {inode : UInt32} {position last : Nat} {state : CopyState}
    (atPosition : position = 4096 * state.i + state.offset.toNat) (atLast : last = state.i)
    (pending : 0 < state.bytesToRead.toNat) :
    BlocksCopied image inode position last state (copyTail image inode state) where
  buf := by
    simp only [copyTail, memcpy]
    apply writeRange_congr
    intro k _
    have beyond : ¬position + k < 4096 * last := by omega
    have place : position + k - 4096 * last = state.offset.toNat + k := by omega
    simp only [spanByte, beyond, if_false, place]
    rw [atLast]
  written := rfl
  used := by
    intro i listed
    simp only [copyTail, List.mem_append, List.mem_singleton] at listed
    rcases listed with before | rfl
    · exact Or.inl before
    · exact Or.inr (by omega)

theorem copyBlock_left (image : Image) (inode : UInt32) {state : CopyState}
    (offsetBound : state.offset.toNat ≤ 4096)
    (whole : 4096 ≤ state.offset.toNat + state.bytesToRead.toNat) :
    (copyBlock image inode state).bytesToRead.toNat =
      state.bytesToRead.toNat - (4096 - state.offset.toNat) := by
  have copied := copyBlock_count offsetBound
  simp only [copyBlock]
  rw [UInt32.toNat_sub_of_le _ _ (by rw [UInt32.le_iff_toNat_le, copied]; omega), copied]

theorem BlocksCopied.block {image : Image} {inode : UInt32} {position last : Nat}
    {state copied : CopyState} (atPosition : position = 4096 * state.i + state.offset.toNat)
    (inList : state.i + 1 ≤ last) (offsetBound : state.offset.toNat ≤ 4096)
    (whole : 4096 ≤ state.offset.toNat + state.bytesToRead.toNat)
    (rest : BlocksCopied image inode (4096 * (state.i + 1)) last (copyBlock image inode state) copied) :
    BlocksCopied image inode position last state copied := by
  have count := copyBlock_count offsetBound
  have left := copyBlock_left image inode offsetBound whole
  have split : state.bytesToRead.toNat = (4096 - state.offset.toNat) +
      (state.bytesToRead.toNat - (4096 - state.offset.toNat)) := by omega
  obtain ⟨buf, written, used⟩ := rest
  rw [left] at buf written used
  refine ⟨?_, ?_, ?_⟩
  · rw [buf]
    conv_rhs => rw [split]
    simp only [copyBlock, memcpy, count]
    apply writeRange_append
    · intro k bound
      rw [spanByte_eq_fileByte image inode (by omega), atPosition, Nat.add_assoc,
        fileByte_in_block image inode (by omega)]
    · intro k _
      have samePlace : position + (4096 - state.offset.toNat + k) = 4096 * (state.i + 1) + k := by
        omega
      rw [samePlace]
  · rw [written]
    simp only [copyBlock, count]
    omega
  · intro i listed
    rcases used i listed with before | upper
    · simp only [copyBlock, List.mem_append, List.mem_singleton] at before
      rcases before with before | rfl
      · exact Or.inl before
      · exact Or.inr (by omega)
    · exact Or.inr (by omega)

theorem copyBlocks_spec (image : Image) (inode : UInt32) (state : CopyState) (position last : Nat)
    (atPosition : position = 4096 * state.i + state.offset.toNat)
    (atLast : last = state.i + state.blockCount.toNat)
    (offsetBound : state.offset.toNat ≤ 4096)
    (fits : 4096 * state.blockCount.toNat ≤ state.offset.toNat + state.bytesToRead.toNat) :
    BlocksCopied image inode position last state (copyBlocks image inode state) := by
  induction count : state.blockCount.toNat generalizing state position with
  | zero =>
      rcases Nat.eq_zero_or_pos state.bytesToRead.toNat with finished | pending
      · rw [copyBlocks_done image inode finished]
        exact BlocksCopied.finished finished
      · rw [copyBlocks_tail image inode pending count]
        exact BlocksCopied.tail atPosition (by omega) pending
  | succ count' ih =>
      rcases Nat.eq_zero_or_pos state.bytesToRead.toNat with finished | pending
      · rw [copyBlocks_done image inode finished]
        exact BlocksCopied.finished finished
      · have left := copyBlock_left image inode offsetBound (by omega)
        have countNext : (copyBlock image inode state).blockCount.toNat = count' := by
          simp only [copyBlock]
          omega
        have rest := ih (copyBlock image inode state) (4096 * (state.i + 1)) rfl
          (by simp only [copyBlock, atLast]; omega) (Nat.zero_le _)
          (by rw [countNext, left]; omega) countNext
        rw [copyBlocks_block image inode pending (by omega)]
        exact rest.block atPosition (by omega) offsetBound (by omega)

theorem readPlan_inside {fileLength offset length : UInt32}
    (inside : offset.toNat + length.toNat ≤ fileLength.toNat) :
    readPlan fileLength offset length = (length, (offset + length) / kb4) := by
  have below := fileLength.toNat_lt
  have sum : (offset + length).toNat = offset.toNat + length.toNat := by
    rw [UInt32.toNat_add, Nat.mod_eq_of_lt (by omega)]
  have notPast : ¬offset + length > fileLength := by
    rw [gt_iff_lt, UInt32.lt_iff_toNat_lt, sum]
    omega
  simp only [readPlan, notPast, if_false]

theorem readPlan_pastEnd {fileLength offset length : UInt32}
    (small : fileLength.toNat ≤ 4096 * 1023) (within : offset.toNat ≤ fileLength.toNat)
    (past : fileLength.toNat < offset.toNat + length.toNat)
    (noWrap : offset.toNat + length.toNat < 2 ^ 32) :
    readPlan fileLength offset length = (fileLength - offset, (fileLength - offset) / block) := by
  have sum : (offset + length).toNat = offset.toNat + length.toNat := by
    rw [UInt32.toNat_add, Nat.mod_eq_of_lt noWrap]
  have isPast : offset + length > fileLength := by
    rwa [gt_iff_lt, UInt32.lt_iff_toNat_lt, sum]
  by_cases started : offset = 0
  · have cut : ¬(0 : UInt32) + fileLength > fileLength := by
      rw [UInt32.zero_add]
      exact UInt32.lt_irrefl _
    subst offset
    simp only [readPlan, isPast, cut, if_true, if_false]
    rw [UInt32.zero_add, UInt32.sub_zero]
    rfl
  · have positive : 0 < offset.toNat := by
      apply Nat.pos_of_ne_zero
      intro zero
      exact started (UInt32.toNat_inj.mp zero)
    have sumCut : (offset + fileLength).toNat = offset.toNat + fileLength.toNat := by
      rw [UInt32.toNat_add, Nat.mod_eq_of_lt (by omega)]
    have stillPast : offset + fileLength > fileLength := by
      rw [gt_iff_lt, UInt32.lt_iff_toNat_lt, sumCut]
      omega
    simp only [readPlan, isPast, stillPast, if_true]

theorem readPlan_wrapped {fileLength offset length : UInt32}
    (within : offset.toNat ≤ fileLength.toNat) (wraps : 2 ^ 32 ≤ offset.toNat + length.toNat) :
    (readPlan fileLength offset length).1 = length := by
  have lengthBelow := length.toNat_lt
  have offsetBelow := offset.toNat_lt
  have sum : (offset + length).toNat = offset.toNat + length.toNat - 2 ^ 32 := by
    rw [UInt32.toNat_add]
    omega
  have notPast : ¬offset + length > fileLength := by
    rw [gt_iff_lt, UInt32.lt_iff_toNat_lt, sum]
    omega
  simp only [readPlan, notPast, if_false]

theorem readPlan_beyond {fileLength offset length : UInt32}
    (beyond : fileLength.toNat < offset.toNat) :
    (readPlan fileLength offset length).1 ≠ 0 := by
  have notZero : (0 : UInt32).toNat = 0 := rfl
  by_cases isPast : offset + length > fileLength
  · by_cases stillPast : offset + fileLength > fileLength
    · simp only [readPlan, isPast, stillPast, if_true, ne_eq]
      intro none
      rw [UInt32.sub_eq_iff_eq_add, UInt32.zero_add] at none
      subst none
      omega
    · simp only [readPlan, isPast, stillPast, if_true, if_false, ne_eq]
      intro none
      rw [none, UInt32.add_zero, gt_iff_lt, UInt32.lt_iff_toNat_lt, notZero] at stillPast
      omega
  · simp only [readPlan, isPast, if_false, ne_eq]
    intro none
    rw [none, UInt32.add_zero, gt_iff_lt, UInt32.lt_iff_toNat_lt] at isPast
    exact isPast beyond

theorem readPlan_fits (fileLength offset length : UInt32) :
    4096 * (readPlan fileLength offset length).2.toNat ≤
      offset.toNat + (readPlan fileLength offset length).1.toNat := by
  have spare (total : UInt32) : 4096 * (total / kb4).toNat ≤ total.toNat := by
    rw [UInt32.toNat_div, toNat_kb4]
    omega
  have sumBound (other : UInt32) : (offset + other).toNat ≤ offset.toNat + other.toNat := by
    rw [UInt32.toNat_add]
    exact Nat.mod_le _ _
  let cut := if offset + length > fileLength then fileLength else length
  change 4096 * (if offset + cut > fileLength then
      (fileLength - offset, (fileLength - offset) / block) else
      (cut, (offset + cut) / kb4)).2.toNat ≤ offset.toNat + (if offset + cut > fileLength then
      (fileLength - offset, (fileLength - offset) / block) else (cut, (offset + cut) / kb4)).1.toNat
  by_cases pastEnd : offset + cut > fileLength
  · simp only [pastEnd, if_true]
    exact (spare _).trans (Nat.le_add_left _ _)
  · simp only [pastEnd, if_false]
    exact (spare _).trans (sumBound _)

theorem readData_closed (image : Image) (inode offset length : UInt32) (buf : Nat → UInt8)
    (small : (image.inodeLength inode).toNat ≤ 4096 * 1023)
    (unread : offset ≠ image.inodeLength inode) :
    let plan := readPlan (image.inodeLength inode) offset length
    let result := readData image inode offset buf length
    result.ret = plan.1 ∧ result.written = plan.1.toNat ∧
      result.buf = writeRange buf 0 plan.1.toNat (fun k =>
        spanByte image inode (max (skipCount offset.toNat) plan.2.toNat) (offset.toNat + k)) ∧
      ∀ i ∈ result.used, 4096 * i < offset.toNat + plan.1.toNat := by
  have leftSome : ¬image.inodeLength inode - offset ≤ 0 := by
    intro none
    have zero : image.inodeLength inode - offset = 0 := UInt32.le_zero_iff.mp none
    exact unread (UInt32.sub_eq_iff_eq_add.mp zero |>.trans (UInt32.zero_add _)).symm
  have notHuge : ¬image.inodeLength inode > kb4 * inodeBlocks := by
    rw [gt_iff_lt, UInt32.lt_iff_toNat_lt]
    change ¬4096 * 1023 < _
    omega
  have planFits := readPlan_fits (image.inodeLength inode) offset length
  have skipEq : skipCount offset.toNat = (offset.toNat - 1) / 4096 := rfl
  have skipped := toNat_sub_blocks offset (skipCount offset.toNat) (by omega)
  simp only [readData, leftSome, notHuge, if_false]
  generalize readPlan (image.inodeLength inode) offset length = plan at planFits ⊢
  obtain ⟨bytesToRead, blockCount⟩ := plan
  simp only at planFits ⊢
  obtain ⟨bufEnd, writtenEnd, usedEnd⟩ := copyBlocks_spec image inode
    { i := 0 + skipCount offset.toNat
      blockCount := (blockCount.toNat : Int) - (skipCount offset.toNat : Nat)
      offset := offset - UInt32.ofNat (4096 * skipCount offset.toNat)
      bytesToRead := bytesToRead, bufStart := 0, buf := buf, written := 0, used := [] }
    offset.toNat (max (skipCount offset.toNat) blockCount.toNat)
    (by simp only [skipped]; omega) (by simp only; omega)
    (by simp only [skipped]; omega) (by simp only [skipped]; omega)
  rw [skipBlocks_eq]
  refine ⟨trivial, ?_, bufEnd, ?_⟩
  · exact writtenEnd.trans (Nat.zero_add _)
  · intro i listed
    exact (usedEnd i listed).resolve_left (by simp)

theorem readData_atEnd (image : Image) (inode length : UInt32) (buf : Nat → UInt8) :
    readData image inode (image.inodeLength inode) buf length =
      { ret := 0, buf := buf, written := 0, used := [] } := by
  simp [readData]

/-- A read that lies inside the file returns its length and exactly the file's bytes, and
follows only blocks the file owns. -/
theorem readData_insideFile (image : Image) (inode offset length : UInt32) (buf : Nat → UInt8)
    (small : (image.inodeLength inode).toNat ≤ 4096 * 1023)
    (inside : offset.toNat + length.toNat ≤ (image.inodeLength inode).toNat) :
    let result := readData image inode offset buf length
    result.ret = length ∧ result.written = length.toNat ∧
      (∀ k < length.toNat, result.buf k = image.fileByte inode (offset.toNat + k)) ∧
      (∀ k, length.toNat ≤ k → result.buf k = buf k) ∧
      ∀ i ∈ result.used, 4096 * i < (image.inodeLength inode).toNat := by
  by_cases unread : offset = image.inodeLength inode
  · have none : length = 0 := by
      apply UInt32.toNat_inj.mp
      rw [unread] at inside
      rw [UInt32.toNat_zero]
      omega
    rw [unread, readData_atEnd]
    simp [none]
  · obtain ⟨ret, written, filled, used⟩ := readData_closed image inode offset length buf small unread
    have below := (image.inodeLength inode).toNat_lt
    have last : ((offset + length) / kb4).toNat = (offset.toNat + length.toNat) / 4096 := by
      rw [UInt32.toNat_div, UInt32.toNat_add, toNat_kb4, Nat.mod_eq_of_lt (by omega)]
    simp only [readPlan_inside inside, last] at ret written filled used
    refine ⟨ret, written, ?_, ?_, ?_⟩
    · intro k bound
      rw [filled, ← Nat.zero_add k, writeRange_inside bound, Nat.zero_add]
      exact spanByte_eq_fileByte image inode (by omega)
    · intro k beyond
      rw [filled, writeRange_outside (by omega)]
    · intro i listed
      have bound := used i listed
      omega

def scattered : Image where
  boot := 0
  mem address :=
    if address = 4 then 1
    else if address = 4096 then 0x88
    else if address = 4097 then 0x13
    else if address = 4104 then 2
    else if 16384 ≤ address then 7
    else 0

theorem readData_insideFile_scattered :
    let result := readData scattered 0 4000 (fun _ => 0) 1000
    result.ret = 1000 ∧ result.written = 1000 ∧
      (∀ k < 1000, result.buf k = scattered.fileByte 0 (4000 + k)) ∧
      (∀ k, 1000 ≤ k → result.buf k = 0) ∧ ∀ i ∈ result.used, 4096 * i < 5000 :=
  readData_insideFile scattered 0 4000 1000 (fun _ => 0) (by decide) (by decide)

end G29Os
