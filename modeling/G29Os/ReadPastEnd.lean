import G29Os.ReadData

/-!
Reads that run past the end of the file, and the counts `read_data` reports when the
32-bit arithmetic on offset and length wraps.
-/

namespace G29Os

open ByteRange

/-- The last block a truncated read finds through the inode: `block_count` is recomputed
from the bytes left, and the skipped blocks are taken off it once more. -/
def lastFollowed (fileLength offset : Nat) : Nat :=
  max (skipCount offset) ((fileLength - offset) / 4096)

/-- Every later block of the file holds, as far as the file reaches, the bytes of the data
block that lies as far behind block `last` on the disk as it does in the file. -/
def TailInPlace (image : Image) (inode : UInt32) (last : Nat) : Prop :=
  ∀ number k, last < number → k < 4096 → 4096 * number + k < (image.inodeLength inode).toNat →
    image.dataByte (image.inodeBlock inode last + UInt32.ofNat (number - last)) k =
      image.dataByte (image.inodeBlock inode number) k

theorem dataByte_behind (image : Image) (number : UInt32) (blocks k : Nat) :
    image.dataByte number (4096 * blocks + k) =
      image.dataByte (number + UInt32.ofNat blocks) k := by
  have sum : image.data + kb4 * number + UInt32.ofNat (4096 * blocks + k) =
      image.data + kb4 * (number + UInt32.ofNat blocks) + UInt32.ofNat k := by
    rw [UInt32.ofNat_add, UInt32.ofNat_mul, UInt32.mul_add]
    simp only [UInt32.add_assoc]
    rfl
  rw [Image.dataByte, Image.dataByte, sum]

theorem spanByte_behind (image : Image) (inode : UInt32) {last number k : Nat}
    (later : last ≤ number) :
    spanByte image inode last (4096 * number + k) =
      image.dataByte (image.inodeBlock inode last + UInt32.ofNat (number - last)) k := by
  have beyond : ¬4096 * number + k < 4096 * last := by omega
  have place : 4096 * number + k - 4096 * last = 4096 * (number - last) + k := by omega
  simp only [spanByte, beyond, if_false, place, dataByte_behind]

theorem spanByte_tail_iff (image : Image) (inode : UInt32) (offset last : Nat)
    (skipped : skipCount offset ≤ last) :
    (∀ k, k < (image.inodeLength inode).toNat - offset →
        spanByte image inode last (offset + k) = image.fileByte inode (offset + k)) ↔
      TailInPlace image inode last := by
  have skipEq : skipCount offset = (offset - 1) / 4096 := rfl
  constructor
  · intro same number k later bound inFile
    have reached := same (4096 * number + k - offset) (by omega)
    rw [show offset + (4096 * number + k - offset) = 4096 * number + k by omega,
      spanByte_behind image inode (by omega), fileByte_in_block image inode bound] at reached
    exact reached
  · intro inPlace k bound
    by_cases near : offset + k < 4096 * (last + 1)
    · exact spanByte_eq_fileByte image inode near
    · have split : offset + k = 4096 * ((offset + k) / 4096) + (offset + k) % 4096 := by omega
      rw [split, spanByte_behind image inode (by omega),
        fileByte_in_block image inode (by omega)]
      exact inPlace _ _ (by omega) (by omega) (by omega)

theorem toNat_bytesLeft (image : Image) (inode : UInt32) {offset : UInt32}
    (within : offset.toNat ≤ (image.inodeLength inode).toNat) :
    (image.inodeLength inode - offset).toNat =
      (image.inodeLength inode).toNat - offset.toNat :=
  UInt32.toNat_sub_of_le _ _ (UInt32.le_iff_toNat_le.mpr within)

/-- The truncated read and the read of exactly the bytes left return the same count and fill
the buffer alike exactly when the blocks the truncated one no longer looks up lie in place. -/
theorem readData_truncated_iff (image : Image) (inode offset length : UInt32) (buf : Nat → UInt8)
    (small : (image.inodeLength inode).toNat ≤ 4096 * 1023)
    (within : offset.toNat ≤ (image.inodeLength inode).toNat)
    (past : (image.inodeLength inode).toNat < offset.toNat + length.toNat)
    (noWrap : offset.toNat + length.toNat < 2 ^ 32) :
    let truncated := readData image inode offset buf length
    let bounded := readData image inode offset buf (image.inodeLength inode - offset)
    (truncated.ret = bounded.ret ∧ truncated.written = bounded.written ∧
        truncated.buf = bounded.buf) ↔
      TailInPlace image inode (lastFollowed (image.inodeLength inode).toNat offset.toNat) := by
  have left := toNat_bytesLeft image inode within
  by_cases unread : offset = image.inodeLength inode
  · rw [unread, readData_atEnd, readData_atEnd]
    simp only [and_self, true_iff]
    intro number k later bound inFile
    unfold lastFollowed skipCount at later
    omega
  · obtain ⟨ret, written, filled, _⟩ := readData_closed image inode offset length buf small unread
    obtain ⟨allRet, allWritten, allFilled, _⟩ := readData_closed image inode offset
      (image.inodeLength inode - offset) buf small unread
    have last : ((image.inodeLength inode - offset) / block).toNat =
        ((image.inodeLength inode).toNat - offset.toNat) / 4096 := by
      rw [UInt32.toNat_div, toNat_block, left]
    have allLast : ((offset + (image.inodeLength inode - offset)) / kb4).toNat =
        (image.inodeLength inode).toNat / 4096 := by
      have below := (image.inodeLength inode).toNat_lt
      rw [UInt32.toNat_div, UInt32.toNat_add, left, toNat_kb4, Nat.mod_eq_of_lt (by omega)]
      congr 1
      omega
    simp only [readPlan_pastEnd small within past noWrap, last] at ret written filled
    have insidePlan : readPlan (image.inodeLength inode) offset (image.inodeLength inode - offset) =
        (image.inodeLength inode - offset, (offset + (image.inodeLength inode - offset)) / kb4) :=
      readPlan_inside (by omega)
    simp only [insidePlan, allLast] at allRet allWritten allFilled
    simp only [ret, written, filled, allRet, allWritten, allFilled, true_and, writeRange_eq_iff,
      left]
    have followsAll (k : Nat) (bound : k < (image.inodeLength inode).toNat - offset.toNat) :
        spanByte image inode (max (skipCount offset.toNat)
          ((image.inodeLength inode).toNat / 4096)) (offset.toNat + k) =
          image.fileByte inode (offset.toNat + k) :=
      spanByte_eq_fileByte image inode (by omega)
    rw [← spanByte_tail_iff image inode offset.toNat
      (lastFollowed (image.inodeLength inode).toNat offset.toNat) (Nat.le_max_left _ _)]
    constructor
    · intro same k bound
      exact (same k bound).trans (followsAll k bound)
    · intro same k bound
      exact (same k bound).trans (followsAll k bound).symm

theorem readData_truncated_scattered :
    (scattered.inodeLength 0).toNat = 5000 ∧
      (readData scattered 0 4000 (fun _ => 0) 2000).buf 96 = 0 ∧
      (readData scattered 0 4000 (fun _ => 0) (scattered.inodeLength 0 - 4000)).buf 96 = 7 := by
  decide

theorem readData_truncated_iff_scattered :
    let truncated := readData scattered 0 4000 (fun _ => 0) 2000
    let bounded := readData scattered 0 4000 (fun _ => 0) (scattered.inodeLength 0 - 4000)
    (truncated.ret = bounded.ret ∧ truncated.written = bounded.written ∧
        truncated.buf = bounded.buf) ↔
      TailInPlace scattered 0 (lastFollowed (scattered.inodeLength 0).toNat 4000) :=
  readData_truncated_iff scattered 0 4000 2000 (fun _ => 0) (by decide) (by decide) (by decide)
    (by decide)

def CountsWithin (fileLength offset length : UInt32) (result : ReadResult) : Prop :=
  if offset < fileLength then
    result.ret ≤ length ∧ result.ret ≤ fileLength - offset ∧
      result.written ≤ length.toNat ∧ result.written ≤ (fileLength - offset).toNat
  else result.ret = 0 ∧ result.written = 0

instance (fileLength offset length : UInt32) (result : ReadResult) :
    Decidable (CountsWithin fileLength offset length result) := by
  unfold CountsWithin
  infer_instance

theorem readPlan_counts {fileLength offset length : UInt32} (small : fileLength.toNat ≤ 4096 * 1023)
    (within : offset.toNat ≤ fileLength.toNat) (noWrap : offset.toNat + length.toNat < 2 ^ 32) :
    (readPlan fileLength offset length).1.toNat ≤ length.toNat ∧
      (readPlan fileLength offset length).1.toNat ≤ fileLength.toNat - offset.toNat := by
  by_cases inside : offset.toNat + length.toNat ≤ fileLength.toNat
  · rw [readPlan_inside inside]
    simp only
    omega
  · have left : (fileLength - offset).toNat = fileLength.toNat - offset.toNat :=
      UInt32.toNat_sub_of_le _ _ (UInt32.le_iff_toNat_le.mpr within)
    rw [readPlan_pastEnd small within (by omega) noWrap]
    simp only [left]
    omega

/-- The counts are right exactly at the end of the file and, before it, when offset plus
length does not wrap. -/
theorem readData_counts_iff (image : Image) (inode offset length : UInt32) (buf : Nat → UInt8)
    (small : (image.inodeLength inode).toNat ≤ 4096 * 1023) :
    CountsWithin (image.inodeLength inode) offset length (readData image inode offset buf length) ↔
      offset = image.inodeLength inode ∨
        (offset < image.inodeLength inode ∧ offset.toNat + length.toNat < 2 ^ 32) := by
  by_cases unread : offset = image.inodeLength inode
  · simp [unread, readData_atEnd, CountsWithin]
  · obtain ⟨ret, written, _, _⟩ := readData_closed image inode offset length buf small unread
    simp only [unread, false_or]
    by_cases before : offset < image.inodeLength inode
    · have within : offset.toNat < (image.inodeLength inode).toNat :=
        UInt32.lt_iff_toNat_lt.mp before
      have left := toNat_bytesLeft image inode within.le
      simp only [CountsWithin, before, if_true, true_and, ret, written, UInt32.le_iff_toNat_le,
        left]
      by_cases wraps : 2 ^ 32 ≤ offset.toNat + length.toNat
      · rw [readPlan_wrapped within.le wraps]
        omega
      · have counts := readPlan_counts small within.le (Nat.lt_of_not_le wraps)
        omega
    · have beyond : (image.inodeLength inode).toNat < offset.toNat := by
        have different : offset.toNat ≠ (image.inodeLength inode).toNat :=
          fun same => unread (UInt32.toNat_inj.mp same)
        rw [UInt32.lt_iff_toNat_lt] at before
        omega
      simp only [CountsWithin, before, if_false, false_and, iff_false, ret]
      exact fun zero => readPlan_beyond beyond zero.1

theorem readData_counts_iff_scattered :
    CountsWithin (scattered.inodeLength 0) 10 100 (readData scattered 0 10 (fun _ => 0) 100) ↔
      (10 : UInt32) = scattered.inodeLength 0 ∨
        ((10 : UInt32) < scattered.inodeLength 0 ∧
          (10 : UInt32).toNat + (100 : UInt32).toNat < 2 ^ 32) :=
  readData_counts_iff scattered 0 10 100 (fun _ => 0) (by decide)

/-- A `nbytes` of -5 at position 10 copies 4294967291 bytes out of a file of 5000. -/
theorem readData_counts_scattered :
    (readData scattered 0 10 (fun _ => 0) (-5)).ret = 4294967291 ∧
      (readData scattered 0 10 (fun _ => 0) (-5)).written = 4294967291 ∧
      ¬CountsWithin (scattered.inodeLength 0) 10 (-5)
        (readData scattered 0 10 (fun _ => 0) (-5)) := by
  decide

end G29Os
