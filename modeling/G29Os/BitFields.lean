import Mathlib.Algebra.Order.Ring.Nat
import Mathlib.Tactic.Common

/-!
Words made of bit fields, as a compiler lays them out: the first field in the lowest bits.
-/

namespace BitFields

structure Field where
  width : Nat
  value : Nat

def flag (bit : Bool) : Field := ⟨1, bit.toNat⟩

def size : List Field → Nat
  | [] => 0
  | field :: rest => field.width + size rest

def pack : List Field → Nat
  | [] => 0
  | field :: rest => field.value % 2 ^ field.width + 2 ^ field.width * pack rest

def extract (offset width word : Nat) : Nat := word / 2 ^ offset % 2 ^ width

def bit (offset word : Nat) : Bool := extract offset 1 word = 1

variable {before middle after : List Field} {field : Field}

theorem pack_lt (fields : List Field) : pack fields < 2 ^ size fields := by
  induction fields with
  | nil => exact Nat.one_pos
  | cons field rest ih =>
      have low : field.value % 2 ^ field.width < 2 ^ field.width := Nat.mod_lt _ (Nat.two_pow_pos _)
      have high : 2 ^ field.width * (pack rest + 1) ≤ 2 ^ field.width * 2 ^ size rest :=
        Nat.mul_le_mul_left _ ih
      rw [pack, size, Nat.pow_add]
      rw [Nat.mul_add, Nat.mul_one] at high
      omega

theorem pack_append : pack (before ++ after) = pack before + 2 ^ size before * pack after := by
  induction before with
  | nil => simp [pack, size]
  | cons field rest ih =>
      rw [List.cons_append, pack, ih, pack, size, Nat.pow_add, Nat.mul_add, Nat.mul_assoc, Nat.add_assoc]

/-- Any run of fields comes back whole, whatever stands around it. -/
theorem extract_pack : extract (size before) (size middle) (pack (before ++ (middle ++ after))) = pack middle := by
  have above : pack (before ++ (middle ++ after)) / 2 ^ size before = pack (middle ++ after) := by
    rw [pack_append, Nat.add_mul_div_left _ _ (Nat.two_pow_pos _), Nat.div_eq_of_lt (pack_lt before), Nat.zero_add]
  rw [extract, above, pack_append, Nat.add_mul_mod_self_left, Nat.mod_eq_of_lt (pack_lt middle)]

theorem pack_one {width value : Nat} (fits : value < 2 ^ width) : pack [⟨width, value⟩] = value := by
  rw [pack, pack, Nat.mul_zero, Nat.add_zero]
  exact Nat.mod_eq_of_lt fits

theorem extract_field {fields : List Field} {offset width value : Nat} (index : Nat)
    (listed : fields[index]? = some ⟨width, value⟩) (start : size (fields.take index) = offset)
    (fits : value < 2 ^ width) : extract offset width (pack fields) = value := by
  obtain ⟨inside, here⟩ := List.getElem?_eq_some_iff.mp listed
  have split : fields = fields.take index ++ ([⟨width, value⟩] ++ fields.drop (index + 1)) := by
    rw [← here, List.singleton_append, ← List.drop_eq_getElem_cons inside, List.take_append_drop]
  have whole : size [⟨width, value⟩] = width := Nat.add_zero width
  have run := @extract_pack (fields.take index) [⟨width, value⟩] (fields.drop (index + 1))
  rwa [← split, start, whole, pack_one fits] at run

theorem bit_flag {fields : List Field} {offset : Nat} {value : Bool} (index : Nat)
    (listed : fields[index]? = some (flag value)) (start : size (fields.take index) = offset) :
    bit offset (pack fields) = value := by
  rw [bit, extract_field index listed start value.toNat_lt]
  cases value <;> rfl

theorem extract_lt (offset width word : Nat) : extract offset width word < 2 ^ width :=
  Nat.mod_lt _ (Nat.two_pow_pos _)

theorem extract_masked {value mask : UInt32} {offset width : Nat} (small : offset < 32)
    (bits : mask.toNat >>> offset = 2 ^ width - 1) :
    ((value &&& mask) >>> UInt32.ofNat offset).toNat = extract offset width value.toNat := by
  have shift : (UInt32.ofNat offset).toNat % 32 = offset := by
    rw [UInt32.toNat_ofNat_of_lt' (show offset < 4294967296 by omega), Nat.mod_eq_of_lt small]
  rw [UInt32.toNat_shiftRight, shift, UInt32.toNat_and, Nat.shiftRight_and_distrib, bits,
    Nat.and_two_pow_sub_one_eq_mod, Nat.shiftRight_eq_div_pow]
  rfl

theorem extract_low (offset low high word : Nat) :
    extract offset low word = extract offset (low + high) word % 2 ^ low := by
  rw [extract, extract, Nat.pow_add, Nat.mod_mul_right_mod]

theorem extract_high (offset low high word : Nat) :
    extract (offset + low) high word = extract offset (low + high) word / 2 ^ low := by
  rw [extract, extract, Nat.pow_add, Nat.pow_add, ← Nat.div_div_eq_div_mul, Nat.mod_mul_right_div_self]

end BitFields
