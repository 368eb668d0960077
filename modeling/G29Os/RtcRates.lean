import G29Os.Kernel
import Mathlib.Algebra.Group.Nat.Defs
import Mathlib.Data.Nat.Log

/-!
The rate that `rtc_write` programs. Its loop halves a 16-bit frequency until 1 is left, so it finds
the logarithm, of whatever the two low bytes say.
-/

namespace G29Os

theorem toNat_half (freq : UInt16) : (freq / 2).toNat = freq.toNat / 2 := by
  rw [UInt16.toNat_div]
  rfl

theorem log_half (freq : UInt16) : Nat.log 2 (freq / 2).toNat = Nat.log 2 freq.toNat - 1 := by
  rw [toNat_half, Nat.log_div_base]

theorem halvings_eq (fuel i : Nat) (freq : UInt16) (enough : Nat.log 2 freq.toNat ≤ fuel) :
    halvings fuel i freq = i + (Nat.log 2 freq.toNat - 1) := by
  have halved := log_half freq
  induction fuel generalizing i freq with
  | zero =>
      rw [halvings]
      omega
  | succ fuel ih =>
      rw [halvings]
      split
      · rename_i stops
        have small : (freq / 2).toNat < 2 := by
          rcases stops with one | zero
          · rw [one]
            decide
          · rw [zero]
            decide
        have log := Nat.log_of_lt small
        omega
      · rename_i goes
        obtain ⟨notOne, notZero⟩ := not_or.mp goes
        have one : (freq / 2).toNat ≠ 1 := fun same => notOne (UInt16.toNat_inj.mp same)
        have zero : (freq / 2).toNat ≠ 0 := fun same => notZero (UInt16.toNat_inj.mp same)
        have log : 0 < Nat.log 2 (freq / 2).toNat := Nat.log_pos (by decide) (by omega)
        rw [ih (i + 1) (freq / 2) (by omega) (log_half _)]
        omega

/-- `rtc_write` with its result, which is the same for every rate. -/
def rtcWriteCall (buf : Nat → UInt8) (rtc : Rtc) : Int × Rtc := (0, rtcWrite (buf 0) (buf 1) rtc)

theorem Kernel.systemWrite_rtcWriteCall {k : Kernel} {process : Slot} {fd : Int} {index : Fin 8}
    {bytes : List UInt8} (used : (k.pcbs process).fileArray.inUse 1 fd = some index)
    (fops : ((k.pcbs process).fileArray index).fopsPtr = some .rtc) :
    k.systemWrite process fd bytes =
      some ((rtcWriteCall (textOf bytes) k.rtc).1, { k with rtc := (rtcWriteCall (textOf bytes) k.rtc).2 }) := by
  simp only [systemWrite, used, fops]
  rfl

/-! ### Register A -/

def littleEndian (f : UInt32) : Nat → UInt8 := fun k => (f >>> UInt32.ofNat (8 * k)).toUInt8

theorem littleEndian_freq (f : UInt32) :
    ((littleEndian f 0).toUInt16 + ((littleEndian f 1).toUInt16 <<< 8)).toNat = f.toNat % 65536 := by
  simp [littleEndian, Nat.shiftRight_eq_div_pow, Nat.shiftLeft_eq]
  omega

theorem or_and_right (a b c : UInt8) : (a ||| b) &&& c = a &&& c ||| b &&& c := by
  apply UInt8.toBitVec_inj.mp
  ext i
  simp only [UInt8.toBitVec_and, UInt8.toBitVec_or, BitVec.getElem_and, BitVec.getElem_or,
    Bool.and_or_distrib_right]

theorem nibbles_rate (old : UInt8) {rate : Nat} (small : rate < 16) :
    (old &&& 0xF0 ||| UInt8.ofNat rate) &&& 0x0F = UInt8.ofNat rate ∧
      (old &&& 0xF0 ||| UInt8.ofNat rate) &&& 0xF0 = old &&& 0xF0 := by
  have nibble : ∀ rate : Fin 16, UInt8.ofNat rate &&& 0x0F = UInt8.ofNat rate ∧
      UInt8.ofNat rate &&& 0xF0 = 0 := by decide
  obtain ⟨low, high⟩ := nibble ⟨rate, small⟩
  have apart : (0xF0 : UInt8) &&& 0x0F = 0 := by decide
  constructor
  · rw [or_and_right, UInt8.and_assoc, apart, low, UInt8.and_zero, UInt8.zero_or]
  · rw [or_and_right, UInt8.and_assoc, high, UInt8.and_self, UInt8.or_zero]

theorem rtcWriteCall_registerA (f : UInt32) (rtc : Rtc) :
    let done := (rtcWriteCall (littleEndian f) rtc).2
    done.registerA &&& 0x0F = UInt8.ofNat (rateMax - (Nat.log 2 (f.toNat % 65536) - 1)) ∧
      done.registerA &&& 0xF0 = rtc.registerA &&& 0xF0 := by
  have bound : Nat.log 2 (f.toNat % 65536) ≤ Nat.log 2 65535 := Nat.log_mono_right (by omega)
  have fifteen : Nat.log 2 65535 = rateMax := by
    rw [rateMax, Nat.log_eq_iff (by decide)]
    decide
  have rate := halvings_eq rateMax 0 _ (littleEndian_freq f ▸ fifteen ▸ bound)
  rw [littleEndian_freq, Nat.zero_add] at rate
  rw [rtcWriteCall, rtcWrite]
  dsimp only
  rw [rate]
  exact nibbles_rate rtc.registerA (by rw [rateMax]; omega)

/-! ### The contract -/

def LegalRate (f : UInt32) : Prop := 2 ≤ f.toNat ∧ f.toNat ≤ 1024 ∧ ∃ n, f.toNat = 2 ^ n

structure KeepsContract (f : UInt32) (rtc : Rtc) : Prop where
  accepts : LegalRate f → (rtcWriteCall (littleEndian f) rtc).1 = 0 ∧
    (rtcWriteCall (littleEndian f) rtc).2.registerA &&& 0xF0 = rtc.registerA &&& 0xF0 ∧
    32768 >>> (((rtcWriteCall (littleEndian f) rtc).2.registerA &&& 0x0F).toNat - 1) = f.toNat
  refuses : ¬LegalRate f → (rtcWriteCall (littleEndian f) rtc).1 ≠ 0 ∧
    (rtcWriteCall (littleEndian f) rtc).2.registerA = rtc.registerA

theorem rtcWrite_contract_iff (f : UInt32) (rtc : Rtc) : KeepsContract f rtc ↔ LegalRate f := by
  obtain ⟨low, high⟩ := rtcWriteCall_registerA f rtc
  constructor
  · intro keeps
    by_contra illegal
    exact (keeps.refuses illegal).1 rfl
  · intro legal
    refine ⟨fun _ => ⟨rfl, high, ?_⟩, fun illegal => absurd legal illegal⟩
    obtain ⟨least, most, n, power⟩ := legal
    have positive : 1 ≤ n := by
      by_contra none
      rw [Nat.lt_one_iff.mp (Nat.lt_of_not_le none)] at power
      omega
    have bound : n ≤ 10 := by
      by_contra more
      have larger : 2 ^ 11 ≤ 2 ^ n := Nat.pow_le_pow_right (by decide) (by omega)
      omega
    have rate : rateMax - (Nat.log 2 (f.toNat % 65536) - 1) = 16 - n := by
      rw [Nat.mod_eq_of_lt (by omega), power, Nat.log_pow (by decide), rateMax]
      omega
    have nibble : (UInt8.ofNat (16 - n)).toNat = 16 - n := by
      rw [UInt8.toNat_ofNat']
      omega
    have shift : 16 - n - 1 = 15 - n := by omega
    rw [low, rate, nibble, power, shift, Nat.shiftRight_eq_div_pow]
    have total : (32768 : Nat) = 2 ^ 15 := by decide
    rw [total, Nat.pow_div (by omega) (by decide)]
    congr 1
    omega

def idleRtc : Rtc := { rtcFlag := false, rtcOpenFlag := false, registerA := 0x26 }

/-- 3 Hz is taken for 2 Hz. -/
theorem rtcWrite_rounds : ¬KeepsContract 3 idleRtc := by
  intro keeps
  have illegal : ¬LegalRate 3 := by
    rintro ⟨-, -, n, power⟩
    have odd : (3 : UInt32).toNat = 3 := rfl
    rw [odd] at power
    rcases n with _ | _ | n
    · cases power
    · cases power
    · rw [Nat.pow_succ, Nat.pow_succ] at power
      omega
  exact (keeps.refuses illegal).1 rfl

end G29Os
