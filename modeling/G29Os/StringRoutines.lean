import G29Os.BoundedLoop
import G29Os.ByteRange
import G29Os.StringMove

/-!
`memset`, `memcpy` and `memmove` of `lib.c`, register by register. The first two have a loop up to
an aligned address, a run of `rep stosl` or `rep movsl` and a loop over what is left.
-/

namespace G29Os

open BoundedLoop ByteRange

structure Cpu where
  eax : UInt32
  ecx : UInt32
  edx : UInt32
  edi : UInt32
  esi : UInt32
  df : Bool
  mem : Nat → UInt8

namespace Cpu

def stride (size : UInt32) (cpu : Cpu) : UInt32 := if cpu.df then 0 - size else size

def stosl (cpu : Cpu) : Cpu :=
  { cpu with
    mem := writeRange cpu.mem cpu.edi.toNat 4 fun k => (cpu.eax >>> UInt32.ofNat (8 * k)).toUInt8
    edi := cpu.edi + cpu.stride 4 }

def movsl (cpu : Cpu) : Cpu :=
  { cpu with
    mem := writeRange cpu.mem cpu.edi.toNat 4 fun k => cpu.mem (cpu.esi.toNat + k)
    edi := cpu.edi + cpu.stride 4
    esi := cpu.esi + cpu.stride 4 }

def movsb (cpu : Cpu) : Cpu :=
  { cpu with
    mem := Function.update cpu.mem cpu.edi.toNat (cpu.mem cpu.esi.toNat)
    edi := cpu.edi + cpu.stride 1
    esi := cpu.esi + cpu.stride 1 }

def repeated (instruction : Cpu → Cpu) : Nat → Cpu → Cpu
  | 0, cpu => cpu
  | count + 1, cpu => repeated instruction count (instruction cpu)

def rep (instruction : Cpu → Cpu) (cpu : Cpu) : Cpu :=
  { repeated instruction cpu.ecx.toNat cpu with ecx := 0 }

/-- `movb %al, (%edi)` and `addl $1, %edi`. -/
def storeAl (cpu : Cpu) : Cpu :=
  { cpu with
    mem := Function.update cpu.mem cpu.edi.toNat cpu.eax.toUInt8
    edi := cpu.edi + 1 }

def copyAl (cpu : Cpu) : Cpu :=
  let loaded := { cpu with eax := (cpu.eax &&& 0xFFFFFF00) ||| (cpu.mem cpu.esi.toNat).toUInt32 }
  { loaded.storeAl with esi := cpu.esi + 1 }

/-- The loop from `.memset_top` or `.memcpy_top`, up to an aligned `edi`. -/
def top (move : Cpu → Cpu) (cpu : Cpu) : Cpu :=
  whileLoop (fun cpu => decide (cpu.ecx ≠ 0 ∧ cpu.edi &&& 3 ≠ 0))
    (fun cpu => { move cpu with ecx := cpu.ecx - 1 }) cpu.ecx.toNat cpu

/-- From `.memset_aligned` or `.memcpy_aligned` to the string instruction. -/
def aligned (instruction : Cpu → Cpu) (cpu : Cpu) : Cpu :=
  rep instruction { cpu with edx := cpu.ecx &&& 3, ecx := cpu.ecx >>> 2, df := false }

/-- The loop from `.memset_bottom` or `.memcpy_bottom`. -/
def bottom (move : Cpu → Cpu) (cpu : Cpu) : Cpu :=
  whileLoop (fun cpu => decide (cpu.edx ≠ 0))
    (fun cpu => { move cpu with edx := cpu.edx - 1 }) cpu.edx.toNat cpu

def routine (move instruction : Cpu → Cpu) (cpu : Cpu) : Cpu :=
  let cpu := top move cpu
  if cpu.ecx = 0 then cpu else bottom move (aligned instruction cpu)

def broadcast (c : UInt32) : UInt32 := c <<< 24 ||| c <<< 16 ||| c <<< 8 ||| c

def memset (s c n : UInt32) (cpu : Cpu) : Cpu :=
  routine storeAl stosl { cpu with eax := broadcast (c &&& 0xFF), edi := s, ecx := n }

def memcpy (dest src n : UInt32) (cpu : Cpu) : Cpu :=
  routine copyAl movsl { cpu with esi := src, edi := dest, ecx := n }

/-- `jae` takes the branch where `esi` is not below `edi`; behind `std` there is no `cld`. -/
def memmove (dest src n : UInt32) (cpu : Cpu) : Cpu :=
  let cpu := { cpu with edi := dest, esi := src, ecx := n, df := false }
  if cpu.esi ≥ cpu.edi then rep movsb cpu
  else rep movsb { cpu with esi := cpu.esi + cpu.ecx - 1, edi := cpu.edi + cpu.ecx - 1, df := true }

/-! ### What each round leaves -/

variable {cpu next : Cpu} {start : Nat → UInt8} {dest src n count later : Nat} {source : Nat → UInt8}

theorem repeated_rule {instruction : Cpu → Cpu} (holds : Nat → Cpu → Prop) {total : Nat}
    (one : ∀ count cpu, count < total → holds count cpu → holds (count + 1) (instruction cpu))
    (rounds : Nat) (count : Nat) (cpu : Cpu) (sum : count + rounds = total) (before : holds count cpu) :
    holds total (repeated instruction rounds cpu) := by
  induction rounds generalizing count cpu with
  | zero =>
      rw [Nat.add_zero] at sum
      exact sum ▸ before
  | succ rounds ih =>
      exact ih (count + 1) (instruction cpu) (by omega) (one count cpu (by omega) before)

/-- The first `count` bytes from `dest` on are those of `source`, and no other byte has changed. -/
structure Written (start : Nat → UInt8) (dest : Nat) (source : Nat → UInt8) (count : Nat) (cpu : Cpu) :
    Prop where
  edi : cpu.edi.toNat = (dest + count) % 4294967296
  mem : cpu.mem = writeRange start dest count source

theorem Written.extend (written : Written start dest source count cpu) (positive : 0 < later)
    (fits : dest + (count + later) ≤ 4294967296)
    (edi : next.edi.toNat = (cpu.edi.toNat + later) % 4294967296) {values : Nat → UInt8}
    (mem : next.mem = writeRange cpu.mem cpu.edi.toNat later values)
    (agree : ∀ k, k < later → source (count + k) = values k) :
    Written start dest source (count + later) next := by
  have place : cpu.edi.toNat = dest + count := by
    rw [written.edi, Nat.mod_eq_of_lt (by omega)]
  refine ⟨by rw [edi, place, Nat.add_assoc], ?_⟩
  rw [mem, place, written.mem]
  exact writeRange_append (fun _ _ => rfl) agree

/-! ### The routine of three phases -/

/-- `holds count` is brought on by one byte of `move` and by four of `instruction`. -/
structure Moves (n : Nat) (move instruction : Cpu → Cpu) (holds : Nat → Cpu → Prop) : Prop where
  byte : ∀ count cpu, count < n → holds count cpu → holds (count + 1) (move cpu)
  word : ∀ count cpu, count + 4 ≤ n → cpu.df = false → holds count cpu →
    holds (count + 4) (instruction cpu)
  counters : ∀ count cpu ecx edx df, holds count cpu →
    holds count { cpu with ecx := ecx, edx := edx, df := df }
  instructionEdx : ∀ cpu, (instruction cpu).edx = cpu.edx
  instructionDf : ∀ cpu, (instruction cpu).df = cpu.df

namespace Moves

variable {move instruction : Cpu → Cpu} {holds : Nat → Cpu → Prop}

theorem toNat_pred {count : UInt32} (positive : count ≠ 0) : (count - 1).toNat + 1 = count.toNat := by
  have some_ : count.toNat ≠ 0 := fun zero => positive (UInt32.toNat_inj.mp zero)
  have bound := count.toNat_lt
  rw [UInt32.toNat_sub]
  have one : (1 : UInt32).toNat = 1 := rfl
  rw [one]
  omega

theorem top (moves : Moves n move instruction holds) (sum : count + cpu.ecx.toNat = n)
    (before : holds count cpu) :
    ∃ count, count + (Cpu.top move cpu).ecx.toNat = n ∧ holds count (Cpu.top move cpu) := by
  refine (whileLoop_rule _ _ (fun cpu => ∃ count, count + cpu.ecx.toNat = n ∧ holds count cpu)
    (fun cpu => cpu.ecx.toNat) ?_ _ cpu ⟨count, sum, before⟩ (Nat.le_refl _)).1
  rintro cpu ⟨count, sum, before⟩ running
  obtain ⟨positive, -⟩ := of_decide_eq_true running
  have fewer := toNat_pred positive
  dsimp only
  refine ⟨⟨count + 1, by omega, ?_⟩, by omega⟩
  exact moves.counters _ (move cpu) _ (move cpu).edx (move cpu).df
    (moves.byte count cpu (by omega) before)

theorem bottom (moves : Moves n move instruction holds) (sum : count + cpu.edx.toNat = n)
    (before : holds count cpu) : holds n (Cpu.bottom move cpu) := by
  have done := whileLoop_rule (fun cpu : Cpu => decide (cpu.edx ≠ 0))
    (fun cpu => { move cpu with edx := cpu.edx - 1 })
    (fun cpu => ∃ count, count + cpu.edx.toNat = n ∧ holds count cpu)
    (fun cpu => cpu.edx.toNat) ?_ cpu.edx.toNat cpu ⟨count, sum, before⟩ (Nat.le_refl _)
  · obtain ⟨⟨count, sum, after⟩, stopped⟩ := done
    have zero : (Cpu.bottom move cpu).edx = 0 := not_not.mp (of_decide_eq_false stopped)
    change count + (Cpu.bottom move cpu).edx.toNat = n at sum
    rw [zero] at sum
    exact sum ▸ after
  · rintro cpu ⟨count, sum, before⟩ running
    have fewer := toNat_pred (of_decide_eq_true running)
    dsimp only
    refine ⟨⟨count + 1, by omega, ?_⟩, by omega⟩
    exact moves.counters _ (move cpu) (move cpu).ecx _ (move cpu).df
      (moves.byte count cpu (by omega) before)

theorem aligned (moves : Moves n move instruction holds) (sum : count + cpu.ecx.toNat = n)
    (before : holds count cpu) : ∃ count, count + (Cpu.aligned instruction cpu).edx.toNat = n ∧
      holds count (Cpu.aligned instruction cpu) := by
  have words : (cpu.ecx >>> 2).toNat = cpu.ecx.toNat / 4 := by
    rw [UInt32.toNat_shiftRight, Nat.shiftRight_eq_div_pow]
    rfl
  have rest : (cpu.ecx &&& 3).toNat = cpu.ecx.toNat % 4 := by
    rw [UInt32.toNat_and]
    exact Nat.and_two_pow_sub_one_eq_mod _ 2
  have ran := @repeated_rule instruction
    (fun rounds other => holds (count + 4 * rounds) other ∧ other.df = false ∧
      other.edx = cpu.ecx &&& 3) (cpu.ecx.toNat / 4) ?_ (cpu.ecx >>> 2).toNat 0
    { cpu with edx := cpu.ecx &&& 3, ecx := cpu.ecx >>> 2, df := false }
    (by rw [words, Nat.zero_add]) ⟨moves.counters _ _ _ _ _ before, rfl, rfl⟩
  · obtain ⟨after, forward, left⟩ := ran
    refine ⟨count + 4 * (cpu.ecx.toNat / 4), ?_, moves.counters _ _ 0 _ _ after⟩
    change _ + (repeated instruction _ _).edx.toNat = n
    rw [left, rest]
    omega
  · rintro rounds other more ⟨before, forward, left⟩
    have next := moves.word _ other (by omega) forward before
    exact ⟨next, (moves.instructionDf other).trans forward, (moves.instructionEdx other).trans left⟩

theorem routine (moves : Moves n move instruction holds) (sum : cpu.ecx.toNat = n)
    (before : holds 0 cpu) : holds n (Cpu.routine move instruction cpu) := by
  obtain ⟨count, sum, after⟩ := moves.top (by rw [sum, Nat.zero_add]) before
  rw [Cpu.routine]
  split
  · rename_i done
    rw [done] at sum
    exact sum ▸ after
  · obtain ⟨count, sum, after⟩ := moves.aligned sum after
    exact moves.bottom sum after

end Moves

/-! ### `memset` -/

theorem broadcast_byte (fill : UInt8) {k : Nat} (inside : k < 4) :
    (broadcast fill.toUInt32 >>> UInt32.ofNat (8 * k)).toUInt8 = fill := by
  have bytes : ∀ (fill : Fin 256) (k : Fin 4),
      (broadcast (UInt8.ofNat fill).toUInt32 >>> UInt32.ofNat (8 * k)).toUInt8 = UInt8.ofNat fill := by
    decide +kernel
  have cell := bytes ⟨fill.toNat, fill.toNat_lt⟩ ⟨k, inside⟩
  rwa [UInt8.ofNat_toNat] at cell

theorem toUInt32_toUInt8 (c : UInt32) : c.toUInt8.toUInt32 = c &&& 0xFF := by
  apply UInt32.toNat_inj.mp
  rw [UInt8.toNat_toUInt32, UInt32.toNat_toUInt8, UInt32.toNat_and]
  exact (Nat.and_two_pow_sub_one_eq_mod _ 8).symm

theorem toNat_next (p : UInt32) (step : UInt32) : (p + step).toNat = (p.toNat + step.toNat) % 4294967296 :=
  UInt32.toNat_add p step

structure Filling (start : Nat → UInt8) (dest : Nat) (fill : UInt8) (count : Nat) (cpu : Cpu) : Prop
    extends Written start dest (fun _ => fill) count cpu where
  eax : cpu.eax = broadcast fill.toUInt32

theorem moves_filling {fill : UInt8} (fits : dest + n ≤ 4294967296) :
    Moves n storeAl stosl (Filling start dest fill) where
  byte count cpu more filling := by
    refine ⟨filling.extend Nat.one_pos (by omega) (toNat_next ..) update_eq_writeRange ?_, filling.eax⟩
    intro k _
    rw [filling.eax]
    exact (@broadcast_byte fill 0 (by decide)).symm
  word count cpu more forward filling := by
    have stride : cpu.stride 4 = 4 := by
      rw [Cpu.stride, forward]
      rfl
    have stored : cpu.stosl.mem = writeRange cpu.mem cpu.edi.toNat 4 fun k =>
      (cpu.eax >>> UInt32.ofNat (8 * k)).toUInt8 := rfl
    refine ⟨filling.extend (by decide) (by omega) ?_ stored ?_, filling.eax⟩
    · rw [stosl, stride]
      exact toNat_next ..
    · intro k inside
      rw [filling.eax, broadcast_byte fill inside]
  counters count cpu ecx edx df filling := ⟨⟨filling.edi, filling.mem⟩, filling.eax⟩
  instructionEdx cpu := rfl
  instructionDf cpu := rfl

theorem memset_mem {s c n : UInt32} (fits : s.toNat + n.toNat ≤ 4294967296) :
    (memset s c n cpu).mem = writeRange cpu.mem s.toNat n.toNat fun _ => c.toUInt8 := by
  have bound := s.toNat_lt
  have before : Filling cpu.mem s.toNat c.toUInt8 0
      { cpu with eax := broadcast (c &&& 0xFF), edi := s, ecx := n } := by
    refine ⟨⟨(Nat.mod_eq_of_lt bound).symm, writeRange_zero.symm⟩, ?_⟩
    rw [toUInt32_toUInt8]
  exact ((moves_filling fits).routine rfl before).mem

/-! ### `memcpy` -/

theorem lowByte_or (a : UInt32) (b : UInt8) : ((a &&& 0xFFFFFF00) ||| b.toUInt32).toUInt8 = b := by
  have clear : (0xFFFFFF00 : UInt32).toUInt8 = 0 := by decide
  rw [UInt32.toUInt8_or, UInt32.toUInt8_and, clear, UInt8.and_zero, UInt8.zero_or,
    UInt8.toUInt8_toUInt32]

structure Copying (start : Nat → UInt8) (dest src count : Nat) (cpu : Cpu) : Prop
    extends Written start dest (fun k => start (src + k)) count cpu where
  esi : cpu.esi.toNat = (src + count) % 4294967296

def Ahead (dest src n : Nat) : Prop := dest ≤ src ∨ src + n ≤ dest

theorem Copying.unread (copying : Copying start dest src count cpu) (ahead : Ahead dest src n)
    (fits : src + n ≤ 4294967296) {k : Nat} (inside : count + k < n) :
    cpu.mem (cpu.esi.toNat + k) = start (src + (count + k)) := by
  have place : cpu.esi.toNat = src + count := by
    rw [copying.esi, Nat.mod_eq_of_lt (by omega)]
  rw [place, copying.mem, Nat.add_assoc]
  apply writeRange_outside
  rcases ahead with above | below
  · exact Or.inr (by omega)
  · exact Or.inl (by omega)

theorem Copying.extend (copying : Copying start dest src count cpu) (ahead : Ahead dest src n)
    (fitsDest : dest + n ≤ 4294967296) (fitsSrc : src + n ≤ 4294967296) (positive : 0 < later)
    (more : count + later ≤ n)
    (edi : next.edi.toNat = (cpu.edi.toNat + later) % 4294967296)
    (esi : next.esi.toNat = (cpu.esi.toNat + later) % 4294967296)
    (mem : next.mem = writeRange cpu.mem cpu.edi.toNat later fun k => cpu.mem (cpu.esi.toNat + k)) :
    Copying start dest src (count + later) next := by
  refine ⟨copying.toWritten.extend positive (by omega) edi mem ?_, ?_⟩
  · intro k inside
    exact (copying.unread ahead fitsSrc (by omega)).symm
  · rw [esi, copying.esi, ← Nat.add_assoc, Nat.mod_add_mod]

theorem update_copied (mem : Nat → UInt8) (place from_ : Nat) :
    Function.update mem place (mem from_) = writeRange mem place 1 fun k => mem (from_ + k) := by
  rw [update_eq_writeRange]
  apply writeRange_congr
  intro k inside
  rw [Nat.lt_one_iff.mp inside, Nat.add_zero]

theorem moves_copying (ahead : Ahead dest src n) (fitsDest : dest + n ≤ 4294967296)
    (fitsSrc : src + n ≤ 4294967296) : Moves n copyAl movsl (Copying start dest src) where
  byte count cpu more copying := by
    refine copying.extend ahead fitsDest fitsSrc Nat.one_pos more (toNat_next ..) (toNat_next ..) ?_
    rw [copyAl, storeAl]
    dsimp only
    rw [lowByte_or]
    exact update_copied ..
  word count cpu more forward copying := by
    have stride : cpu.stride 4 = 4 := by
      rw [Cpu.stride, forward]
      rfl
    refine copying.extend ahead fitsDest fitsSrc (by decide) more ?_ ?_ rfl
    · rw [movsl, stride]
      exact toNat_next ..
    · rw [movsl, stride]
      exact toNat_next ..
  counters count cpu ecx edx df copying := ⟨⟨copying.edi, copying.mem⟩, copying.esi⟩
  instructionEdx cpu := rfl
  instructionDf cpu := rfl

theorem memcpy_mem {dest src n : UInt32} (fitsDest : dest.toNat + n.toNat ≤ 4294967296)
    (fitsSrc : src.toNat + n.toNat ≤ 4294967296) (ahead : Ahead dest.toNat src.toNat n.toNat) :
    (memcpy dest src n cpu).mem =
      writeRange cpu.mem dest.toNat n.toNat fun k => cpu.mem (src.toNat + k) := by
  have before : Copying cpu.mem dest.toNat src.toNat 0 { cpu with esi := src, edi := dest, ecx := n } :=
    ⟨⟨(Nat.mod_eq_of_lt dest.toNat_lt).symm, writeRange_zero.symm⟩, (Nat.mod_eq_of_lt src.toNat_lt).symm⟩
  exact ((moves_copying ahead fitsDest fitsSrc).routine rfl before).mem

/-! ### `memmove` -/

theorem movsb_up (ahead : Ahead dest src n) (fitsDest : dest + n ≤ 4294967296)
    (fitsSrc : src + n ≤ 4294967296) (ecx : cpu.ecx.toNat = n) (forward : cpu.df = false)
    (before : Copying start dest src 0 cpu) :
    Copying start dest src n (rep movsb cpu) ∧ (rep movsb cpu).df = false := by
  have ran := @repeated_rule movsb
    (fun count other => Copying start dest src count other ∧ other.df = false) n ?_ cpu.ecx.toNat 0 cpu
    (by rw [ecx, Nat.zero_add]) ⟨before, forward⟩
  · obtain ⟨copying, forward⟩ := ran
    exact ⟨⟨⟨copying.edi, copying.mem⟩, copying.esi⟩, forward⟩
  · rintro count other more ⟨copying, forward⟩
    have stride : other.stride 1 = 1 := by
      rw [Cpu.stride, forward]
      rfl
    refine ⟨copying.extend ahead fitsDest fitsSrc Nat.one_pos more ?_ ?_ (update_copied ..), forward⟩
    · rw [movsb, stride]
      exact toNat_next ..
    · rw [movsb, stride]
      exact toNat_next ..

structure MovingDown (start : Nat → UInt8) (dest src n count : Nat) (cpu : Cpu) : Prop where
  edi : (cpu.edi.toNat + count + 1) % 4294967296 = (dest + n) % 4294967296
  esi : (cpu.esi.toNat + count + 1) % 4294967296 = (src + n) % 4294967296
  mem : cpu.mem = writeRange start (dest + n - count) count fun k => start (src + n - count + k)
  df : cpu.df = true

theorem MovingDown.movsb (moving : MovingDown start dest src n count cpu) (below : src < dest)
    (fitsDest : dest + n ≤ 4294967296) (more : count < n) :
    MovingDown start dest src n (count + 1) cpu.movsb := by
  have ediBound := cpu.edi.toNat_lt
  have esiBound := cpu.esi.toNat_lt
  have edi := moving.edi
  have esi := moving.esi
  have place : cpu.edi.toNat = dest + n - (count + 1) := by omega
  have from_ : cpu.esi.toNat = src + n - (count + 1) := by omega
  have stride : (cpu.stride 1).toNat = 4294967295 := by
    rw [Cpu.stride, moving.df]
    rfl
  have unread : cpu.mem cpu.esi.toNat = start cpu.esi.toNat := by
    rw [moving.mem]
    exact writeRange_outside (Or.inl (by omega))
  refine ⟨?_, ?_, ?_, moving.df⟩
  · rw [Cpu.movsb]
    dsimp only
    rw [toNat_next, stride]
    omega
  · rw [Cpu.movsb]
    dsimp only
    rw [toNat_next, stride]
    omega
  · rw [Cpu.movsb]
    dsimp only
    have next : dest + n - count = cpu.edi.toNat + 1 := by omega
    rw [unread, moving.mem, next, ← place, from_]
    refine update_writeRange rfl fun k _ => ?_
    congr 1
    omega

theorem movsb_down (below : src < dest) (fitsDest : dest + n ≤ 4294967296) (ecx : cpu.ecx.toNat = n)
    (before : MovingDown start dest src n 0 cpu) : MovingDown start dest src n n (rep movsb cpu) := by
  have moving := @repeated_rule Cpu.movsb (MovingDown start dest src n) n
    (fun count other more moving => moving.movsb below fitsDest more) cpu.ecx.toNat 0 cpu
    (by rw [ecx, Nat.zero_add]) before
  exact ⟨moving.edi, moving.esi, moving.mem, moving.df⟩

theorem memmove_effect {dest src n : UInt32} (fitsDest : dest.toNat + n.toNat ≤ 4294967296)
    (fitsSrc : src.toNat + n.toNat ≤ 4294967296) :
    (memmove dest src n cpu).mem =
        writeRange cpu.mem dest.toNat n.toNat (fun k => cpu.mem (src.toNat + k)) ∧
      (memmove dest src n cpu).df = decide (src.toNat < dest.toNat) := by
  have destBound := dest.toNat_lt
  have srcBound := src.toNat_lt
  have nBound := n.toNat_lt
  rw [memmove]
  dsimp only
  split
  · rename_i above
    have ahead : Ahead dest.toNat src.toNat n.toNat := Or.inl (UInt32.le_iff_toNat_le.mp above)
    obtain ⟨copying, forward⟩ := @movsb_up { cpu with edi := dest, esi := src, ecx := n, df := false }
      cpu.mem dest.toNat src.toNat n.toNat ahead fitsDest fitsSrc rfl rfl
      ⟨⟨(Nat.mod_eq_of_lt destBound).symm, writeRange_zero.symm⟩, (Nat.mod_eq_of_lt srcBound).symm⟩
    refine ⟨copying.mem, forward.trans (decide_eq_false ?_).symm⟩
    exact Nat.not_lt_of_le (UInt32.le_iff_toNat_le.mp above)
  · rename_i notAbove
    have below : src.toNat < dest.toNat := Nat.lt_of_not_le (mt UInt32.le_iff_toNat_le.mpr notAbove)
    have moving := @movsb_down { cpu with
        edi := dest + n - 1, esi := src + n - 1, ecx := n, df := true }
      cpu.mem dest.toNat src.toNat n.toNat below fitsDest rfl ⟨?_, ?_, writeRange_zero.symm, rfl⟩
    · refine ⟨?_, moving.df.trans (decide_eq_true below).symm⟩
      rw [moving.mem, Nat.add_sub_cancel, Nat.add_sub_cancel]
    · have one : (1 : UInt32).toNat = 1 := rfl
      rw [UInt32.toNat_sub, UInt32.toNat_add, one]
      omega
    · have one : (1 : UInt32).toNat = 1 := rfl
      rw [UInt32.toNat_sub, UInt32.toNat_add, one]
      omega

/-- The consoles move their bytes as the registers do, with `base` their address 0. -/
theorem memmove_agrees {dest src n : UInt32} (fitsDest : dest.toNat + n.toNat ≤ 4294967296)
    (fitsSrc : src.toNat + n.toNat ≤ 4294967296) (base : Int) (address : Nat) :
    (memmove dest src n cpu).mem address =
      G29Os.memmove (dest.toNat - base) (src.toNat - base) n.toNat
        (fun place => cpu.mem (place + base).toNat) (address - base) := by
  rw [(memmove_effect fitsDest fitsSrc).1, memmove_moves]
  dsimp only
  by_cases inside : dest.toNat ≤ address ∧ address < dest.toNat + n.toNat
  · have moved : (dest.toNat : Int) - base ≤ address - base ∧
        (address : Int) - base < dest.toNat - base + n.toNat := by omega
    have offset : address = dest.toNat + (address - dest.toNat) := by omega
    rw [if_pos moved, offset, writeRange_inside (by omega)]
    congr 1
    omega
  · have kept : ¬((dest.toNat : Int) - base ≤ address - base ∧
        (address : Int) - base < dest.toNat - base + n.toNat) := by omega
    rw [if_neg kept, writeRange_outside (by omega)]
    congr 1
    omega

/-! ### The routines as their callers see them -/

structure Replaced (mem : Nat → UInt8) (dest n : Nat) (source after : Nat → UInt8) : Prop where
  inside : ∀ k, k < n → after (dest + k) = source k
  outside : ∀ address, address < dest ∨ dest + n ≤ address → after address = mem address

theorem replaced_writeRange (mem : Nat → UInt8) :
    Replaced mem dest n source (writeRange mem dest n source) where
  inside _ bound := writeRange_inside bound
  outside _ apart := writeRange_outside apart

theorem memset_memcpy_bytes {dest n : UInt32} (fitsDest : dest.toNat + n.toNat ≤ 4294967296) :
    (∀ c : UInt32, Replaced cpu.mem dest.toNat n.toNat (fun _ => UInt8.ofNat (c.toNat % 256))
      (memset dest c n cpu).mem) ∧
    ∀ src : UInt32, src.toNat + n.toNat ≤ 4294967296 →
      (src.toNat + n.toNat ≤ dest.toNat ∨ dest.toNat + n.toNat ≤ src.toNat) →
      Replaced cpu.mem dest.toNat n.toNat (fun k => cpu.mem (src.toNat + k))
        (memcpy dest src n cpu).mem := by
  constructor
  · intro c
    have low : UInt8.ofNat (c.toNat % 256) = c.toUInt8 := by
      apply UInt8.toNat_inj.mp
      rw [UInt8.toNat_ofNat', UInt32.toNat_toUInt8]
      exact Nat.mod_mod _ _
    rw [memset_mem fitsDest, low]
    exact replaced_writeRange cpu.mem
  · intro src fitsSrc apart
    have ahead : Ahead dest.toNat src.toNat n.toNat := by
      rcases apart with below | above
      · exact Or.inr below
      · exact Or.inl (by omega)
    rw [memcpy_mem fitsDest fitsSrc ahead]
    exact replaced_writeRange cpu.mem

def numbered : Cpu where
  eax := 0
  ecx := 0
  edx := 0
  edi := 0
  esi := 0
  df := false
  mem := UInt8.ofNat

theorem memset_memcpy_unaligned :
    (7 : UInt32).toNat + (10 : UInt32).toNat ≤ 4294967296 ∧
    (∀ c : UInt32, Replaced numbered.mem 7 10 (fun _ => UInt8.ofNat (c.toNat % 256))
      (memset 7 c 10 numbered).mem) ∧
    ((30 : UInt32).toNat + (10 : UInt32).toNat ≤ 4294967296 ∧ 7 + 10 ≤ 30 ∧
      Replaced numbered.mem 7 10 (fun k => numbered.mem (30 + k)) (memcpy 7 30 10 numbered).mem) := by
  have routines := @memset_memcpy_bytes numbered 7 10 (by decide)
  exact ⟨by decide, routines.1, by decide, by decide,
    routines.2 30 (by decide) (Or.inr (by decide))⟩

/-- Moving to a higher address leaves the direction flag set. -/
theorem memmove_clean_iff {dest src n : UInt32} (fitsDest : dest.toNat + n.toNat ≤ 4294967296)
    (fitsSrc : src.toNat + n.toNat ≤ 4294967296) :
    (Replaced cpu.mem dest.toNat n.toNat (fun k => cpu.mem (src.toNat + k))
        (memmove dest src n cpu).mem ∧
      (memmove dest src n cpu).df = false) ↔
    dest ≤ src := by
  obtain ⟨moved, flag⟩ := @memmove_effect cpu dest src n fitsDest fitsSrc
  rw [moved, flag, UInt32.le_iff_toNat_le]
  constructor
  · rintro ⟨-, clear⟩
    exact Nat.le_of_not_lt (of_decide_eq_false clear)
  · intro above
    exact ⟨replaced_writeRange cpu.mem, decide_eq_false (Nat.not_lt_of_le above)⟩

theorem memmove_scroll :
    (0xB8000 : UInt32).toNat + (3840 : UInt32).toNat ≤ 4294967296 ∧
    (0xB80A0 : UInt32).toNat + (3840 : UInt32).toNat ≤ 4294967296 ∧
    Replaced numbered.mem 0xB8000 3840 (fun k => numbered.mem (0xB80A0 + k))
      (memmove 0xB8000 0xB80A0 3840 numbered).mem ∧
    (memmove 0xB8000 0xB80A0 3840 numbered).df = false := by
  have clean := (@memmove_clean_iff numbered 0xB8000 0xB80A0 3840 (by decide) (by decide)).mpr (by decide)
  exact ⟨by decide, by decide, clean.1, clean.2⟩

/-- One line of the screen copied to the line below it. -/
theorem memmove_lineDown :
    ¬((0xB80A0 : UInt32).toNat + (160 : UInt32).toNat ≤ 4294967296 →
      (0xB8000 : UInt32).toNat + (160 : UInt32).toNat ≤ 4294967296 →
      Replaced numbered.mem 0xB80A0 160 (fun k => numbered.mem (0xB8000 + k))
        (memmove 0xB80A0 0xB8000 160 numbered).mem ∧
      (memmove 0xB80A0 0xB8000 160 numbered).df = false) := by
  intro claim
  have clear := (claim (by decide) (by decide)).2
  rw [(@memmove_effect numbered 0xB80A0 0xB8000 160 (by decide) (by decide)).2] at clear
  exact absurd clear (by decide)

end Cpu

end G29Os
