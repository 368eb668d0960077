import Mathlib.Algebra.GroupWithZero.Nat
import Mathlib.Data.List.GetD
import Mathlib.Tactic.Common

/-!
Code of a 32-bit processor that works on its stack: pushes and pops, and the frames of
interrupts. What is pushed and popped again in the reverse order is as it was before.
-/

namespace StackCode

/-! ### Numbers in memory -/

def bytesOf : Nat → Nat → List UInt8
  | 0, _ => []
  | count + 1, value => UInt8.ofNat value :: bytesOf count (value / 256)

def valueOf : List UInt8 → Nat
  | [] => 0
  | byte :: bytes => byte.toNat + 256 * valueOf bytes

@[simp] theorem length_bytesOf (count value : Nat) : (bytesOf count value).length = count := by
  induction count generalizing value with
  | zero => rfl
  | succ count ih => simp [bytesOf, ih]

theorem valueOf_bytesOf (count value : Nat) : valueOf (bytesOf count value) = value % 256 ^ count := by
  induction count generalizing value with
  | zero => simp [bytesOf, valueOf, Nat.mod_one]
  | succ count ih =>
      rw [bytesOf, valueOf, ih, Nat.pow_succ', Nat.mod_mul]
      simp

def long (value : UInt32) : List UInt8 := bytesOf 4 value.toNat

def wordOf (bytes : List UInt8) : UInt32 := UInt32.ofNat (valueOf bytes)

def shortOf (bytes : List UInt8) : UInt16 := UInt16.ofNat (valueOf bytes)

@[simp] theorem length_long (value : UInt32) : (long value).length = 4 := length_bytesOf ..

@[simp] theorem wordOf_long (value : UInt32) : wordOf (long value) = value := by
  have bound := value.toNat_lt
  rw [wordOf, long, valueOf_bytesOf, Nat.mod_eq_of_lt (by omega), UInt32.ofNat_toNat]

theorem shortOf_bytesOf {count : Nat} (value : UInt16) (wide : 2 ≤ count) :
    shortOf (bytesOf count value.toNat) = value := by
  have bound := value.toNat_lt
  have fits : 256 ^ 2 ≤ 256 ^ count := Nat.pow_le_pow_right (by decide) wide
  rw [shortOf, valueOf_bytesOf, Nat.mod_eq_of_lt (by omega), UInt16.ofNat_toNat]

@[simp] theorem shortOf_long (value : UInt16) : shortOf (long value.toUInt32) = value := by
  rw [long, UInt16.toNat_toUInt32]
  exact shortOf_bytesOf value (by decide)

/-! ### Memory -/

abbrev Mem := UInt32 → UInt8

def store (mem : Mem) (start : UInt32) (bytes : List UInt8) : Mem := fun address =>
  bytes.getD (address - start).toNat (mem address)

def load (mem : Mem) (start : UInt32) (count : Nat) : List UInt8 :=
  (List.range count).map fun index => mem (start + UInt32.ofNat index)

def Holds (mem : Mem) (start : UInt32) (bytes : List UInt8) : Prop :=
  load mem start bytes.length = bytes

section Memory

variable {mem : Mem} {start address : UInt32} {bytes above below : List UInt8}

@[simp] theorem length_load (count : Nat) : (load mem start count).length = count := by simp [load]

theorem store_inside (inside : (address - start).toNat < bytes.length) :
    store mem start bytes address = bytes[(address - start).toNat] := List.getD_eq_getElem _ _ inside

theorem store_outside (outside : bytes.length ≤ (address - start).toNat) :
    store mem start bytes address = mem address := List.getD_eq_default _ _ outside

theorem toNat_small {count : Nat} (small : count < 4294967296) : (UInt32.ofNat count).toNat = count :=
  UInt32.toNat_ofNat_of_lt' small

theorem toNat_offset {index : Nat} (small : index < 4294967296) :
    (start + UInt32.ofNat index - start).toNat = index := by
  rw [UInt32.add_comm, UInt32.add_sub_cancel, toNat_small small]

theorem holds_iff : Holds mem start bytes ↔
    ∀ index (inside : index < bytes.length), mem (start + UInt32.ofNat index) = bytes[index] := by
  constructor
  · intro holds index inside
    have cell := List.getElem_of_eq holds.symm inside
    simpa [load] using cell.symm
  · intro cells
    apply List.ext_getElem
    · simp
    · intro index inside inside'
      simpa [load] using cells index inside'

theorem holds_store (fits : bytes.length ≤ 4294967296) : Holds (store mem start bytes) start bytes := by
  rw [holds_iff]
  intro index inside
  have offset : (start + UInt32.ofNat index - start).toNat = index := toNat_offset (by omega)
  rw [store_inside (by omega)]
  simp only [offset]

theorem Holds.left (holds : Holds mem start (above ++ below)) : Holds mem start above := by
  rw [holds_iff] at holds ⊢
  intro index inside
  rw [holds index (by simp; omega), List.getElem_append_left inside]

theorem offset_add (first second : Nat) :
    start + UInt32.ofNat first + UInt32.ofNat second = start + UInt32.ofNat (first + second) := by
  rw [UInt32.add_assoc, UInt32.ofNat_add]

theorem Holds.right (holds : Holds mem start (above ++ below)) :
    Holds mem (start + UInt32.ofNat above.length) below := by
  rw [holds_iff] at holds ⊢
  intro index inside
  have cell := holds (above.length + index) (by simp; omega)
  rw [offset_add, cell, List.getElem_append_right (Nat.le_add_right ..)]
  simp

theorem Holds.append (first : Holds mem start above)
    (second : Holds mem (start + UInt32.ofNat above.length) below) : Holds mem start (above ++ below) := by
  rw [holds_iff] at first second ⊢
  intro index inside
  rw [List.length_append] at inside
  by_cases before : index < above.length
  · rw [first index before, List.getElem_append_left before]
  · have cell := second (index - above.length) (by omega)
    have offset : above.length + (index - above.length) = index := by omega
    rw [offset_add, offset] at cell
    rw [cell, List.getElem_append_right (by omega)]

theorem store_store :
    store (store mem start below) (start - UInt32.ofNat above.length) above =
      store mem (start - UInt32.ofNat above.length) (above ++ below) := by
  funext address
  have back : start = start - UInt32.ofNat above.length + UInt32.ofNat above.length :=
    (UInt32.sub_add_cancel ..).symm
  generalize start - UInt32.ofNat above.length = low at back ⊢
  subst back
  have small := (address - low).toNat_lt
  by_cases first : (address - low).toNat < above.length
  · rw [store_inside first, store_inside (by simp; omega), List.getElem_append_left first]
  · rw [store_outside (by omega)]
    have shifted : (address - (low + UInt32.ofNat above.length)).toNat =
        (address - low).toNat - above.length := by
      have regroup : address - (low + UInt32.ofNat above.length) = address - low - UInt32.ofNat above.length := by
        grind
      have reaches : UInt32.ofNat above.length ≤ address - low := by
        rw [UInt32.le_iff_toNat_le, toNat_small (by omega)]
        omega
      rw [regroup, UInt32.toNat_sub_of_le _ _ reaches, toNat_small (by omega)]
    by_cases second : (address - low).toNat < above.length + below.length
    · rw [store_inside (by omega), store_inside (by simp; omega), List.getElem_append_right (by omega)]
      simp only [shifted]
    · rw [store_outside (by omega), store_outside (by simp; omega)]

theorem Holds.store {other : UInt32} (holds : Holds mem start bytes)
    (apart : other.toNat + above.length ≤ start.toNat) (fits : start.toNat + bytes.length ≤ 4294967296) :
    Holds (store mem other above) start bytes := by
  rw [holds_iff] at holds ⊢
  intro index inside
  rw [store_outside, holds index inside]
  have place : (start + UInt32.ofNat index).toNat = start.toNat + index := by
    rw [UInt32.toNat_add, toNat_small (by omega), Nat.mod_eq_of_lt (by omega)]
  rw [UInt32.toNat_sub_of_le _ _ (UInt32.le_iff_toNat_le.mpr (by omega)), place]
  omega

end Memory

/-! ### Pushed registers -/

inductive Reg
  | eax | ecx | edx | ebx | esp | ebp | esi | edi
  deriving DecidableEq

inductive Seg
  | es | ds | fs | gs
  deriving DecidableEq

@[ext] structure State where
  reg : Reg → UInt32
  seg : Seg → UInt16
  cs : UInt16
  ss : UInt16
  eip : UInt32
  eflags : UInt32
  mem : Mem

namespace State

def esp (s : State) : UInt32 := s.reg .esp

def set (r : Reg) (value : UInt32) (s : State) : State := { s with reg := Function.update s.reg r value }

def setSeg (g : Seg) (value : UInt16) (s : State) : State := { s with seg := Function.update s.seg g value }

def push (bytes : List UInt8) (s : State) : State :=
  let esp := s.esp - UInt32.ofNat bytes.length
  { s with reg := Function.update s.reg .esp esp, mem := store s.mem esp bytes }

def top (count : Nat) (s : State) : List UInt8 := load s.mem s.esp count

def drop (count : Nat) (s : State) : State := s.set .esp (s.esp + UInt32.ofNat count)

end State

/-- What a push stores: a segment register in 4 bytes or, by `pushw`, in 2. `pushal` stores `esp` as
it was `depth` bytes before, and `popal` passes over it. -/
inductive Pushed
  | reg (r : Reg)
  | seg (g : Seg)
  | half (g : Seg)
  | passed (depth : UInt32)
  deriving DecidableEq

namespace Pushed

def bytes (s : State) : Pushed → List UInt8
  | reg r => long (s.reg r)
  | seg g => long (s.seg g).toUInt32
  | half g => bytesOf 2 (s.seg g).toNat
  | passed depth => long (s.esp + depth)

def save (saved : Pushed) (s : State) : State := s.push (saved.bytes s)

def restore : Pushed → State → State
  | reg r, s => (s.drop 4).set r (wordOf (s.top 4))
  | seg g, s => (s.drop 4).setSeg g (shortOf (s.top 4))
  | half g, s => (s.drop 2).setSeg g (shortOf (s.top 2))
  | passed _, s => s.drop 4

end Pushed

def saves (all : List Pushed) (s : State) : State := all.foldl (fun s saved => saved.save s) s

def restores (all : List Pushed) (s : State) : State := all.foldr Pushed.restore s

def frame : List Pushed → State → List UInt8
  | [], _ => []
  | saved :: rest, s => frame rest (saved.save s) ++ saved.bytes s

def restored (all : List Pushed) (s t : State) : State :=
  { t with
    reg := fun r => if r = .esp ∨ .reg r ∈ all then s.reg r else t.reg r
    seg := fun g => if .seg g ∈ all ∨ .half g ∈ all then s.seg g else t.seg g }

variable {above below : List UInt8}

@[simp] theorem esp_push (bytes : List UInt8) (s : State) :
    (s.push bytes).esp = s.esp - UInt32.ofNat bytes.length := by
  simp [State.push, State.esp]

@[simp] theorem esp_drop (count : Nat) (s : State) : (s.drop count).esp = s.esp + UInt32.ofNat count := by
  simp [State.drop, State.set, State.esp]

@[simp] theorem mem_set (r : Reg) (value : UInt32) (s : State) : (s.set r value).mem = s.mem := rfl

theorem esp_set {r : Reg} {value : UInt32} {s : State} (other : r ≠ .esp) : (s.set r value).esp = s.esp :=
  Function.update_of_ne other.symm ..

theorem reg_push {r : Reg} {bytes : List UInt8} {s : State} (other : r ≠ .esp) :
    (s.push bytes).reg r = s.reg r := Function.update_of_ne other ..

theorem push_push {s : State} :
    (s.push below).push above = s.push (above ++ below) := by
  have esp : s.esp - UInt32.ofNat below.length - UInt32.ofNat above.length =
      s.esp - UInt32.ofNat (above ++ below).length := by
    rw [List.length_append, UInt32.ofNat_add]
    grind
  have lower := esp_push below s
  have mem : store (store s.mem (s.esp - UInt32.ofNat below.length) below)
      (s.esp - UInt32.ofNat (above ++ below).length) above =
        store s.mem (s.esp - UInt32.ofNat (above ++ below).length) (above ++ below) := by
    rw [← esp, store_store]
  rw [State.push, lower]
  simp only [State.push, esp, mem, Function.update_idem]

theorem Holds.push {s : State} (holds : Holds s.mem s.esp below)
    (fits : above.length + below.length ≤ 4294967296) :
    Holds (s.push above).mem (s.push above).esp (above ++ below) := by
  rw [esp_push]
  refine Holds.append (holds_store (by omega)) ?_
  rw [UInt32.sub_add_cancel]
  rw [holds_iff] at holds ⊢
  intro index inside
  have place : s.esp + UInt32.ofNat index - (s.esp - UInt32.ofNat above.length) =
      UInt32.ofNat (above.length + index) := by
    rw [UInt32.ofNat_add]
    grind
  have outside := @store_outside s.mem (s.esp - UInt32.ofNat above.length) (s.esp + UInt32.ofNat index) above
    (by rw [place, toNat_small (by omega)]; omega)
  exact outside.trans (holds index inside)

theorem push_nil (s : State) : s.push [] = s := by
  have same : s.esp - UInt32.ofNat 0 = s.reg .esp := UInt32.sub_zero ..
  have empty : store s.mem (s.reg .esp) [] = s.mem := by
    funext address
    rfl
  simp only [State.push, List.length_nil, same, empty, Function.update_eq_self]

theorem saves_eq (all : List Pushed) (s : State) : saves all s = s.push (frame all s) := by
  induction all generalizing s with
  | nil => exact (push_nil s).symm
  | cons saved rest ih =>
      change saves rest (saved.save s) = _
      rw [ih, frame, Pushed.save, push_push]

theorem top_holds {s : State} {bytes : List UInt8} {count : Nat} (holds : Holds s.mem s.esp (bytes ++ below))
    (size : bytes.length = count) : s.top count = bytes := by
  subst size
  exact holds.left

theorem load_holds {mem : Mem} {start : UInt32} {bytes : List UInt8} {skip count : Nat}
    (holds : Holds mem start (above ++ (bytes ++ below))) (behind : above.length = skip)
    (size : bytes.length = count) : load mem (start + UInt32.ofNat skip) count = bytes := by
  subst behind size
  exact holds.right.left

theorem restored_nil {s t : State} (level : t.esp = s.esp) : restored [] s t = t := by
  ext r
  · simp only [restored, List.not_mem_nil, or_false]
    split
    · rename_i stack
      subst stack
      exact congrArg UInt32.toNat level.symm
    · rfl
  all_goals simp [restored]

theorem drop_restored {saved : Pushed} {rest : List Pushed} {s t : State} {count : Nat}
    (size : (saved.bytes s).length = count) :
    (restored rest (saved.save s) t).drop count = restored rest s t := by
  subst size
  have back : (restored rest (saved.save s) t).esp + UInt32.ofNat (saved.bytes s).length = s.esp := by
    have esp : (restored rest (saved.save s) t).esp = (saved.save s).esp := by simp [State.esp, restored]
    rw [esp, Pushed.save, esp_push]
    exact UInt32.sub_add_cancel ..
  rw [State.drop, back, State.set]
  simp only [restored, State.mk.injEq, and_true]
  refine ⟨?_, rfl⟩
  funext r
  rcases eq_or_ne r .esp with rfl | other
  · simp [State.esp]
  · simp only [Function.update_of_ne other, other, false_or, Pushed.save, reg_push other]

theorem set_restored {r : Reg} {rest : List Pushed} {s t : State} :
    (restored rest s t).set r (s.reg r) = restored (.reg r :: rest) s t := by
  simp only [State.set, restored, State.mk.injEq, and_true]
  refine ⟨?_, by simp⟩
  funext other
  rcases eq_or_ne other r with rfl | apart
  · simp
  · simp [apart]

theorem setSeg_restored {saved : Pushed} {g : Seg} {rest : List Pushed} {s t : State}
    (segment : saved = .seg g ∨ saved = .half g) :
    (restored rest s t).setSeg g (s.seg g) = restored (saved :: rest) s t := by
  simp only [State.setSeg, restored, State.mk.injEq, and_true]
  refine ⟨?_, ?_⟩
  · rcases segment with rfl | rfl <;> simp
  · funext other
    rcases eq_or_ne other g with rfl | apart
    · rcases segment with rfl | rfl <;> simp
    · rcases segment with rfl | rfl <;> simp [apart]

theorem restore_restored {saved : Pushed} {rest : List Pushed} {s t : State}
    (holds : Holds t.mem (saved.save s).esp (saved.bytes s ++ below)) :
    saved.restore (restored rest (saved.save s) t) = restored (saved :: rest) s t := by
  have top {count : Nat} (size : (saved.bytes s).length = count) :
      (restored rest (saved.save s) t).top count = saved.bytes s := by
    have esp : (restored rest (saved.save s) t).esp = (saved.save s).esp := by simp [State.esp, restored]
    exact top_holds (esp ▸ holds) size
  cases saved with
  | reg r =>
      have size : (Pushed.bytes s (.reg r)).length = 4 := length_long _
      rw [Pushed.restore, top size, drop_restored size, Pushed.bytes, wordOf_long]
      exact set_restored
  | seg g =>
      have size : (Pushed.bytes s (.seg g)).length = 4 := length_long _
      rw [Pushed.restore, top size, drop_restored size, Pushed.bytes, shortOf_long]
      exact setSeg_restored (Or.inl rfl)
  | half g =>
      have size : (Pushed.bytes s (.half g)).length = 2 := length_bytesOf ..
      rw [Pushed.restore, top size, drop_restored size, Pushed.bytes, shortOf_bytesOf _ (Nat.le_refl 2)]
      exact setSeg_restored (Or.inr rfl)
  | passed depth =>
      have size : (Pushed.bytes s (.passed depth)).length = 4 := length_long _
      rw [Pushed.restore, drop_restored size]
      simp [restored]

theorem restores_saves {all : List Pushed} {s t : State} (level : t.esp = (saves all s).esp)
    (holds : Holds t.mem t.esp (frame all s ++ below)) : restores all t = restored all s t := by
  induction all generalizing s t below with
  | nil => exact (restored_nil level).symm
  | cons saved rest ih =>
      change saved.restore (restores rest t) = _
      rw [frame, List.append_assoc] at holds
      have level' : t.esp = (saves rest (saved.save s)).esp := level
      rw [ih level' holds]
      refine @restore_restored below saved rest s t ?_
      have lower := holds.right
      rw [level', saves_eq, esp_push] at lower
      rwa [UInt32.sub_add_cancel] at lower

/-! ### Instructions -/

inductive Instr
  | push (saved : Pushed)
  | pop (saved : Pushed)
  | mov (r : Reg) (value : UInt32)
  | movSeg (g : Seg) (r : Reg)
  | load (r : Reg) (offset : UInt32)
  | dec (r : Reg)
  | copy (r source : Reg)
  | copyShort (r source : Reg)
  | pushValue (value : UInt32)
  | orTop (value : UInt32)

def exec (s : State) : Instr → State
  | .push saved => saved.save s
  | .pop saved => saved.restore s
  | .mov r value => s.set r value
  | .movSeg g r => s.setSeg g (s.reg r).toUInt16
  | .load r offset => s.set r (wordOf (load s.mem (s.esp + offset) 4))
  | .dec r => s.set r (s.reg r - 1)
  | .copy r source => s.set r (s.reg source)
  | .copyShort r source => s.set r (s.reg r &&& 0xFFFF0000 ||| (s.reg source).toUInt16.toUInt32)
  | .pushValue value => s.push (long value)
  | .orTop value => { s with mem := store s.mem s.esp (long (wordOf (s.top 4) ||| value)) }

def run (code : List Instr) (s : State) : State := code.foldl exec s

theorem run_pushes (all : List Pushed) (s : State) : run (all.map .push) s = saves all s := List.foldl_map ..

theorem run_pops (all : List Pushed) (s : State) : run (all.reverse.map .pop) s = restores all s := by
  rw [run, List.foldl_map, List.foldl_reverse]
  rfl

structure Callee (s t : State) : Prop where
  kept : ∀ r ∈ [Reg.ebx, .esp, .ebp, .esi, .edi], t.reg r = s.reg r
  seg : t.seg = s.seg

/-! ### Interrupts -/

def user (selector : UInt16) : Bool := decide (selector &&& 3 = 3)

structure Gate where
  offset : UInt32
  selector : UInt16

structure Tss where
  esp0 : UInt32
  ss0 : UInt16

def interruptFrame (s : State) : List UInt8 :=
  long s.eip ++ (long s.cs.toUInt32 ++ (long s.eflags ++
    if user s.cs then long s.esp ++ long s.ss.toUInt32 else []))

def gateFlags (eflags : UInt32) : UInt32 := eflags &&& ~~~0x34300

def interrupt (gate : Gate) (tss : Tss) (s : State) : State :=
  let stack := if user s.cs then { s.set .esp tss.esp0 with ss := tss.ss0 } else s
  { stack.push (interruptFrame s) with
    cs := gate.selector
    eip := gate.offset
    eflags := gateFlags s.eflags }

/-- On the way to a user program the stack is popped too, and the segment registers that it may
not use are set to 0. -/
def iret (privileged : UInt16 → Bool) (s : State) : State :=
  let cs := shortOf ((s.drop 4).top 4)
  let outer := user cs && !user s.cs
  { s with
    reg := Function.update s.reg .esp (if outer then wordOf ((s.drop 12).top 4) else s.esp + 12)
    seg := fun g => if outer && privileged (s.seg g) then 0 else s.seg g
    cs := cs
    ss := if outer then shortOf ((s.drop 16).top 4) else s.ss
    eip := wordOf (s.top 4)
    eflags := wordOf ((s.drop 8).top 4) }

/-- `t` is a later state with the same stack pointer and the same `count` bytes on the stack. -/
structure Keeps (count : Nat) (s t : State) : Prop where
  esp : t.esp = s.esp
  cs : t.cs = s.cs
  ss : t.ss = s.ss
  stack : load t.mem s.esp count = load s.mem s.esp count

theorem Keeps.holds {count : Nat} {s t : State} {bytes : List UInt8} (keeps : Keeps count s t)
    (holds : Holds s.mem s.esp bytes) (size : bytes.length ≤ count) : Holds t.mem t.esp bytes := by
  rw [holds_iff] at holds ⊢
  intro index inside
  have cell := List.getElem_of_eq keeps.stack (i := index) (by simp; omega)
  simp only [load, List.getElem_map, List.getElem_range] at cell
  rw [keeps.esp, cell, holds index inside]

def resumed (privileged : UInt16 → Bool) (all : List Pushed) (s t : State) : State :=
  { s with
    reg := fun r => if r = .esp ∨ .reg r ∈ all then s.reg r else t.reg r
    seg := fun g =>
      let selector := if .seg g ∈ all ∨ .half g ∈ all then s.seg g else t.seg g
      if user s.cs && privileged selector then 0 else selector
    mem := t.mem }

theorem top_drop {s : State} {bytes : List UInt8} {skip count : Nat}
    (holds : Holds s.mem s.esp (above ++ (bytes ++ below))) (start : above.length = skip)
    (size : bytes.length = count) : (s.drop skip).top count = bytes := by
  rw [State.top, esp_drop]
  exact load_holds holds start size

theorem iret_interrupt {privileged : UInt16 → Bool} {gate : Gate} {tss : Tss} {s t : State}
    (kernel : user t.cs = false) (level : t.esp = (interrupt gate tss s).esp)
    (ss : user s.cs = false → t.ss = s.ss) (holds : Holds t.mem t.esp (interruptFrame s)) :
    iret privileged t =
      { s with
        reg := Function.update t.reg .esp s.esp
        seg := fun g => if user s.cs && privileged (t.seg g) then 0 else t.seg g
        mem := t.mem } := by
  have eip : t.top 4 = long s.eip := top_holds holds (length_long _)
  have cs : (t.drop 4).top 4 = long s.cs.toUInt32 := top_drop holds (length_long _) (length_long _)
  have both : (long s.eip ++ long s.cs.toUInt32).length = 8 := by simp
  have eflags : (t.drop 8).top 4 = long s.eflags := by
    rw [interruptFrame, ← List.append_assoc] at holds
    exact top_drop holds both (length_long _)
  have all : (long s.eip ++ long s.cs.toUInt32 ++ long s.eflags).length = 12 := by simp
  by_cases from_user : user s.cs = true
  · have holds' : Holds t.mem t.esp ((long s.eip ++ long s.cs.toUInt32 ++ long s.eflags) ++
        (long s.esp ++ (long s.ss.toUInt32 ++ []))) := by
      rw [interruptFrame, if_pos from_user] at holds
      simpa using holds
    have esp : (t.drop 12).top 4 = long s.esp := top_drop holds' all (length_long _)
    have stack : (t.drop 16).top 4 = long s.ss.toUInt32 := by
      rw [← List.append_assoc] at holds'
      exact top_drop holds' (by simp) (length_long _)
    simp [iret, eip, cs, eflags, esp, stack, from_user, kernel]
  · rw [Bool.not_eq_true] at from_user
    have back : t.esp + 12 = s.esp := by
      have size : (interruptFrame s).length = 12 := by simp [interruptFrame, from_user]
      have lower : (interrupt gate tss s).esp = s.esp - UInt32.ofNat 12 := by
        rw [← size]
        simp [interrupt, from_user, State.push, State.esp]
      rw [level, lower]
      exact UInt32.sub_add_cancel ..
    simp [iret, eip, cs, eflags, from_user, back, ss from_user]

theorem reg_interrupt {gate : Gate} {tss : Tss} {s : State} {r : Reg} (other : r ≠ .esp) :
    (interrupt gate tss s).reg r = s.reg r := by
  cases from_user : user s.cs <;> simp [interrupt, from_user, State.push, State.set, other]

theorem holds_push {base s : State} (mem : s.mem = (base.push below).mem)
    (esp : s.esp = (base.push below).esp) (fits : above.length + below.length ≤ 4294967296) :
    Holds (s.push above).mem (s.push above).esp (above ++ below) := by
  have low := esp.trans (esp_push below base)
  have memory : s.mem = store base.mem (base.esp - UInt32.ofNat below.length) below := mem
  have stacked : (s.push above).mem =
      store base.mem (base.esp - UInt32.ofNat below.length - UInt32.ofNat above.length) (above ++ below) := by
    rw [← store_store, ← memory, ← low]
    rfl
  rw [stacked, esp_push, low]
  exact holds_store (by rw [List.length_append]; exact fits)

theorem holds_saves {all : List Pushed} {gate : Gate} {tss : Tss} {s : State}
    (fits : (frame all (interrupt gate tss s)).length + (interruptFrame s).length ≤ 4294967296) :
    Holds (saves all (interrupt gate tss s)).mem (saves all (interrupt gate tss s)).esp
      (frame all (interrupt gate tss s) ++ interruptFrame s) := by
  rw [saves_eq]
  exact @holds_push _ _ (if user s.cs then { s.set .esp tss.esp0 with ss := tss.ss0 } else s) _ rfl rfl fits

theorem esp_interrupt {gate : Gate} {tss : Tss} {s : State} (mode : user s.cs = true) :
    (interrupt gate tss s).esp = tss.esp0 - UInt32.ofNat (interruptFrame s).length := by
  simp [interrupt, mode, State.push, State.set, State.esp]

theorem mem_saves {all : List Pushed} {gate : Gate} {tss : Tss} {s : State} (mode : user s.cs = true) :
    (saves all (interrupt gate tss s)).mem =
      store s.mem (tss.esp0 - UInt32.ofNat (interruptFrame s).length -
        UInt32.ofNat (frame all (interrupt gate tss s)).length)
        (frame all (interrupt gate tss s) ++ interruptFrame s) := by
  have mem : (interrupt gate tss s).mem =
      store s.mem (tss.esp0 - UInt32.ofNat (interruptFrame s).length) (interruptFrame s) := by
    simp [interrupt, mode, State.push, State.set, State.esp]
  rw [saves_eq, ← store_store, ← mem, ← esp_interrupt mode]
  rfl

theorem handled {privileged : UInt16 → Bool} {gate : Gate} {tss : Tss} {all : List Pushed} {s t : State}
    (kernel : user gate.selector = false)
    (fits : (frame all (interrupt gate tss s)).length + (interruptFrame s).length ≤ 4294967296)
    (keeps : Keeps ((frame all (interrupt gate tss s)).length + (interruptFrame s).length)
      (saves all (interrupt gate tss s)) t) :
    iret privileged (restores all t) = resumed privileged all s t := by
  have holds := keeps.holds (holds_saves fits) (Nat.le_of_eq List.length_append)
  have level := keeps.esp
  have fields : (saves all (interrupt gate tss s)).cs = gate.selector ∧
      (saves all (interrupt gate tss s)).ss = (interrupt gate tss s).ss := by
    rw [saves_eq]
    exact ⟨rfl, rfl⟩
  have lower := holds.right
  rw [level, saves_eq, esp_push, UInt32.sub_add_cancel] at lower
  have stack : (restored all (interrupt gate tss s) t).esp = (interrupt gate tss s).esp := by
    simp [State.esp, restored]
  have mode : user (restored all (interrupt gate tss s) t).cs = false := by
    change user t.cs = false
    rw [keeps.cs, fields.1]
    exact kernel
  have ss (inside : user s.cs = false) : (restored all (interrupt gate tss s) t).ss = s.ss := by
    change t.ss = s.ss
    rw [keeps.ss, fields.2]
    simp [interrupt, inside, State.push]
  rw [restores_saves level holds, iret_interrupt mode stack ss (stack ▸ lower)]
  simp only [resumed, restored, State.mk.injEq, and_true]
  refine ⟨?_, ?_⟩
  · funext r
    rcases eq_or_ne r .esp with rfl | other
    · simp [State.esp]
    · simp [other, reg_interrupt other]
  · funext g
    have same : (interrupt gate tss s).seg g = s.seg g := by
      cases from_user : user s.cs <;> simp [interrupt, from_user, State.push, State.set]
    simp only [same]

end StackCode
