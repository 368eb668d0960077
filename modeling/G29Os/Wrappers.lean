import G29Os.Kernel
import G29Os.StackCode

/-!
The assembly around the C code: `wrappers.S` in the kernel and the stubs of `ece391syscall.S` in
user programs. A handler in C is a function of the state in which it is called to the one in which
it has returned.
-/

namespace G29Os

open StackCode

/-! ### The code -/

def kernelDs : UInt32 := 0x18

inductive SystemCall
  | halt | execute | read | write | open | close | getargs | vidmap | setHandler | sigreturn
  deriving DecidableEq

def systemCallsTable : List SystemCall :=
  [.halt, .execute, .read, .write, .open, .close, .getargs, .vidmap, .setHandler, .sigreturn]

def SystemCall.number : SystemCall → UInt32
  | .halt => 1
  | .execute => 2
  | .read => 3
  | .write => 4
  | .open => 5
  | .close => 6
  | .getargs => 7
  | .vidmap => 8
  | .setHandler => 9
  | .sigreturn => 10

def keyboardSaved : List Pushed :=
  [.reg .eax, .reg .ebx, .reg .ecx, .reg .edx, .reg .esp, .reg .ebp, .reg .esi, .reg .edi,
    .half .ds, .half .es, .half .fs, .half .gs]

def rtcSaved : List Pushed :=
  [.reg .eax, .reg .ecx, .reg .edx, .reg .ebx, .passed 16, .reg .ebp, .reg .esi, .reg .edi]

def syscallSaved : List Pushed :=
  [.reg .edi, .reg .esi, .seg .ds, .seg .es, .seg .fs, .seg .gs, .reg .edx, .reg .ecx, .reg .ebx]

section Wrappers

variable (privileged : UInt16 → Bool)

def keyboardWrapper (keyboardHandler : State → State) (s : State) : State :=
  let called := keyboardHandler (run
    [.push (.reg .eax), .push (.reg .ebx), .push (.reg .ecx), .push (.reg .edx), .push (.reg .esp),
      .push (.reg .ebp), .push (.reg .esi), .push (.reg .edi), .push (.half .ds), .push (.half .es),
      .push (.half .fs), .push (.half .gs)] s)
  iret privileged (run
    [.pop (.half .gs), .pop (.half .fs), .pop (.half .es), .pop (.half .ds), .pop (.reg .edi),
      .pop (.reg .esi), .pop (.reg .ebp), .pop (.reg .esp), .pop (.reg .edx), .pop (.reg .ecx),
      .pop (.reg .ebx), .pop (.reg .eax)] called)

def rtcWrapper (rtcHandler : State → State) (s : State) : State :=
  iret privileged (run (rtcSaved.reverse.map .pop) (rtcHandler (run (rtcSaved.map .push) s)))

/-- `call *system_calls_table(,%eax,4)` -/
def callTable (functions : SystemCall → State → State) (s : State) : State :=
  match systemCallsTable[(s.reg .eax).toNat]? with
  | some call => functions call s
  | none => s

def syscallEntered (s : State) : State :=
  run
    [.push (.reg .edi), .push (.reg .esi), .push (.seg .ds), .push (.seg .es), .push (.seg .fs),
      .push (.seg .gs), .push (.reg .edx), .push (.reg .ecx), .push (.reg .ebx), .mov .edx kernelDs,
      .movSeg .ds .edx, .dec .eax] s

def syscallWrapper (functions : SystemCall → State → State) (s : State) : State :=
  let number := (s.reg .eax).toInt32
  if number ≤ 0 ∨ 10 < number then iret privileged (run [.mov .eax 0xFFFFFFFF] s)
  else
    iret privileged (run
      [.pop (.reg .ebx), .pop (.reg .ecx), .pop (.reg .edx), .pop (.seg .gs), .pop (.seg .fs),
        .pop (.seg .es), .pop (.seg .ds), .pop (.reg .esi), .pop (.reg .edi)]
      (callTable functions (syscallEntered s)))

def doCallEntered (call : SystemCall) (after : UInt32) (s : State) : State :=
  { run [.push (.reg .ebx), .mov .eax call.number, .load .ebx 8, .load .ecx 12, .load .edx 16] s with
    eip := after }

/-- The whole stub; `int` is the interrupt up to its `iret`. -/
def doCall (int : State → State) (call : SystemCall) (after : UInt32) (s : State) : State :=
  let returned := run [.pop (.reg .ebx)] (int (doCallEntered call after s))
  { returned.drop 4 with eip := wordOf (returned.top 4) }

end Wrappers

/-! ### Interrupts -/

variable {privileged : UInt16 → Bool} {gate : Gate} {tss : Tss} {s t : State}

/-- A program in user mode has no privileged selectors, and the gate leads into the kernel. -/
structure FromUser (privileged : UInt16 → Bool) (gate : Gate) (s : State) : Prop where
  mode : user s.cs = true
  segments : ∀ g, privileged (s.seg g) = false
  kernel : user gate.selector = false

theorem length_interruptFrame (fromUser : FromUser privileged gate s) : (interruptFrame s).length = 20 := by
  simp [interruptFrame, fromUser.mode]

theorem interrupt_transparent {all : List Pushed} {size : Nat} (fromUser : FromUser privileged gate s)
    (registers : ∀ r, r = .esp ∨ .reg r ∈ all)
    (segments : ∀ g, .seg g ∈ all ∨ .half g ∈ all ∨ t.seg g = s.seg g)
    (length : (frame all (interrupt gate tss s)).length = size) (small : size ≤ 40)
    (keeps : Keeps (size + 20) (saves all (interrupt gate tss s)) t) :
    iret privileged (restores all t) = { s with mem := t.mem } := by
  have sizes : (frame all (interrupt gate tss s)).length + (interruptFrame s).length = size + 20 := by
    rw [length, length_interruptFrame fromUser]
  have seg (g : Seg) : (if .seg g ∈ all ∨ .half g ∈ all then s.seg g else t.seg g) = s.seg g := by
    rcases segments g with listed | listed | same
    · rw [if_pos (Or.inl listed)]
    · rw [if_pos (Or.inr listed)]
    · rw [same, ite_self]
  rw [handled fromUser.kernel (by omega) (sizes ▸ keeps)]
  simp only [resumed, seg, fromUser.segments, Bool.and_false, Bool.false_eq_true, if_false, registers, if_true]

def keyboardEntered (gate : Gate) (tss : Tss) (s : State) : State :=
  saves keyboardSaved (interrupt gate tss s)

theorem length_keyboardFrame (s : State) : (frame keyboardSaved s).length = 40 := by
  simp [keyboardSaved, frame, Pushed.bytes]

theorem keyboard_transparent (fromUser : FromUser privileged gate s) (handler : State → State)
    (keeps : Keeps 60 (keyboardEntered gate tss s) (handler (keyboardEntered gate tss s))) :
    keyboardWrapper privileged handler (interrupt gate tss s) =
      { s with mem := (handler (keyboardEntered gate tss s)).mem } := by
  have code : keyboardWrapper privileged handler (interrupt gate tss s) =
      iret privileged (restores keyboardSaved (handler (keyboardEntered gate tss s))) := rfl
  rw [code]
  exact interrupt_transparent fromUser (fun r => by cases r <;> decide)
    (fun g => Or.inr (Or.inl (by cases g <;> decide))) (length_keyboardFrame _) (Nat.le_refl 40) keeps

theorem rtc_transparent (fromUser : FromUser privileged gate s) (handler : State → State)
    (keeps : Keeps 52 (saves rtcSaved (interrupt gate tss s)) (handler (saves rtcSaved (interrupt gate tss s))))
    (callee : Callee (saves rtcSaved (interrupt gate tss s)) (handler (saves rtcSaved (interrupt gate tss s)))) :
    rtcWrapper privileged handler (interrupt gate tss s) =
      { s with mem := (handler (saves rtcSaved (interrupt gate tss s))).mem } := by
  rw [rtcWrapper, run_pushes, run_pops]
  have size : (frame rtcSaved (interrupt gate tss s)).length = 32 := by simp [rtcSaved, frame, Pushed.bytes]
  refine interrupt_transparent fromUser (fun r => by cases r <;> decide) (fun g => Or.inr (Or.inr ?_)) size
    (by decide) keeps
  rw [callee.seg, saves_eq]
  simp [interrupt, fromUser.mode, State.push, State.set]

def field (offset count : Nat) (bytes : List UInt8) : List UInt8 := (bytes.drop offset).take count

theorem field_here {first rest : List UInt8} {count : Nat} (size : first.length = count) :
    field 0 count (first ++ rest) = first := by
  subst size
  exact List.take_left

theorem field_skip {first rest : List UInt8} {offset count : Nat} (behind : first.length ≤ offset) :
    field offset count (first ++ rest) = field (offset - first.length) count rest := by
  rw [field, field, List.drop_append, List.drop_eq_nil_of_le behind, List.nil_append]

theorem length_syscallFrame (s : State) : (frame syscallSaved s).length = 36 := by
  simp [syscallSaved, frame, Pushed.bytes]

def arguments (s : State) : UInt32 × UInt32 × UInt32 :=
  let stack := s.top 12
  (wordOf (field 0 4 stack), wordOf (field 4 4 stack), wordOf (field 8 4 stack))

theorem syscallEntered_stack :
    (syscallEntered s).mem = (saves syscallSaved s).mem ∧ (syscallEntered s).esp = (saves syscallSaved s).esp ∧
      (syscallEntered s).cs = (saves syscallSaved s).cs ∧ (syscallEntered s).ss = (saves syscallSaved s).ss := by
  have code : syscallEntered s = run [.mov .edx kernelDs, .movSeg .ds .edx, .dec .eax] (saves syscallSaved s) := rfl
  rw [code]
  generalize saves syscallSaved s = pushed
  exact ⟨rfl, rfl, rfl, rfl⟩

theorem syscallEntered_reg {r : Reg} (other : r ≠ .esp) (unused : r ≠ .edx) :
    (syscallEntered s).reg r = if r = .eax then s.reg .eax - 1 else s.reg r := by
  have code : syscallEntered s = run [.mov .edx kernelDs, .movSeg .ds .edx, .dec .eax] (saves syscallSaved s) := rfl
  rw [code, saves_eq]
  cases r <;> simp [run, exec, State.set, State.setSeg, reg_push] at other unused ⊢

theorem syscall_holds (fromUser : FromUser privileged gate s) :
    Holds (saves syscallSaved (interrupt gate tss s)).mem (saves syscallSaved (interrupt gate tss s)).esp
      (frame syscallSaved (interrupt gate tss s) ++ interruptFrame s) := by
  apply holds_saves
  rw [length_syscallFrame, length_interruptFrame fromUser]
  decide

theorem syscall_arguments (fromUser : FromUser privileged gate s) :
    arguments (syscallEntered (interrupt gate tss s)) = (s.reg .ebx, s.reg .ecx, s.reg .edx) := by
  obtain ⟨mem, esp, -⟩ := @syscallEntered_stack (interrupt gate tss s)
  have bytes : frame syscallSaved (interrupt gate tss s) ++ interruptFrame s =
      (long (s.reg .ebx) ++ (long (s.reg .ecx) ++ (long (s.reg .edx) ++ []))) ++
        (frame [.reg .edi, .reg .esi, .seg .ds, .seg .es, .seg .fs, .seg .gs] (interrupt gate tss s) ++
          interruptFrame s) := by
    simp [syscallSaved, frame, Pushed.bytes, Pushed.save, State.push, interrupt, fromUser.mode, State.set]
  have holds := @syscall_holds privileged gate tss s fromUser
  rw [bytes, ← mem, ← esp] at holds
  have stack := top_holds holds (show _ = 12 by simp)
  rw [arguments, stack]
  simp (disch := simp) only [field_skip, field_here, length_long, wordOf_long, Nat.reduceSub]

theorem callTable_number {functions : SystemCall → State → State} {call : SystemCall}
    (number : s.reg .eax = call.number - 1) : callTable functions s = functions call s := by
  rw [callTable, number]
  cases call <;> rfl

theorem number_range (call : SystemCall) : ¬(call.number.toInt32 ≤ 0 ∨ 10 < call.number.toInt32) := by
  cases call <;> decide

theorem syscall_calls (fromUser : FromUser privileged gate s) (functions : SystemCall → State → State)
    {call : SystemCall} (number : s.reg .eax = call.number)
    (keeps : Keeps 56 (syscallEntered (interrupt gate tss s))
      (functions call (syscallEntered (interrupt gate tss s))))
    (callee : Callee (syscallEntered (interrupt gate tss s))
      (functions call (syscallEntered (interrupt gate tss s)))) :
    let returned := functions call (syscallEntered (interrupt gate tss s))
    syscallWrapper privileged functions (interrupt gate tss s) =
      { s with reg := Function.update s.reg .eax (returned.reg .eax), mem := returned.mem } := by
  intro returned
  obtain ⟨mem, esp, cs, ss⟩ := @syscallEntered_stack (interrupt gate tss s)
  have eax : (interrupt gate tss s).reg .eax = call.number := by rw [reg_interrupt (by decide), number]
  have called : callTable functions (syscallEntered (interrupt gate tss s)) = returned := by
    apply callTable_number
    rw [syscallEntered_reg (by decide) (by decide), if_pos rfl, eax]
  have code : syscallWrapper privileged functions (interrupt gate tss s) =
      iret privileged (restores syscallSaved returned) := by
    rw [syscallWrapper, eax, if_neg (number_range call), called]
    rfl
  have sizes : (frame syscallSaved (interrupt gate tss s)).length + (interruptFrame s).length = 56 := by
    rw [length_syscallFrame, length_interruptFrame fromUser]
  have keeps' : Keeps 56 (saves syscallSaved (interrupt gate tss s)) returned :=
    ⟨keeps.esp.trans esp, keeps.cs.trans cs, keeps.ss.trans ss, by rw [← mem, ← esp]; exact keeps.stack⟩
  rw [code, handled fromUser.kernel (by rw [sizes]; decide) (sizes ▸ keeps')]
  have segments (g : Seg) : Pushed.seg g ∈ syscallSaved ∨ Pushed.half g ∈ syscallSaved := by cases g <;> decide
  have ebp : returned.reg .ebp = s.reg .ebp := by
    rw [callee.kept .ebp (by decide), syscallEntered_reg (by decide) (by decide), if_neg (by decide),
      reg_interrupt (by decide)]
  simp only [resumed, segments, if_true, fromUser.segments, Bool.and_false, Bool.false_eq_true, if_false,
    State.mk.injEq, and_true]
  funext r
  cases r <;> simp [syscallSaved, ebp]

theorem syscall_refused (fromUser : FromUser privileged gate s) (functions : SystemCall → State → State)
    (unknown : (s.reg .eax).toInt32 ≤ 0 ∨ 10 < (s.reg .eax).toInt32) :
    syscallWrapper privileged functions (interrupt gate tss s) =
      { s with
        reg := Function.update s.reg .eax 0xFFFFFFFF
        mem := (interrupt gate tss s).mem } := by
  have eax : (interrupt gate tss s).reg .eax = s.reg .eax := reg_interrupt (by decide)
  let failed := (interrupt gate tss s).set .eax 0xFFFFFFFF
  have code : syscallWrapper privileged functions (interrupt gate tss s) =
      iret privileged (restores [] failed) := by
    rw [syscallWrapper, eax, if_pos unknown]
    rfl
  have size : (frame [] (interrupt gate tss s)).length + (interruptFrame s).length = 20 := by
    rw [length_interruptFrame fromUser]
    rfl
  have keeps : Keeps 20 (saves [] (interrupt gate tss s)) failed := ⟨rfl, rfl, rfl, rfl⟩
  rw [code, handled fromUser.kernel (by rw [size]; decide) (size ▸ keeps)]
  have seg (g : Seg) : failed.seg g = s.seg g := by
    simp [failed, State.set, interrupt, fromUser.mode, State.push]
  simp only [resumed, List.not_mem_nil, or_self, if_false, seg, fromUser.segments, Bool.and_false,
    Bool.false_eq_true, or_false, State.mk.injEq, true_and]
  refine ⟨?_, rfl⟩
  funext r
  by_cases esp : r = .esp
  · subst esp
    rfl
  · by_cases result : r = .eax
    · subst result
      rfl
    · simp [failed, State.set, esp, result, reg_interrupt]

/-! ### The stubs of user programs -/

structure StubCalled (tss : Tss) (s : State) (back a b c : UInt32) (below : List UInt8) : Prop where
  stack : Holds s.mem s.esp (long back ++ (long a ++ (long b ++ (long c ++ below))))
  kernel : 56 ≤ tss.esp0.toNat ∧ tss.esp0.toNat + 4 ≤ s.esp.toNat
  fits : s.esp.toNat + 16 + below.length ≤ 4294967296

structure StubReturned (s t : State) (back result : UInt32) : Prop where
  eip : t.eip = back
  eax : t.reg .eax = result
  esp : t.esp = s.esp + 4
  kept : t.reg .ebx = s.reg .ebx ∧ t.reg .ebp = s.reg .ebp ∧ t.reg .esi = s.reg .esi ∧ t.reg .edi = s.reg .edi
  others : t.seg = s.seg ∧ t.cs = s.cs ∧ t.ss = s.ss ∧ t.eflags = s.eflags

theorem StubCalled.pushed {back a b c : UInt32} {below : List UInt8}
    (called : StubCalled tss s back a b c below) :
    Holds (s.push (long (s.reg .ebx))).mem (s.push (long (s.reg .ebx))).esp
      (long (s.reg .ebx) ++ (long back ++ (long a ++ (long b ++ (long c ++ below))))) := by
  have fits := called.fits
  have kernel := called.kernel
  exact called.stack.push (by simp; omega)

theorem StubCalled.entered {call : SystemCall} {after back a b c : UInt32} {below : List UInt8}
    (called : StubCalled tss s back a b c below) :
    let pushed := s.push (long (s.reg .ebx))
    doCallEntered call after s = { pushed with
      eip := after
      reg := Function.update (Function.update (Function.update (Function.update pushed.reg .eax call.number)
        .ebx a) .ecx b) .edx c } := by
  intro pushed
  have holds := called.pushed
  have first : load pushed.mem (pushed.esp + 8) 4 = long a := by
    rw [← List.append_assoc] at holds
    exact load_holds holds (by simp) (length_long _)
  have second : load pushed.mem (pushed.esp + 12) 4 = long b := by
    rw [← List.append_assoc, ← List.append_assoc] at holds
    exact load_holds holds (by simp) (length_long _)
  have third : load pushed.mem (pushed.esp + 16) 4 = long c := by
    rw [← List.append_assoc, ← List.append_assoc, ← List.append_assoc] at holds
    exact load_holds holds (by simp) (length_long _)
  have code : doCallEntered call after s =
      { run [.mov .eax call.number, .load .ebx 8, .load .ecx 12, .load .edx 16] pushed with eip := after } := rfl
  have ebx : Reg.ebx ≠ .esp := by decide
  have eax : Reg.eax ≠ .esp := by decide
  have ecx : Reg.ecx ≠ .esp := by decide
  rw [code]
  simp only [run, List.foldl_cons, List.foldl_nil, exec, mem_set, esp_set eax, esp_set ebx, esp_set ecx, first,
    second, third, wordOf_long]
  rfl

theorem StubCalled.fromUser {call : SystemCall} {after back a b c : UInt32} {below : List UInt8}
    (called : StubCalled tss s back a b c below) (fromUser : FromUser privileged gate s) :
    FromUser privileged gate (doCallEntered call after s) := by
  rw [called.entered]
  exact ⟨fromUser.mode, fromUser.segments, fromUser.kernel⟩

theorem StubCalled.kernel_apart {call : SystemCall} {after back a b c : UInt32} {below : List UInt8}
    (called : StubCalled tss s back a b c below) (fromUser : FromUser privileged gate s) :
    Holds (syscallEntered (interrupt gate tss (doCallEntered call after s))).mem (s.esp - 4)
      (long (s.reg .ebx) ++ (long back ++ (long a ++ (long b ++ (long c ++ below))))) := by
  have fromUser' := @StubCalled.fromUser _ _ _ _ call after _ _ _ _ _ called fromUser
  have kernel := called.kernel
  have fits := called.fits
  have esp : (s.push (long (s.reg .ebx))).esp = s.esp - 4 := by simp
  have low : (tss.esp0 - UInt32.ofNat 20 - UInt32.ofNat 36).toNat = tss.esp0.toNat - 56 := by
    have together : tss.esp0 - UInt32.ofNat 20 - UInt32.ofNat 36 = tss.esp0 - 56 := by grind
    have reaches : (56 : UInt32) ≤ tss.esp0 := UInt32.le_iff_toNat_le.mpr kernel.1
    rw [together, UInt32.toNat_sub_of_le _ _ reaches]
    rfl
  have own : (s.esp - 4).toNat = s.esp.toNat - 4 := by
    have reaches : (4 : UInt32) ≤ s.esp := UInt32.le_iff_toNat_le.mpr (by simp; omega)
    rw [UInt32.toNat_sub_of_le _ _ reaches]
    rfl
  rw [syscallEntered_stack.1, mem_saves fromUser'.mode, length_syscallFrame, length_interruptFrame fromUser']
  have holds := called.pushed
  rw [esp] at holds
  have mem : (doCallEntered call after s).mem = (s.push (long (s.reg .ebx))).mem := by rw [called.entered]
  rw [mem]
  refine holds.store ?_ ?_
  · rw [List.length_append, length_syscallFrame, length_interruptFrame fromUser', low, own]
    omega
  · rw [own]
    simp
    omega

theorem stub_calls {call : SystemCall} {after back a b c : UInt32} {below : List UInt8}
    (fromUser : FromUser privileged gate s) (called : StubCalled tss s back a b c below)
    (functions : SystemCall → State → State) {entered returned : State}
    (enters : entered = syscallEntered (interrupt gate tss (doCallEntered call after s)))
    (returns : returned = functions call entered) (keeps : Keeps 56 entered returned)
    (callee : Callee entered returned) (own : load returned.mem (s.esp - 4) 8 = load entered.mem (s.esp - 4) 8) :
    let stub := doCall (fun s => syscallWrapper privileged functions (interrupt gate tss s)) call after s
    arguments entered = (a, b, c) ∧ StubReturned s stub back (returned.reg .eax) ∧ stub.mem = returned.mem := by
  intro stub
  subst enters returns
  have fromUser' := @StubCalled.fromUser _ _ _ _ call after _ _ _ _ _ called fromUser
  have apart := @StubCalled.kernel_apart _ _ _ _ call after _ _ _ _ _ called fromUser
  have entered := @StubCalled.entered _ _ call after _ _ _ _ _ called
  have number : (doCallEntered call after s).reg .eax = call.number := by
    rw [entered]
    rfl
  have called' := syscall_calls fromUser' functions number keeps callee
  generalize functions call (syscallEntered (interrupt gate tss (doCallEntered call after s))) = returned at *
  refine ⟨?_, ?_⟩
  · rw [syscall_arguments fromUser', entered]
    rfl
  · have stack : Holds returned.mem (s.esp - 4) (long (s.reg .ebx) ++ (long back ++ [])) := by
      have before : Holds (syscallEntered (interrupt gate tss (doCallEntered call after s))).mem (s.esp - 4)
          (long (s.reg .ebx) ++ long back) := by
        rw [← List.append_assoc] at apart
        exact apart.left
      rw [Holds, List.append_nil]
      rw [Holds] at before
      simpa [own] using before
    have esp : (doCallEntered call after s).esp = s.esp - 4 := by
      rw [entered]
      simp [State.esp, State.push]
    have above : s.esp - 4 + UInt32.ofNat 4 = s.esp := UInt32.sub_add_cancel ..
    let popped : State :=
      { doCallEntered call after s with
        reg := Function.update (Function.update (Function.update (doCallEntered call after s).reg .eax
          (returned.reg .eax)) .esp s.esp) .ebx (s.reg .ebx)
        mem := returned.mem }
    have int : run [.pop (.reg .ebx)]
        (syscallWrapper privileged functions (interrupt gate tss (doCallEntered call after s))) = popped := by
      rw [called']
      generalize is : ({ doCallEntered call after s with
        reg := Function.update (doCallEntered call after s).reg .eax (returned.reg .eax)
        mem := returned.mem } : State) = result
      have level : result.esp = s.esp - 4 := by
        rw [← is]
        exact esp
      have holds : Holds result.mem result.esp (long (s.reg .ebx) ++ (long back ++ [])) := by
        rw [level, ← is]
        exact stack
      change (result.drop 4).set .ebx (wordOf (result.top 4)) = popped
      rw [top_holds holds (length_long _), wordOf_long, State.drop, level, above, ← is]
      rfl
    have top : popped.top 4 = long back := by
      have esp' : popped.esp = s.esp := rfl
      have lower := stack.right
      rw [length_long, above] at lower
      exact top_holds (esp' ▸ lower) (length_long _)
    have code : stub = { popped.drop 4 with eip := back } := by
      change ({ (run [.pop (.reg .ebx)] _).drop 4 with eip := wordOf ((run [.pop (.reg .ebx)] _).top 4) } : State) = _
      rw [int, top, wordOf_long]
    rw [code]
    refine ⟨⟨rfl, rfl, rfl, ⟨rfl, ?_⟩, ?_⟩, rfl⟩
    · change (doCallEntered call after s).reg .ebp = s.reg .ebp ∧
        (doCallEntered call after s).reg .esi = s.reg .esi ∧ (doCallEntered call after s).reg .edi = s.reg .edi
      rw [entered]
      exact ⟨rfl, rfl, rfl⟩
    · change (doCallEntered call after s).seg = s.seg ∧ (doCallEntered call after s).cs = s.cs ∧
        (doCallEntered call after s).ss = s.ss ∧ (doCallEntered call after s).eflags = s.eflags
      rw [entered]
      exact ⟨rfl, rfl, rfl, rfl⟩

def writeCalled : State where
  reg r := if r = .esp then 0x83FFF00 else 7
  seg _ := 0x2B
  cs := 0x23
  ss := 0x2B
  eip := 0x8048400
  eflags := 0x202
  mem := store (fun _ => 0) 0x83FFF00 (long 0x8048123 ++ (long 1 ++ (long 0x8049000 ++ (long 5 ++ []))))

theorem fromUser_writeCalled :
    FromUser (fun selector => decide (selector &&& 3 ≠ 3)) ⟨0x401000, 0x10⟩ writeCalled :=
  ⟨by decide, fun _ => show decide ((0x2B : UInt16) &&& 3 ≠ 3) = false by decide, by decide⟩

theorem keeps_eax (count : Nat) (value : UInt32) (s : State) : Keeps count s (s.set .eax value) :=
  ⟨esp_set (by decide), rfl, rfl, rfl⟩

theorem callee_eax (value : UInt32) (s : State) : Callee s (s.set .eax value) := by
  refine ⟨fun r listed => Function.update_of_ne ?_ .., rfl⟩
  rintro rfl
  simp at listed

theorem stub_calls_write :
    let tss : Tss := ⟨0x7FFFFC, 0x18⟩
    let functions (_ : SystemCall) (s : State) : State := s.set .eax 5
    let int (s : State) := syscallWrapper (fun selector => selector &&& 3 ≠ 3) functions (interrupt ⟨0x401000, 0x10⟩ tss s)
    StubReturned writeCalled (doCall int .write 0x8048407 writeCalled) 0x8048123 5 := by
  intro tss functions int
  have called : StubCalled tss writeCalled 0x8048123 1 0x8049000 5 [] :=
    ⟨holds_store (by simp), by decide, by decide⟩
  have own (s : State) : load (functions .write s).mem (writeCalled.esp - 4) 8 = load s.mem (writeCalled.esp - 4) 8 := rfl
  obtain ⟨-, returned, -⟩ := @stub_calls _ _ _ _ .write 0x8048407 _ _ _ _ _ fromUser_writeCalled called
    functions _ _ rfl rfl (keeps_eax 56 5 _) (callee_eax 5 _) (own _)
  have five (s : State) : (functions .write s).reg .eax = 5 := by
    change Function.update s.reg .eax 5 .eax = 5
    exact Function.update_self ..
  rw [five] at returned
  exact returned

/-- A key, a tick and a number that is no system call leave no trace in the registers, selectors and
flags of a program, the -1 in `eax` apart. -/
theorem interrupts_transparent (fromUser : FromUser privileged gate s) (keyboardHandler rtcHandler : State → State)
    (functions : SystemCall → State → State)
    (keys : Keeps 60 (keyboardEntered gate tss s) (keyboardHandler (keyboardEntered gate tss s)))
    (ticks : Keeps 52 (saves rtcSaved (interrupt gate tss s)) (rtcHandler (saves rtcSaved (interrupt gate tss s))))
    (callee : Callee (saves rtcSaved (interrupt gate tss s)) (rtcHandler (saves rtcSaved (interrupt gate tss s)))) :
    keyboardWrapper privileged keyboardHandler (interrupt gate tss s) =
        { s with mem := (keyboardHandler (keyboardEntered gate tss s)).mem } ∧
      rtcWrapper privileged rtcHandler (interrupt gate tss s) =
        { s with mem := (rtcHandler (saves rtcSaved (interrupt gate tss s))).mem } ∧
      ((s.reg .eax).toInt32 ≤ 0 ∨ 10 < (s.reg .eax).toInt32 →
        syscallWrapper privileged functions (interrupt gate tss s) =
          { s with
            reg := Function.update s.reg .eax 0xFFFFFFFF
            mem := (interrupt gate tss s).mem }) :=
  ⟨keyboard_transparent fromUser keyboardHandler keys, rtc_transparent fromUser rtcHandler ticks callee,
    fun unknown => syscall_refused fromUser functions unknown⟩

theorem interrupts_transparent_write :
    let handler (s : State) : State := s.set .eax 9
    let entered := interrupt ⟨0x401000, 0x10⟩ ⟨0x7FFFFC, 0x18⟩ writeCalled
    (keyboardWrapper (fun selector => selector &&& 3 ≠ 3) handler entered).reg .eax = 7 ∧
      (rtcWrapper (fun selector => selector &&& 3 ≠ 3) handler entered).reg .eax = 7 := by
  intro handler entered
  obtain ⟨key, tick, -⟩ := @interrupts_transparent _ _ ⟨0x7FFFFC, 0x18⟩ _ fromUser_writeCalled handler handler
    (fun _ => handler) (keeps_eax 60 9 _) (keeps_eax 52 9 _) (callee_eax 9 _)
  exact ⟨congrArg (fun s : State => s.reg .eax) key, congrArg (fun s : State => s.reg .eax) tick⟩

end G29Os
