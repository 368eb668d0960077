import G29Os.InterruptTables
import G29Os.Wrappers

/-!
The tables that `x86_desc.S` and `entry` set up, as the words that `lgdt` and `lidt` load.
-/

namespace G29Os

open BitFields InterruptTables

/-! ### `x86_desc.h` -/

def kernelCs : Nat := 0x10

def kernelDsSelector : Nat := 0x18

def userCs : UInt16 := 0x23

def userDs : UInt16 := 0x2B

structure SegDesc where
  segLim1500 : Nat
  base1500 : Nat
  base2316 : Nat
  type : Nat
  sys : Nat
  dpl : Nat
  present : Bool
  segLim1916 : Nat
  avail : Bool
  reserved : Bool
  opsize : Bool
  granularity : Bool
  base3124 : Nat

def SegDesc.fields (desc : SegDesc) : List Field :=
  [⟨16, desc.segLim1500⟩, ⟨16, desc.base1500⟩, ⟨8, desc.base2316⟩, ⟨4, desc.type⟩, ⟨1, desc.sys⟩, ⟨2, desc.dpl⟩,
    flag desc.present, ⟨4, desc.segLim1916⟩, flag desc.avail, flag desc.reserved, flag desc.opsize,
    flag desc.granularity, ⟨8, desc.base3124⟩]

def SegDesc.word (desc : SegDesc) : Nat := pack desc.fields

/-- `SET_LDT_PARAMS`, and `SET_TSS_PARAMS`, which does the same. -/
def setParams (addr lim : UInt32) (desc : SegDesc) : SegDesc :=
  { desc with
    base3124 := ((addr &&& 0xFF000000) >>> 24).toNat
    base2316 := ((addr &&& 0x00FF0000) >>> 16).toNat
    base1500 := (addr &&& 0x0000FFFF).toNat
    segLim1916 := ((lim &&& 0x000F0000) >>> 16).toNat
    segLim1500 := (lim &&& 0x0000FFFF).toNat }

structure IdtDesc where
  offset1500 : Nat
  segSelector : Nat
  reserved4 : Nat
  reserved3 : Bool
  reserved2 : Bool
  reserved1 : Bool
  size : Bool
  reserved0 : Bool
  dpl : Nat
  present : Bool
  offset3116 : Nat
  deriving DecidableEq

def IdtDesc.fields (desc : IdtDesc) : List Field :=
  [⟨16, desc.offset1500⟩, ⟨16, desc.segSelector⟩, ⟨8, desc.reserved4⟩, flag desc.reserved3, flag desc.reserved2,
    flag desc.reserved1, flag desc.size, flag desc.reserved0, ⟨2, desc.dpl⟩, flag desc.present,
    ⟨16, desc.offset3116⟩]

def IdtDesc.word (desc : IdtDesc) : Nat := pack desc.fields

def setIdtEntry (handler : UInt32) (desc : IdtDesc) : IdtDesc :=
  { desc with
    offset3116 := ((handler &&& 0xFFFF0000) >>> 16).toNat
    offset1500 := (handler &&& 0xFFFF).toNat }

/-! ### `entry` -/

inductive Handler
  | divideError | reserved | nmiInterrupt | breakpoint | overflow | boundRangeExceeded | invalidOpcode
  | deviceNotAvailable | doubleFault | coprocessorSegmentOverrun | invalidTss | segmentNotPresent
  | stackSegmentFault | generalProtection | pageFault | mathFault | alignmentCheck | machineCheck
  | simdFloatingException | keyboardWrapper | rtcWrapper | syscallWrapper
  deriving DecidableEq

def theLdtDesc : SegDesc where
  segLim1500 := 0
  base1500 := 0
  base2316 := 0
  type := 0x2
  sys := 0
  dpl := 0
  present := true
  segLim1916 := 0
  avail := false
  reserved := false
  opsize := true
  granularity := false
  base3124 := 0

def theTssDesc : SegDesc where
  segLim1500 := 104
  base1500 := 0
  base2316 := 0
  type := 0x9
  sys := 0
  dpl := 0
  present := true
  segLim1916 := 0
  avail := false
  reserved := false
  opsize := false
  granularity := false
  base3124 := 0

def gdt (ldt tss : UInt32) : List Nat :=
  [0, 0, 0x00CF9A000000FFFF, 0x00CF92000000FFFF, 0x00CFFA000000FFFF, 0x00CFF2000000FFFF,
    (setParams tss 103 theTssDesc).word, (setParams ldt 31 theLdtDesc).word]

/-- The local `interrupt`. `SET_IDT_ENTRY` sets the offset in every copy. -/
def interruptDesc : IdtDesc where
  offset1500 := 0
  segSelector := kernelCs
  reserved4 := 0
  reserved3 := false
  reserved2 := true
  reserved1 := true
  size := true
  reserved0 := false
  dpl := 0
  present := true
  offset3116 := 0

def keyboardIdt : Nat := 0x21

def rtcIdt : Nat := 0x28

def syscallIdt : Nat := 0x80

/-- The assignments to `idt`, in their order. At 9 the copy for the coprocessor is not the one that
is assigned. -/
def assignments : List (Nat × IdtDesc × Handler) :=
  [(0, interruptDesc, .divideError), (1, interruptDesc, .reserved), (2, interruptDesc, .nmiInterrupt),
    (3, interruptDesc, .breakpoint), (4, interruptDesc, .overflow), (5, interruptDesc, .boundRangeExceeded),
    (6, interruptDesc, .invalidOpcode), (7, interruptDesc, .deviceNotAvailable), (8, interruptDesc, .doubleFault),
    (9, interruptDesc, .divideError), (10, interruptDesc, .invalidTss),
    (11, { interruptDesc with present := false }, .segmentNotPresent), (12, interruptDesc, .stackSegmentFault),
    (13, interruptDesc, .generalProtection), (14, interruptDesc, .pageFault), (16, interruptDesc, .mathFault),
    (17, interruptDesc, .alignmentCheck), (18, interruptDesc, .machineCheck), (19, interruptDesc, .simdFloatingException),
    (keyboardIdt, interruptDesc, .keyboardWrapper), (rtcIdt, interruptDesc, .rtcWrapper),
    (syscallIdt, { interruptDesc with dpl := 3 }, .syscallWrapper)]

def idt (address : Handler → UInt32) : List Nat :=
  assignments.foldl
    (fun idt entry => idt.set entry.1 (setIdtEntry (address entry.2.2) entry.2.1).word)
    (List.replicate 256 0)

def bootTables (address : Handler → UInt32) (ldt tss : UInt32) : Tables where
  segments := gdt ldt tss
  gates := idt address
  stack := kernelDsSelector

/-! ### Parameters and handlers come back -/

section Words

variable {addr lim handler : UInt32} {seg : SegDesc} {desc : IdtDesc}

theorem mask_low (value : UInt32) : (value &&& 0x0000FFFF).toNat = extract 0 16 value.toNat := by
  have masked := @extract_masked value 0x0000FFFF 0 16 (by decide) rfl
  rwa [show UInt32.ofNat 0 = 0 from rfl, UInt32.shiftRight_zero] at masked

theorem base_setParams : base (setParams addr lim seg).word = addr.toNat := by
  have middle : (setParams addr lim seg).base2316 = extract 16 8 addr.toNat :=
    @extract_masked addr 0x00FF0000 16 8 (by decide) rfl
  have high : (setParams addr lim seg).base3124 = extract 24 8 addr.toNat :=
    @extract_masked addr 0xFF000000 24 8 (by decide) rfl
  have one : extract 16 16 (setParams addr lim seg).word = extract 0 16 addr.toNat :=
    (extract_field 1 rfl rfl (mask_low addr ▸ extract_lt ..)).trans (mask_low addr)
  have two : extract 32 8 (setParams addr lim seg).word = extract 16 8 addr.toNat :=
    (extract_field 2 rfl rfl (middle ▸ extract_lt ..)).trans middle
  have three : extract 56 8 (setParams addr lim seg).word = extract 24 8 addr.toNat :=
    (extract_field 12 rfl rfl (high ▸ extract_lt ..)).trans high
  have bound := addr.toNat_lt
  rw [base, one, two, three]
  simp only [extract]
  omega

theorem limit_setParams (fits : lim.toNat < 2 ^ 20) : limit (setParams addr lim seg).word = lim.toNat := by
  have high : (setParams addr lim seg).segLim1916 = extract 16 4 lim.toNat :=
    @extract_masked lim 0x000F0000 16 4 (by decide) rfl
  have one : extract 0 16 (setParams addr lim seg).word = extract 0 16 lim.toNat :=
    (extract_field 0 rfl rfl (mask_low lim ▸ extract_lt ..)).trans (mask_low lim)
  have two : extract 48 4 (setParams addr lim seg).word = extract 16 4 lim.toNat :=
    (extract_field 7 rfl rfl (high ▸ extract_lt ..)).trans high
  rw [limit, one, two]
  simp only [extract]
  omega

theorem gateOffset_setIdtEntry : gateOffset (setIdtEntry handler desc).word = handler.toNat := by
  have high : (setIdtEntry handler desc).offset3116 = extract 16 16 handler.toNat :=
    @extract_masked handler 0xFFFF0000 16 16 (by decide) rfl
  have one : extract 0 16 (setIdtEntry handler desc).word = extract 0 16 handler.toNat :=
    (extract_field 0 rfl rfl (mask_low handler ▸ extract_lt ..)).trans (mask_low handler)
  have two : extract 48 16 (setIdtEntry handler desc).word = extract 16 16 handler.toNat :=
    (extract_field 10 rfl rfl (high ▸ extract_lt ..)).trans high
  have bound := handler.toNat_lt
  rw [gateOffset, one, two]
  simp only [extract]
  omega

theorem copied : ∀ entry ∈ assignments,
    entry.2.1 = { interruptDesc with dpl := entry.2.1.dpl, present := entry.2.1.present } ∧ entry.2.1.dpl < 4 := by
  decide

theorem gate_copied (copy : desc = { interruptDesc with dpl := desc.dpl, present := desc.present })
    (low : desc.dpl < 4) :
    let gate := (setIdtEntry handler desc).word
    gateType gate = interruptGate ∧ gateSelector gate = kernelCs ∧ level gate = desc.dpl ∧
      present gate = desc.present := by
  rw [copy]
  generalize desc.dpl = dpl, desc.present = there at low
  let gate := setIdtEntry handler { interruptDesc with dpl := dpl, present := there }
  have kind : extract 40 5 gate.word = interruptGate := by
    have run := @extract_pack (gate.fields.take 3) ((gate.fields.drop 3).take 5) (gate.fields.drop 8)
    exact run
  exact ⟨kind, extract_field 1 rfl rfl (by decide), extract_field 8 rfl rfl low, bit_flag 9 rfl rfl⟩

end Words

/-! ### Interrupts from `entry` on -/

section Delivery

variable {address : Handler → UInt32} {ldt tss : UInt32} {source : Source} {software : Bool}
  {current vector : Nat} {desc : IdtDesc} {handler : Handler}

def assigned (vector : Nat) : Option (IdtDesc × Handler) := assignments.reverse.lookup vector

theorem mem_assigned (found : assigned vector = some (desc, handler)) : (vector, desc, handler) ∈ assignments := by
  obtain ⟨before, after, split, -⟩ := List.lookup_eq_some_iff.mp found
  rw [← List.mem_reverse, split]
  simp

def kernelEntry (address : Handler → UInt32) (handler : Handler) : Destination where
  offset := (address handler).toNat
  selector := kernelCs
  level := 0
  masked := true

theorem gate_boot (inside : vector < 256) :
    (bootTables address ldt tss).gates[vector]? =
      some ((assigned vector).elim 0 fun entry => (setIdtEntry (address entry.2) entry.1).word) := by
  have room : vector < (List.replicate 256 0).length := by rwa [List.length_replicate]
  have found := getElem_assigned (fun entry : IdtDesc × Handler => (setIdtEntry (address entry.2) entry.1).word)
    assignments room
  rw [bootTables, idt, assigned, found]
  cases assignments.reverse.lookup vector with
  | none => exact List.getElem?_replicate_of_lt inside
  | some entry => rfl

def reached (software : Bool) (current vector : Nat) : Except Fault Handler :=
  match assigned vector with
  | none => .error .protection
  | some (desc, handler) =>
      if software && decide (desc.dpl < current) then .error .protection
      else if desc.present then .ok handler
      else .error .notPresent

theorem enterSegment_boot (copy : desc = { interruptDesc with dpl := desc.dpl, present := desc.present })
    (low : desc.dpl < 4) :
    enterSegment (bootTables address ldt tss) current (setIdtEntry (address handler) desc).word =
      .ok (kernelEntry address handler) := by
  obtain ⟨kind, selector, -, -⟩ := @gate_copied (address handler) desc copy low
  have code : segment (bootTables address ldt tss) kernelCs = some 0x00CF9A000000FFFF := rfl
  have data : segment (bootTables address ldt tss) kernelDsSelector = some 0x00CF92000000FFFF := rfl
  have selected : (bootTables address ldt tss).stack = kernelDsSelector := rfl
  have stack : stackAllowed (bootTables address ldt tss) = true := by
    simp only [stackAllowed, selected, data]
    decide
  rw [enterSegment, selector, code]
  have flags : isCode 0x00CF9A000000FFFF = true ∧ level 0x00CF9A000000FFFF = 0 ∧ present 0x00CF9A000000FFFF = true ∧
      isConforming 0x00CF9A000000FFFF = false := by decide
  simp [flags, stack, gateOffset_setIdtEntry, kind, kernelEntry]

theorem attempt_boot (inside : vector < 256) :
    attempt (bootTables address ldt tss) software current vector =
      (reached software current vector).map (kernelEntry address) := by
  have listed := @gate_boot address ldt tss vector inside
  cases found : assigned vector with
  | none =>
      rw [found] at listed
      rw [attempt_empty listed, reached, found]
      rfl
  | some entry =>
      obtain ⟨desc, handler⟩ := entry
      rw [found] at listed
      obtain ⟨copy, low⟩ := copied _ (mem_assigned found)
      obtain ⟨kind, -, ring, there⟩ := @gate_copied (address handler) desc copy low
      have entered := @enterSegment_boot address ldt tss current desc handler copy low
      rw [reached, found]
      dsimp only [Option.elim] at listed ⊢
      by_cases refused : software = true ∧ desc.dpl < current
      · obtain ⟨int, below⟩ := refused
        subst int
        rw [attempt_refused listed (ring.symm ▸ below), decide_eq_true below]
        rfl
      · have allowed : software = false ∨ current ≤ level (setIdtEntry (address handler) desc).word := by
          rw [ring]
          cases software
          · exact Or.inl rfl
          · exact Or.inr (Nat.le_of_not_lt fun below => refused ⟨rfl, below⟩)
        have passed : (software && decide (desc.dpl < current)) = false := by
          rw [Bool.and_eq_false_imp]
          intro int
          exact decide_eq_false fun below => refused ⟨int, below⟩
        rw [passed, if_neg Bool.false_ne_true]
        cases here : desc.present
        · rw [attempt_absent listed kind allowed (there.trans here)]
          rfl
        · rw [attempt_gate listed kind allowed (there.trans here), entered]
          rfl

theorem reached_assigned : ∀ entry ∈ assignments,
    reached false current entry.1 = if entry.2.1.present then .ok entry.2.2 else .error .notPresent := by
  have found : ∀ entry ∈ assignments, assigned entry.1 = some entry.2 := by decide
  intro entry listed
  rw [reached, found entry listed]
  rfl

theorem reached_listed {handler : Handler} (ok : reached software current vector = .ok handler) :
    ∃ desc, (vector, desc, handler) ∈ assignments ∧ desc.present = true := by
  rw [reached] at ok
  split at ok
  · cases ok
  · rename_i desc own found
    have member := mem_assigned found
    split at ok
    · cases ok
    · split at ok
      · rename_i here
        cases ok
        exact ⟨desc, member, here⟩
      · cases ok

theorem doubleFault_boot : doubleFault (bootTables address ldt tss) current =
    .entered 8 (kernelEntry address .doubleFault) := by
  have own : reached false current 8 = .ok .doubleFault :=
    reached_assigned (8, interruptDesc, .doubleFault) (by decide)
  rw [InterruptTables.doubleFault, attempt_boot (by decide), own]
  rfl

theorem fault_boot (which : Fault) (possible : which ≠ .invalidStack) :
    fault (bootTables address ldt tss) current which =
      if which = .protection then .entered 13 (kernelEntry address .generalProtection)
      else .entered 8 (kernelEntry address .doubleFault) := by
  cases which with
  | invalidStack => exact absurd rfl possible
  | notPresent =>
      have own : reached false current 11 = .error .notPresent :=
        reached_assigned (11, { interruptDesc with present := false }, .segmentNotPresent) (by decide)
      rw [fault, Fault.vector, attempt_boot (by decide), own]
      exact doubleFault_boot
  | protection =>
      have own : reached false current 13 = .ok .generalProtection :=
        reached_assigned (13, interruptDesc, .generalProtection) (by decide)
      rw [fault, Fault.vector, attempt_boot (by decide), own]
      rfl

theorem contributory_assigned {vector : Nat} (own : contributory vector = true) :
    ∃ entry ∈ assignments, entry.1 = vector := by
  have all : ∀ vector < 15, contributory vector = true → ∃ entry ∈ assignments, entry.1 = vector := by decide
  have low : vector < 15 := by
    have cases_ := of_decide_eq_true own
    omega
  exact all vector low own

theorem deliver_ok {handler : Handler} (inside : vector < 256)
    (ok : reached (decide (source = .software)) current vector = .ok handler) :
    deliver (bootTables address ldt tss) source current vector = .entered vector (kernelEntry address handler) := by
  rw [deliver, attempt_boot inside, ok]
  rfl

theorem deliver_error {which : Fault} (inside : vector < 256)
    (error : reached (decide (source = .software)) current vector = .error which) :
    deliver (bootTables address ldt tss) source current vector =
      if which = .protection then .entered 13 (kernelEntry address .generalProtection)
      else .entered 8 (kernelEntry address .doubleFault) := by
  have possible : which ≠ .invalidStack := by
    rintro rfl
    rw [reached] at error
    split at error
    · cases error
    · split at error
      · cases error
      · split at error <;> cases error
  have raised : source = .exception → reached false current vector = .error which := by
    rintro rfl
    exact error
  have listed (exception : source = .exception) {entry : Nat × IdtDesc × Handler} (member : entry ∈ assignments)
      (own : entry.1 = vector) : entry.2.1.present = false ∧ which = .notPresent := by
    have found := @reached_assigned current entry member
    rw [own, raised exception] at found
    cases here : entry.2.1.present with
    | true =>
        rw [here] at found
        cases found
    | false =>
        rw [here] at found
        cases found
        exact ⟨rfl, rfl⟩
  rw [deliver, attempt_boot inside, error]
  change (if source = .exception ∧ vector = 8 then Outcome.shutdown
    else if source = .exception ∧ contributory vector then InterruptTables.doubleFault _ current
    else fault _ current which) = _
  by_cases double : source = .exception ∧ vector = 8
  · obtain ⟨exception, rfl⟩ := double
    exact absurd (@listed exception (8, interruptDesc, .doubleFault) (by decide) rfl).1 (by decide)
  · rw [if_neg double]
    by_cases again : source = .exception ∧ contributory vector
    · obtain ⟨entry, member, own⟩ := contributory_assigned again.2
      obtain ⟨-, rfl⟩ := listed again.1 member own
      rw [if_pos again, doubleFault_boot, if_neg (by decide)]
    · rw [if_neg again, fault_boot which possible]

/-- No interrupt stops the processor, and all run in the kernel. A program reaches the system calls
and nothing else with `int`. -/
theorem interrupts_served (inside : vector < 256) :
    (∃ served handler,
      deliver (bootTables address ldt tss) source current vector = .entered served (kernelEntry address handler) ∧
        handler ≠ .segmentNotPresent ∧ handler ≠ .coprocessorSegmentOverrun) ∧
    (source ≠ .software → ∀ desc handler, (vector, desc, handler) ∈ assignments →
      deliver (bootTables address ldt tss) source current vector =
        if desc.present then .entered vector (kernelEntry address handler)
        else .entered 8 (kernelEntry address .doubleFault)) ∧
    ((∀ entry ∈ assignments, entry.1 ≠ vector) →
      deliver (bootTables address ldt tss) source current vector =
        .entered 13 (kernelEntry address .generalProtection)) ∧
    deliver (bootTables address ldt tss) .software 3 vector =
      if vector = syscallIdt then .entered vector (kernelEntry address .syscallWrapper)
      else .entered 13 (kernelEntry address .generalProtection) := by
  refine ⟨?_, ?_, ?_, ?_⟩
  · cases outcome : reached (decide (source = .software)) current vector with
    | ok handler =>
        refine ⟨vector, handler, deliver_ok inside outcome, ?_⟩
        obtain ⟨desc, listed, here⟩ := reached_listed outcome
        have unused : ∀ entry ∈ assignments, entry.2.1.present = true →
            entry.2.2 ≠ .segmentNotPresent ∧ entry.2.2 ≠ .coprocessorSegmentOverrun := by decide
        exact unused _ listed here
    | error which =>
        rw [deliver_error inside outcome]
        split
        · exact ⟨13, .generalProtection, rfl, by decide, by decide⟩
        · exact ⟨8, .doubleFault, rfl, by decide, by decide⟩
  · intro hardware desc handler listed
    have found := @reached_assigned current _ listed
    have source_eq : decide (source = .software) = false := decide_eq_false hardware
    rw [← source_eq] at found
    cases here : desc.present with
    | true =>
        rw [here] at found
        exact deliver_ok inside found
    | false =>
        rw [here] at found
        rw [deliver_error inside found]
        rfl
  · intro unassigned
    have empty : reached (decide (source = .software)) current vector = .error .protection := by
      rw [reached]
      split
      · rfl
      · rename_i desc handler found
        exact absurd rfl (unassigned _ (mem_assigned found))
    exact deliver_error inside empty
  · by_cases call : vector = syscallIdt
    · subst call
      exact deliver_ok inside rfl
    · rw [if_neg call]
      have refused : reached true 3 vector = .error .protection := by
        rw [reached]
        split
        · rfl
        · rename_i desc handler found
          have others : ∀ entry ∈ assignments, entry.1 ≠ syscallIdt → entry.2.1.dpl < 3 := by decide
          rw [decide_eq_true (others _ (mem_assigned found) call)]
          rfl
      exact @deliver_error address ldt tss .software 3 vector _ inside refused

theorem interrupts_served_both :
    deliver (bootTables (fun _ => 0x401000) 0x402000 0x403000) .device 3 0x27 =
        .entered 13 (kernelEntry (fun _ => 0x401000) .generalProtection) ∧
      deliver (bootTables (fun _ => 0x401000) 0x402000 0x403000) .software 3 0x80 =
        .entered 0x80 (kernelEntry (fun _ => 0x401000) .syscallWrapper) :=
  ⟨(interrupts_served (by decide)).2.2.1 (by decide),
    (@interrupts_served (fun _ => 0x401000) 0x402000 0x403000 .device 3 0x80 (by decide)).2.2.2⟩

/-! ### Selectors of user programs -/

theorem fromUser_boot {s : StackCode.State} (cs : s.cs = userCs) (segments : ∀ g, s.seg g = userDs) :
    FromUser (fun selector => privileged (bootTables address ldt tss) selector.toNat)
      ⟨address handler, UInt16.ofNat kernelCs⟩ s := by
  have data : segment (bootTables address ldt tss) userDs.toNat = some 0x00CFF2000000FFFF := rfl
  refine ⟨by rw [cs]; decide, fun g => ?_, show StackCode.user (UInt16.ofNat kernelCs) = false by decide⟩
  simp only [segments g, privileged, data]
  decide

/-- What `lldt` and `ltr` find. -/
theorem descriptors_boot (tables : Tables) (booted : tables = bootTables address ldt tss) :
    (∃ descriptor, segment tables 0x30 = some descriptor ∧ base descriptor = tss.toNat ∧ limit descriptor = 103) ∧
    ∃ descriptor, segment tables 0x38 = some descriptor ∧ base descriptor = ldt.toNat ∧ limit descriptor = 31 := by
  subst booted
  exact ⟨⟨_, rfl, base_setParams, limit_setParams (by decide)⟩, _, rfl, base_setParams, limit_setParams (by decide)⟩

end Delivery

end G29Os
