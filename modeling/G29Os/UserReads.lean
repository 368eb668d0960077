import G29Os.DescriptorEntries
import G29Os.KernelInput
import G29Os.ReadPastEnd

/-!
What a read stores in the buffer of the program that made it, and how much of it `nbytes`
allows. A read of a directory is not told.
-/

namespace G29Os

open StepRun

/-! ### The reads of `fs.c` -/

def nameLength (image : Image) (position : UInt32) : Nat :=
  (cString 64 (image.directoryEntry position).name).length

theorem length_cString_le (size : Nat) (buffer : Nat → UInt8) : (cString size buffer).length ≤ size := by
  have shorter := (List.takeWhile_prefix (fun c => decide (c ≠ 0))
    (l := (List.range size).map buffer)).length_le
  rw [List.length_map, List.length_range] at shorter
  exact shorter

theorem asInt32_small {value : UInt32} (small : value.toNat < 2147483648) :
    asInt32 value = value.toNat := by
  change value.toBitVec.toInt = (value.toNat : Int)
  rw [BitVec.toInt_eq_toNat_cond, UInt32.toNat_toBitVec, if_pos (by omega)]

theorem asInt32_nameLength (image : Image) (position : UInt32) :
    asInt32 (UInt32.ofNat (nameLength image position)) = nameLength image position := by
  have short : nameLength image position ≤ 64 := length_cString_le 64 _
  have value : (UInt32.ofNat (nameLength image position)).toNat = nameLength image position :=
    UInt32.toNat_ofNat_of_lt' (by change _ < 2 ^ 32; omega)
  rw [asInt32_small (by omega), value]

namespace Kernel

variable {image : Image} {k next : Kernel} {process : Slot} {fd nbytes : Int}

/-- The read of `fs.c` that a call makes, if it makes one: on the table that `fs_open` saw
last, not on the caller's. -/
def fileReadOf (image : Image) (process : Slot) (fd nbytes : Int) (k : Kernel) : Option FsRead :=
  (k.readEntry process fd).map (fsRead image nbytes)

end Kernel

/-! ### Reads of a terminal, access by access -/

def Tty.ReadCall.Bounded (call : Tty.ReadCall) : Prop :=
  0 ≤ call.nbytes → (call.moved.length : Int) ≤ call.nbytes ∧
    (call.stage = .moving → (call.moved.length : Int) < call.nbytes)

theorem Tty.ReadCall.Bounded.step {tty tty' : Tty} {terminal : TerminalId} {call call' : Tty.ReadCall}
    (bounded : call.Bounded) (taken : tty.readStep terminal call = .running call' tty') :
    call'.Bounded := by
  intro nonneg
  obtain ⟨nbytes, moved, stage⟩ := call
  cases stage with
  | waiting =>
      simp only [Tty.readStep] at taken
      split at taken <;> cases taken
      · exact ⟨(bounded nonneg).1, fun moving => by cases moving⟩
      · exact ⟨(bounded nonneg).1, fun moving => by cases moving⟩
  | testing =>
      simp only [Tty.readStep] at taken
      split at taken
      · rename_i more
        cases taken
        exact ⟨(bounded nonneg).1, fun _ => more.2⟩
      · cases taken
        exact ⟨(bounded nonneg).1, fun moving => by cases moving⟩
  | moving =>
      cases taken
      have room := (bounded nonneg).2 rfl
      refine ⟨?_, fun moving => by cases moving⟩
      simp only [List.length_append, List.length_singleton] at room ⊢
      omega
  | clearing index =>
      simp only [Tty.readStep] at taken
      split at taken <;> cases taken
      · exact ⟨(bounded nonneg).1, fun moving => by cases moving⟩
      · exact ⟨(bounded nonneg).1, fun moving => by cases moving⟩
  | clearingPosition =>
      cases taken
      exact ⟨(bounded nonneg).1, fun moving => by cases moving⟩
  | clearingSize =>
      cases taken
      exact ⟨(bounded nonneg).1, fun moving => by cases moving⟩
  | releasing => cases taken

def ReadersBounded (readers : TerminalId → Option Tty.ReadCall) : Prop :=
  ∀ terminal call, readers terminal = some call → call.Bounded

theorem ReadersBounded.set {readers : TerminalId → Option Tty.ReadCall} {terminal : TerminalId}
    {reader : Option Tty.ReadCall} (bounded : ReadersBounded readers)
    (new : ∀ call, reader = some call → call.Bounded) :
    ReadersBounded (Function.update readers terminal reader) := by
  intro other call waits
  rcases eq_or_ne other terminal with same | apart
  · subst same
    rw [Function.update_self] at waits
    exact new call waits
  · rw [Function.update_of_ne apart] at waits
    exact bounded other call waits

theorem inputStep_bounded {state next : InputState} {input : InputEvent}
    (bounded : ReadersBounded state.readers) (taken : inputStep state input = some next) :
    ReadersBounded next.readers := by
  cases input with
  | key code =>
      rw [inputStep] at taken
      split at taken
      · cases taken
        exact bounded
      · cases taken
  | call nbytes =>
      rw [inputStep] at taken
      split at taken
      · cases taken
      · cases taken
        refine bounded.set fun call begun => ?_
        cases begun
        exact fun nonneg => ⟨nonneg, fun moving => by cases moving⟩
  | step =>
      obtain ⟨call, waits, rfl⟩ := Option.map_eq_some_iff.mp taken
      cases outcome : state.tty.readStep state.current call with
      | running call' tty =>
          rw [InputState.advanced_running outcome]
          refine bounded.set fun again running => ?_
          cases running
          exact (bounded _ call waits).step outcome
      | finished bytes tty =>
          rw [InputState.advanced_finished outcome]
          exact bounded.set fun _ gone => by cases gone
  | write bytes =>
      rw [inputStep] at taken
      split at taken <;> cases taken
      exact bounded
  | print bytes =>
      rw [inputStep] at taken
      split at taken <;> cases taken
      exact bounded

namespace Kernel

variable {image : Image} {k next : Kernel} {process : Slot} {fd nbytes : Int}

def inputs (k : Kernel) : InputState where
  tty := k.tty
  readers terminal := (k.readers terminal).map UserRead.call
  entered _ := []
  returned _ := []
  leftFlag _ := false

theorem step_bounded {event : Event} (bounded : ReadersBounded k.inputs.readers)
    (done : k.step image event = some next) : ReadersBounded next.inputs.readers := by
  obtain ⟨inputs, state, path, shows⟩ := step_followed done k.inputs ⟨rfl, fun _ => rfl⟩
  have kept := path.preserves (fun state => ReadersBounded state.readers)
    (fun _ _ _ _ bounded taken => inputStep_bounded bounded taken) bounded
  rwa [show state.readers = next.inputs.readers from funext shows.readers] at kept

theorem Booted.readers (booted : Booted image k) : k.readers = fun _ => none := by
  obtain ⟨raw, stale2, stale3, fileHeader, statics, done⟩ := booted
  obtain ⟨middle, second, third⟩ := initTerminals_built done
  obtain ⟨⟨mem, rfl⟩, -⟩ := storeBytes_stored third
  obtain ⟨⟨mem', rfl⟩, -⟩ := storeBytes_stored second
  exact funext statics.noReader

theorem readers_bounded (reached : Reachable (step image) (Booted image) k) :
    ReadersBounded k.inputs.readers := by
  refine reached.invariant (fun k => ReadersBounded k.inputs.readers) ?_
    fun _ _ _ bounded done => step_bounded bounded done
  intro k booted terminal call waits
  simp only [inputs, booted.readers, Option.map_none] at waits
  cases waits

theorem readEntry_eq {entry : Fd} :
    k.readEntry process fd = some entry ↔
      fd ≠ 1 ∧ ∃ index owner, (k.pcbs process).fileArray.inUse 0 fd = some index ∧
        (k.descriptor process index).fopsPtr = some .file ∧ k.fsPcb = some owner ∧
          k.descriptor owner index = entry := by
  rw [readEntry]
  split
  · rename_i stdout
    simp [stdout]
  · rename_i other
    simp only [Option.bind_eq_some_iff, Option.ite_none_right_eq_some, Option.map_eq_some_iff]
    exact ⟨fun ⟨index, used, file, owner, last, reads⟩ => ⟨other, index, owner, used, file, last, reads⟩,
      fun ⟨_, index, owner, used, file, last, reads⟩ => ⟨index, used, file, owner, last, reads⟩⟩

theorem fileReadOf_eq {read : FsRead} :
    k.fileReadOf image process fd nbytes = some read ↔
      fd ≠ 1 ∧ ∃ index owner, (k.pcbs process).fileArray.inUse 0 fd = some index ∧
        (k.descriptor process index).fopsPtr = some .file ∧ k.fsPcb = some owner ∧
          fsRead image nbytes (k.descriptor owner index) = read := by
  rw [fileReadOf, Option.map_eq_some_iff]
  constructor
  · rintro ⟨entry, finds, rfl⟩
    obtain ⟨other, index, owner, used, file, last, rfl⟩ := readEntry_eq.mp finds
    exact ⟨other, index, owner, used, file, last, rfl⟩
  · rintro ⟨other, index, owner, used, file, last, rfl⟩
    exact ⟨_, readEntry_eq.mpr ⟨other, index, owner, used, file, last, rfl⟩, rfl⟩

end Kernel

end G29Os
