import G29Os.PrintFormat
import G29Os.ShellProgram

/-!
`counter`, which asks how far to count and prints the numerals up to there. `rounds` bounds the
numerals that are followed.
-/

namespace G29Os

open ByteRange CallTree CallTree.Client Numerals

def menu : List UInt8 := text "Enter the Test Number: (0): 100, (1): 10000, (2): 100000\n"

/-- The `switch` of `counter`, which has no default. -/
def maxOf (choice : UInt8) : UInt32 :=
  if choice = 48 then 100 else if choice = 49 then 10000 else if choice = 50 then 100000 else 0

/-- The `for` loop, whose `i` and `buf` are the state. -/
def counterRound (max : UInt32) (state : UInt32 × (Nat → UInt8)) :
    Conversation ((UInt32 × (Nat → UInt8)) ⊕ Int) := do
  if ¬state.1 < max then return .inr 0
  let buf := itoa (state.1 + 1) state.2 10
  Conversation.fdputs (cString bufSize buf)
  Conversation.fdputs (text "\n")
  return .inl (state.1 + 1, buf)

def counter (rounds : Nat) (buf : Nat → UInt8) : Conversation (Option Int) := do
  Conversation.fdputs menu
  let read ← ask (.call (.read 0 (bufSize - 1)))
  let buf := storedAt buf 0 read.bytes
  if read.ret = -1 then
    Conversation.fdputs (text "Can't read the number from keyboard.\n")
    return some 3
  let buf := Function.update buf read.ret.toNat 0
  if strlen bufSize buf > 2 ∨ strlen bufSize buf = 1 ∧ (buf 0 < 48 ∨ buf 0 > 50) then
    Conversation.fdputs (text "Wrong Choice!\n")
    return some 0
  loop (counterRound (maxOf (buf 0))) rounds (0, buf)

/-! ### What passes between `counter` and its user -/

def numbered (count : Nat) : List Exchange :=
  (List.range count).flatMap fun i =>
    [Exchange.said (numeral digitChar 10 (i + 1)), Exchange.said (text "\n")]

/-- A line of one character has to be a choice. One of two characters is taken for its first. -/
def Declines (typed : List UInt8) : Prop :=
  typed.length > 2 ∨ typed.length = 1 ∧ (typed.headD 0 < 48 ∨ typed.headD 0 > 50)

instance (typed : List UInt8) : Decidable (Declines typed) := inferInstanceAs (Decidable (_ ∨ _))

def counterAnswer (line : List UInt8) : List Exchange :=
  if Declines (Kernel.commandText line) then [Exchange.said (text "Wrong Choice!\n")]
  else numbered (maxOf ((Kernel.commandText line).headD 0)).toNat

def Counted (status : Option Int) (log : List Exchange) : Prop :=
  ∃ line : List UInt8, line.length < lineBuffer ∧ status = some 0 ∧
    log = [Exchange.said menu, Exchange.heard line] ++ counterAnswer line

def Counting (base : List Exchange) (max i : UInt32) (log : List Exchange) : Prop :=
  i.toNat ≤ max.toNat ∧ log = base ++ numbered i.toNat

theorem maxOf_le (choice : UInt8) : (maxOf choice).toNat ≤ 100000 := by
  rw [maxOf]
  split
  · decide
  · split
    · decide
    · split
      · decide
      · decide

theorem numbered_succ (count : Nat) :
    numbered (count + 1) =
      numbered count ++ [Exchange.said (numeral digitChar 10 (count + 1)), Exchange.said (text "\n")] := by
  rw [numbered, List.range_succ, List.flatMap_append, List.flatMap_singleton, numbered]

theorem IsCString.first {buffer : Nat → UInt8} {string : List UInt8} (known : IsCString buffer string) :
    buffer 0 = string.headD 0 := by
  cases string with
  | nil => exact known.ends
  | cons c rest => exact known.bytes 0 (Nat.succ_pos _)

section Ensures

variable {volume : Volume} {base : List Exchange} {max : UInt32}

theorem counterRound_ensures {state : UInt32 × (Nat → UInt8)} {log : List Exchange}
    (most : max.toNat ≤ 100000)
    (counting : Counting base max state.1 log) :
    Ensures volume.Replies (fun result later => result.elim
      (fun next => Counting base max next.1 later ∧ max.toNat - next.1.toNat < max.toNat - state.1.toNat)
      fun status => status = 0 ∧ later = base ++ numbered max.toNat) (counterRound max state) log := by
  obtain ⟨within, rfl⟩ := counting
  rw [counterRound]
  by_cases more : state.1 < max
  · have before : state.1.toNat < max.toNat := more
    have next : (state.1 + 1).toNat = state.1.toNat + 1 := by
      rw [UInt32.toNat_add]
      exact Nat.mod_eq_of_lt (by change state.1.toNat + 1 < 4294967296; omega)
    have string := @itoa_string (state.1 + 1) 10 state.2 (by decide) (by decide)
    have length := length_decimal (state.1 + 1)
    have shown : cString bufSize (itoa (state.1 + 1) state.2 10) = numeral digitChar 10 (state.1.toNat + 1) := by
      rw [← next]
      exact string.cString_eq (Nat.le_trans length (by decide))
    rw [if_neg (not_not.mpr more)]
    simp only [bind_eq, shown]
    refine Conversation.fdputs_ensures (Conversation.fdputs_ensures ?_)
    refine ⟨⟨by dsimp only; omega, ?_⟩, by dsimp only; omega⟩
    simp only [next, numbered_succ, List.append_assoc, List.cons_append, List.nil_append]
  · have reached : max.toNat ≤ state.1.toNat := Nat.not_lt.mp more
    rw [if_pos more]
    have same : state.1.toNat = max.toNat := by omega
    exact ⟨rfl, same ▸ rfl⟩

theorem counter_ensures (volume : Volume) (buf : Nat → UInt8) {rounds : Nat} (enough : 100000 < rounds) :
    Ensures volume.Replies Counted (counter rounds buf) [] := by
  simp only [counter, bind_eq, ask_bind]
  refine Conversation.fdputs_ensures ?_
  rw [ensures_heard (by decide)]
  intro bytes asked short
  have read : ¬(bytes.length : Int) = -1 := by omega
  simp only [read, if_false, Int.toNat_natCast]
  have string := @isCString_cut buf bytes bytes.length (Nat.le_refl _)
  rw [List.take_length] at string
  have small : (Kernel.commandText bytes).length ≤ bufSize := by
    have most := Kernel.length_commandText bytes
    simp only [lineBuffer] at short
    simp only [bufSize]
    omega
  generalize Function.update (storedAt buf 0 bytes) bytes.length 0 = buf at string
  have answer : ∀ status log, status = some (0 : Int) →
      log = [Exchange.said menu, Exchange.heard bytes] ++ counterAnswer bytes → Counted status log :=
    fun status log is same => ⟨bytes, short, is, same⟩
  rw [strlen_eq string small, string.first]
  change Ensures _ _ (if Declines (Kernel.commandText bytes) then _ else _) _
  by_cases declines : Declines (Kernel.commandText bytes)
  · rw [if_pos declines]
    refine Conversation.fdputs_ensures ?_
    refine answer _ _ rfl ?_
    rw [counterAnswer, if_pos declines]
    rfl
  · rw [if_neg declines]
    rw [counterAnswer, if_neg declines] at answer
    generalize (Kernel.commandText bytes).headD 0 = choice at answer
    have most := maxOf_le choice
    have counting : Rounds volume.Replies (fun status later => status = 0 ∧
          later = [Exchange.said menu, Exchange.heard bytes] ++ numbered (maxOf choice).toNat)
        (counterRound (maxOf choice))
        (fun state later => Counting [Exchange.said menu, Exchange.heard bytes] (maxOf choice) state.1 later)
        (fun state _ => (maxOf choice).toNat - state.1.toNat) :=
      ⟨fun state log counting => counterRound_ensures most counting⟩
    have start : Counting [Exchange.said menu, Exchange.heard bytes] (maxOf choice) (0, buf).1
        [Exchange.said menu, Exchange.heard bytes] := ⟨Nat.zero_le _, rfl⟩
    refine (counting.loop start ?_).mono ?_
    · dsimp only
      omega
    · rintro status later ⟨value, rfl, rfl, same⟩
      exact answer _ _ rfl same

end Ensures

/-- Whatever is typed and whatever goes on meanwhile, `counter` prints the numerals from 1 to what
the line chooses, in order and with nothing between them, or that the choice is wrong. -/
theorem counter_delivers {image : Image} {k : Kernel} {process : Slot} {rounds : Nat}
    (formatted : image.Formatted) (loads : image.Loads) (enough : 100000 < rounds) (buf : Nat → UInt8)
    (reached : StepRun.Reachable (Kernel.step image) (Kernel.PoweredOn image) k)
    (running : k.running = some process) :
    Delivers (Asks image process) (Meanwhile image process) (Overheard.Ready process) (counter rounds buf)
      (fun status state => Counted status state.log) ⟨k, []⟩ :=
  dialogue_delivers formatted loads (counter_ensures (Image.volume formatted) buf enough) reached running

theorem counter_delivers_text :
    ∃ k : Kernel, k.running = some 0 ∧
      Delivers (Asks textImage 0) (Meanwhile textImage 0) (Overheard.Ready 0) (counter 100001 fun _ => 0)
        (fun status state => Counted status state.log) ⟨k, []⟩ := by
  obtain ⟨k, reached, running⟩ := talking_textImage
  exact ⟨k, running, counter_delivers formatted_textImage loads_textImage (by decide) (fun _ => 0) reached running⟩

end G29Os
