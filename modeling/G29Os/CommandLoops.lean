import G29Os.DirectoryLookup

/-!
The loops of `system_execute` over its command: one takes the first word, one skips the spaces
behind it and one takes the arguments. They are run here with a record of the bytes they touch,
and shown to leave the texts that the calls of the kernel are told with.
-/

namespace G29Os

/-- The locals of the loops; the lists name the bytes of the command that were read and those of
`name` and `new_pcb.args` that were written. -/
structure ParseState where
  i : Nat
  name : Nat → UInt8
  args : Nat → UInt8
  reads : List Nat
  nameWrites : List Nat
  argsWrites : List Nat

namespace ParseState

def read (k : Nat) (state : ParseState) : ParseState := { state with reads := k :: state.reads }

def setName (k : Nat) (c : UInt8) (state : ParseState) : ParseState :=
  { state with name := Function.update state.name k c, nameWrites := k :: state.nameWrites }

def setArgs (k : Nat) (c : UInt8) (state : ParseState) : ParseState :=
  { state with args := Function.update state.args k c, argsWrites := k :: state.argsWrites }

end ParseState

/-- `for (i = 0; i < LINE_BUFFER; i++)` with `count` rounds to go. -/
def nameLoop (cmd : Nat → UInt8) : Nat → ParseState → ParseState
  | 0, state => state
  | count + 1, state =>
      let seen := state.read state.i
      if cmd state.i = 32 ∨ cmd state.i = 0 then seen.setName state.i 0
      else nameLoop cmd count { seen.setName state.i (cmd state.i) with i := state.i + 1 }

def skipSpaces (cmd : Nat → UInt8) : Nat → ParseState → ParseState
  | 0, state => state
  | fuel + 1, state =>
      let seen := state.read state.i
      if cmd state.i = 32 then skipSpaces cmd fuel { seen with i := state.i + 1 } else seen

/-- `for (j = i; j < (LINE_BUFFER - i); j++)` with `count` rounds to go. -/
def argsLoop (cmd : Nat → UInt8) : Nat → Nat → ParseState → ParseState
  | 0, _, state => state
  | count + 1, j, state =>
      let stored := (state.read j).setArgs (j - state.i) (cmd j)
      if cmd j = 0 then stored else argsLoop cmd count (j + 1) stored

/-- `j` starts at `i` and stops before `LINE_BUFFER - i`, which leaves it that many rounds. A
command of `length` characters has no longer run of spaces. -/
def parseCommand (cmd : Nat → UInt8) (length : Nat) (name args : Nat → UInt8) : ParseState :=
  let start : ParseState :=
    { i := 0, name := name, args := args, reads := [], nameWrites := [], argsWrites := [] }
  let skipped := skipSpaces cmd (length + 1) (nameLoop cmd lineBuffer start)
  argsLoop cmd (lineBuffer - 2 * skipped.i) skipped.i skipped

structure StringCopy where
  dest : Nat → UInt8
  writes : List Nat

def strcpy (src : Nat → UInt8) : Nat → Nat → StringCopy → StringCopy
  | 0, _, copy => copy
  | fuel + 1, i, copy =>
      let stored : StringCopy := { dest := Function.update copy.dest i (src i), writes := i :: copy.writes }
      if src i = 0 then stored else strcpy src fuel (i + 1) stored

/-! ### Where the words of a command stand -/

variable {cmd : Nat → UInt8} {text : List UInt8}

def wordLength (text : List UInt8) : Nat := (text.takeWhile fun c => c ≠ 32).length

def spaceCount (text : List UInt8) : Nat := (text.takeWhile fun c => c = 32).length

theorem wordLength_le (text : List UInt8) : wordLength text ≤ text.length :=
  (List.takeWhile_prefix _).length_le

theorem spaceCount_le (text : List UInt8) : spaceCount text ≤ text.length :=
  (List.takeWhile_prefix _).length_le

theorem IsCString.inWord (string : IsCString cmd text) :
    ∀ k, k < wordLength text → cmd k ≠ 32 ∧ cmd k ≠ 0 := by
  induction text generalizing cmd with
  | nil => exact fun k absurd => by cases absurd
  | cons c text ih =>
      intro k inside
      have first : cmd 0 = c := string.bytes 0 (Nat.succ_pos _)
      have nonzero : c ≠ 0 := string.nonzero c List.mem_cons_self
      rw [wordLength, List.takeWhile_cons] at inside
      by_cases space : c = 32
      · simp [space] at inside
      · simp only [space, ne_eq, not_false_eq_true, decide_true, if_true, List.length_cons] at inside
        cases k with
        | zero => exact first ▸ ⟨space, nonzero⟩
        | succ k => exact ih string.tail k (Nat.lt_of_succ_lt_succ inside)

theorem IsCString.wordEnds (string : IsCString cmd text) :
    cmd (wordLength text) = 32 ∨ cmd (wordLength text) = 0 := by
  induction text generalizing cmd with
  | nil => exact Or.inr string.ends
  | cons c text ih =>
      have first : cmd 0 = c := string.bytes 0 (Nat.succ_pos _)
      rw [wordLength, List.takeWhile_cons]
      by_cases space : c = 32
      · simp [first, space]
      · simp only [space, ne_eq, not_false_eq_true, decide_true, if_true, List.length_cons]
        exact ih string.tail

theorem IsCString.inSpaces (string : IsCString cmd text) : ∀ k, k < spaceCount text → cmd k = 32 := by
  induction text generalizing cmd with
  | nil => exact fun k absurd => by cases absurd
  | cons c text ih =>
      intro k inside
      have first : cmd 0 = c := string.bytes 0 (Nat.succ_pos _)
      rw [spaceCount, List.takeWhile_cons] at inside
      by_cases space : c = 32
      · simp only [space, decide_true, if_true, List.length_cons] at inside
        cases k with
        | zero => exact first.trans space
        | succ k => exact ih string.tail k (Nat.lt_of_succ_lt_succ inside)
      · simp [space] at inside

theorem IsCString.spacesEnd (string : IsCString cmd text) : cmd (spaceCount text) ≠ 32 := by
  induction text generalizing cmd with
  | nil =>
      intro space
      rw [spaceCount, List.takeWhile_nil, List.length_nil] at space
      cases string.ends.symm.trans space
  | cons c text ih =>
      have first : cmd 0 = c := string.bytes 0 (Nat.succ_pos _)
      rw [spaceCount, List.takeWhile_cons]
      by_cases space : c = 32
      · simp only [space, decide_true, if_true, List.length_cons]
        exact ih string.tail
      · simp [space, first]

/-! ### What each loop leaves -/

theorem listed_or {first r : Nat} {list : List Nat} {good : Prop} (listed : r ∈ first :: list)
    (fresh : r = first → good) : r ∈ list ∨ good := by
  rcases List.mem_cons.mp listed with same | old
  · exact Or.inr (fresh same)
  · exact Or.inl old

structure NameRead (cmd : Nat → UInt8) (word count : Nat) (state final : ParseState) : Prop where
  i : final.i = min word (state.i + count)
  args : final.args = state.args
  argsWrites : final.argsWrites = state.argsWrites
  name : ∀ k, final.name k =
    if state.i ≤ k ∧ k < min word (state.i + count) then cmd k
    else if k = word ∧ word < state.i + count then 0 else state.name k
  reads : ∀ r ∈ final.reads, r ∈ state.reads ∨ r ≤ word
  nameWrites : ∀ r ∈ final.nameWrites, r ∈ state.nameWrites ∨ r < state.i + count

theorem nameLoop_spec {word : Nat} (inWord : ∀ k, k < word → cmd k ≠ 32 ∧ cmd k ≠ 0)
    (wordEnds : cmd word = 32 ∨ cmd word = 0) (count : Nat) (state : ParseState)
    (before : state.i ≤ word) : NameRead cmd word count state (nameLoop cmd count state) := by
  induction count generalizing state with
  | zero =>
      refine ⟨by rw [nameLoop]; omega, rfl, rfl, fun k => ?_, fun r listed => Or.inl listed,
        fun r listed => Or.inl listed⟩
      have outside : ¬(state.i ≤ k ∧ k < min word (state.i + 0)) := by omega
      have notEnd : ¬(k = word ∧ word < state.i + 0) := by omega
      rw [if_neg outside, if_neg notEnd]
      rfl
  | succ count ih =>
      rw [nameLoop]
      rcases Nat.lt_or_eq_of_le before with inside | atEnd
      · obtain ⟨notSpace, notNul⟩ := inWord state.i inside
        have goes : ¬(cmd state.i = 32 ∨ cmd state.i = 0) := not_or.mpr ⟨notSpace, notNul⟩
        rw [if_neg goes]
        have rest := ih { (state.read state.i).setName state.i (cmd state.i) with i := state.i + 1 } inside
        have reach : state.i + 1 + count = state.i + (count + 1) := by omega
        refine ⟨?_, rest.args, rest.argsWrites, fun k => ?_, fun r listed => ?_, fun r listed => ?_⟩
        · rw [rest.i, ← reach]
        · rw [rest.name, ← reach]
          simp only [ParseState.setName, ParseState.read, Function.update_apply]
          by_cases here : k = state.i
          · have taken : state.i ≤ k ∧ k < min word (state.i + 1 + count) := by omega
            have later : ¬(state.i + 1 ≤ k ∧ k < min word (state.i + 1 + count)) := by omega
            have notEnd : ¬(k = word ∧ word < state.i + 1 + count) := by omega
            rw [if_pos taken, if_neg later, if_neg notEnd, if_pos here, here]
          · have same : (state.i + 1 ≤ k ∧ k < min word (state.i + 1 + count)) ↔
                (state.i ≤ k ∧ k < min word (state.i + 1 + count)) := by omega
            simp only [same, here, if_false]
        · rcases rest.reads r listed with early | inWord
          · exact listed_or early fun same => by omega
          · exact Or.inr inWord
        · rcases rest.nameWrites r listed with early | late
          · exact listed_or early fun same => by omega
          · refine Or.inr ?_
            dsimp only at late
            omega
      · have stops : cmd state.i = 32 ∨ cmd state.i = 0 := atEnd ▸ wordEnds
        rw [if_pos stops]
        refine ⟨?_, rfl, rfl, fun k => ?_, fun r listed => ?_, fun r listed => ?_⟩
        · change state.i = _
          omega
        · have outside : ¬(state.i ≤ k ∧ k < min word (state.i + (count + 1))) := by omega
          simp only [ParseState.setName, ParseState.read, Function.update_apply, if_neg outside]
          have here : (k = state.i) ↔ (k = word ∧ word < state.i + (count + 1)) := by omega
          simp only [here]
        · exact listed_or listed fun same => by omega
        · exact listed_or listed fun same => by omega

structure SpacesSkipped (spaces : Nat) (state final : ParseState) : Prop where
  i : final.i = state.i + spaces
  name : final.name = state.name
  args : final.args = state.args
  nameWrites : final.nameWrites = state.nameWrites
  argsWrites : final.argsWrites = state.argsWrites
  reads : ∀ r ∈ final.reads, r ∈ state.reads ∨ r ≤ state.i + spaces

theorem skipSpaces_spec {spaces : Nat} (fuel : Nat) (state : ParseState)
    (inSpaces : ∀ k, k < spaces → cmd (state.i + k) = 32) (spacesEnd : cmd (state.i + spaces) ≠ 32)
    (enough : spaces < fuel) : SpacesSkipped spaces state (skipSpaces cmd fuel state) := by
  induction spaces generalizing fuel state with
  | zero =>
      obtain ⟨fuel, rfl⟩ := Nat.exists_eq_add_of_lt enough
      have stops : cmd state.i ≠ 32 := spacesEnd
      rw [Nat.zero_add, skipSpaces, if_neg stops]
      refine ⟨rfl, rfl, rfl, rfl, rfl, fun r listed => ?_⟩
      exact listed_or listed fun same => by omega
  | succ spaces ih =>
      obtain ⟨fuel, rfl⟩ : ∃ rest, fuel = rest + 1 := ⟨fuel - 1, by omega⟩
      have here : cmd state.i = 32 := inSpaces 0 (Nat.succ_pos _)
      rw [skipSpaces, if_pos here]
      have shift (k : Nat) : state.i + 1 + k = state.i + (k + 1) := by omega
      have rest := ih fuel { state.read state.i with i := state.i + 1 }
        (fun k inside => by
          rw [shift]
          exact inSpaces (k + 1) (Nat.succ_lt_succ inside))
        (by
          rw [shift]
          exact spacesEnd) (by omega)
      refine ⟨rest.i.trans (shift spaces), rest.name, rest.args, rest.nameWrites, rest.argsWrites,
        fun r listed => ?_⟩
      rcases rest.reads r listed with early | late
      · exact listed_or early fun same => by omega
      · refine Or.inr ?_
        dsimp only at late
        omega

structure ArgsRead (cmd : Nat → UInt8) (last count j : Nat) (state final : ParseState) : Prop where
  name : final.name = state.name
  nameWrites : final.nameWrites = state.nameWrites
  args : ∀ k, final.args k =
    if j ≤ state.i + k ∧ state.i + k < j + count ∧ state.i + k ≤ last then cmd (state.i + k)
    else state.args k
  reads : ∀ r ∈ final.reads, r ∈ state.reads ∨ r ≤ last
  argsWrites : ∀ r ∈ final.argsWrites, r ∈ state.argsWrites ∨ state.i + r < j + count

theorem argsLoop_spec {last : Nat} (nonzero : ∀ k, k < last → cmd k ≠ 0) (nul : cmd last = 0)
    (count j : Nat) (state : ParseState) (low : state.i ≤ j) (inside : j ≤ last) :
    ArgsRead cmd last count j state (argsLoop cmd count j state) := by
  induction count generalizing j state with
  | zero =>
      refine ⟨rfl, rfl, fun k => ?_, fun r listed => Or.inl listed, fun r listed => Or.inl listed⟩
      have outside : ¬(j ≤ state.i + k ∧ state.i + k < j + 0 ∧ state.i + k ≤ last) := by omega
      rw [if_neg outside]
      rfl
  | succ count ih =>
      rw [argsLoop]
      have own (k : Nat) : k = j - state.i ↔ state.i + k = j := by omega
      rcases Nat.lt_or_eq_of_le inside with before | atEnd
      · rw [if_neg (nonzero j before)]
        have rest := ih (j + 1) ((state.read j).setArgs (j - state.i) (cmd j)) (Nat.le_succ_of_le low) before
        refine ⟨rest.name, rest.nameWrites, fun k => ?_, fun r listed => ?_, fun r listed => ?_⟩
        · rw [rest.args]
          simp only [ParseState.setArgs, ParseState.read, Function.update_apply, own]
          by_cases here : state.i + k = j
          · have taken : j ≤ state.i + k ∧ state.i + k < j + (count + 1) ∧ state.i + k ≤ last := by omega
            have later : ¬(j + 1 ≤ state.i + k ∧ state.i + k < j + 1 + count ∧ state.i + k ≤ last) := by
              omega
            rw [if_pos taken, if_neg later, if_pos here, here]
          · have same : (j + 1 ≤ state.i + k ∧ state.i + k < j + 1 + count ∧ state.i + k ≤ last) ↔
                (j ≤ state.i + k ∧ state.i + k < j + (count + 1) ∧ state.i + k ≤ last) := by omega
            simp only [same, here, if_false]
        · rcases rest.reads r listed with early | late
          · exact listed_or early fun same => by omega
          · exact Or.inr late
        · rcases rest.argsWrites r listed with early | late
          · exact listed_or early fun same => by omega
          · refine Or.inr ?_
            change state.i + r < _ at late
            omega
      · rw [if_pos (atEnd ▸ nul)]
        refine ⟨rfl, rfl, fun k => ?_, fun r listed => ?_, fun r listed => ?_⟩
        · simp only [ParseState.setArgs, ParseState.read, Function.update_apply, own]
          have here : (state.i + k = j) ↔
              (j ≤ state.i + k ∧ state.i + k < j + (count + 1) ∧ state.i + k ≤ last) := by omega
          by_cases taken : state.i + k = j
          · rw [if_pos taken, if_pos (here.mp taken), taken]
          · rw [if_neg taken, if_neg (mt here.mpr taken)]
        · exact listed_or listed fun same => by omega
        · exact listed_or listed fun same => by omega

structure Copied (src : Nat → UInt8) (last fuel i : Nat) (copy final : StringCopy) : Prop where
  dest : ∀ k, final.dest k = if i ≤ k ∧ k < i + fuel ∧ k ≤ last then src k else copy.dest k
  writes : ∀ r ∈ final.writes, r ∈ copy.writes ∨ r ≤ last

theorem strcpy_spec {src : Nat → UInt8} {last : Nat} (nonzero : ∀ k, k < last → src k ≠ 0)
    (nul : src last = 0) (fuel i : Nat) (copy : StringCopy) (inside : i ≤ last) :
    Copied src last fuel i copy (strcpy src fuel i copy) := by
  induction fuel generalizing i copy with
  | zero =>
      refine ⟨fun k => ?_, fun r listed => Or.inl listed⟩
      have outside : ¬(i ≤ k ∧ k < i + 0 ∧ k ≤ last) := by omega
      rw [if_neg outside]
      rfl
  | succ fuel ih =>
      rw [strcpy]
      rcases Nat.lt_or_eq_of_le inside with before | atEnd
      · rw [if_neg (nonzero i before)]
        have rest := ih (i + 1) { dest := Function.update copy.dest i (src i), writes := i :: copy.writes }
          before
        refine ⟨fun k => ?_, fun r listed => ?_⟩
        · rw [rest.dest]
          simp only [Function.update_apply]
          by_cases here : k = i
          · have taken : i ≤ k ∧ k < i + (fuel + 1) ∧ k ≤ last := by omega
            have later : ¬(i + 1 ≤ k ∧ k < i + 1 + fuel ∧ k ≤ last) := by omega
            rw [if_pos taken, if_neg later, if_pos here, here]
          · have same : (i + 1 ≤ k ∧ k < i + 1 + fuel ∧ k ≤ last) ↔
                (i ≤ k ∧ k < i + (fuel + 1) ∧ k ≤ last) := by omega
            simp only [same, here, if_false]
        · rcases rest.writes r listed with early | late
          · exact listed_or early fun same => by omega
          · exact Or.inr late
      · rw [if_pos (atEnd ▸ nul)]
        refine ⟨fun k => ?_, fun r listed => ?_⟩
        · simp only [Function.update_apply]
          have here : k = i ↔ (i ≤ k ∧ k < i + (fuel + 1) ∧ k ≤ last) := by omega
          by_cases taken : k = i
          · rw [if_pos taken, if_pos (here.mp taken), taken]
          · rw [if_neg taken, if_neg (mt here.mpr taken)]
        · exact listed_or listed fun same => by omega

end G29Os
