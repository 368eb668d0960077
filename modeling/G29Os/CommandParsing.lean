import G29Os.ArgumentTransfer
import G29Os.CommandLoops
import G29Os.DirectoryReads
import G29Os.ExecuteCases

/-!
What `system_execute` makes of its command: the name and the arguments in the new PCB, and
which bytes the loops touch on the way.
-/

namespace G29Os

open StepRun

variable {cmd : Nat → UInt8} {text : List UInt8}

/-- Where `i` stands when the arguments are taken: behind the first word, or its first 128 bytes,
and the spaces that follow. -/
def argsStart (text : List UInt8) : Nat :=
  min (wordLength text) lineBuffer + spaceCount (text.drop (min (wordLength text) lineBuffer))

theorem argsStart_le (text : List UInt8) : argsStart text ≤ text.length := by
  have word := wordLength_le text
  have spaces := spaceCount_le (text.drop (min (wordLength text) lineBuffer))
  rw [List.length_drop] at spaces
  rw [argsStart]
  omega

structure Parsed (cmd : Nat → UInt8) (text : List UInt8) (name args : Nat → UInt8) (parsed : ParseState) :
    Prop where
  name : ∀ k, parsed.name k =
    if k < min (wordLength text) lineBuffer then cmd k
    else if k = wordLength text ∧ wordLength text < lineBuffer then 0 else name k
  args : ∀ k, parsed.args k =
    if 2 * argsStart text + k < lineBuffer ∧ argsStart text + k ≤ text.length then cmd (argsStart text + k)
    else args k
  reads : ∀ r ∈ parsed.reads, r ≤ text.length
  nameWrites : ∀ r ∈ parsed.nameWrites, r < lineBuffer
  argsWrites : ∀ r ∈ parsed.argsWrites, r < lineBuffer

theorem parseCommand_spec (string : IsCString cmd text) (name args : Nat → UInt8) :
    Parsed cmd text name args (parseCommand cmd text.length name args) := by
  let start : ParseState :=
    { i := 0, name := name, args := args, reads := [], nameWrites := [], argsWrites := [] }
  have words := wordLength_le text
  have named := nameLoop_spec string.inWord string.wordEnds lineBuffer start (Nat.zero_le _)
  have atWord : (nameLoop cmd lineBuffer start).i = min (wordLength text) lineBuffer := by
    rw [named.i]
    exact congrArg (min (wordLength text)) (Nat.zero_add lineBuffer)
  have behind := string.drop (by omega : min (wordLength text) lineBuffer ≤ text.length)
  have spaces := spaceCount_le (text.drop (min (wordLength text) lineBuffer))
  rw [List.length_drop] at spaces
  have skipped := @skipSpaces_spec cmd (spaceCount (text.drop (min (wordLength text) lineBuffer)))
    (text.length + 1) (nameLoop cmd lineBuffer start)
    (fun k inside => by
      rw [atWord]
      exact behind.inSpaces k inside)
    (by
      rw [atWord]
      exact behind.spacesEnd) (by omega)
  have at_ : (skipSpaces cmd (text.length + 1) (nameLoop cmd lineBuffer start)).i = argsStart text := by
    rw [skipped.i, atWord, argsStart]
  have nonzero : ∀ k, k < text.length → cmd k ≠ 0 := fun k inside zero =>
    Nat.ne_of_lt inside ((string.zero_iff (Nat.le_of_lt inside)).mp zero)
  have inside : (skipSpaces cmd (text.length + 1) (nameLoop cmd lineBuffer start)).i ≤ text.length :=
    at_ ▸ argsStart_le text
  have taken := argsLoop_spec nonzero string.ends
    (lineBuffer - 2 * (skipSpaces cmd (text.length + 1) (nameLoop cmd lineBuffer start)).i)
    _ _ (Nat.le_refl _) inside
  have final : parseCommand cmd text.length name args = argsLoop cmd
      (lineBuffer - 2 * (skipSpaces cmd (text.length + 1) (nameLoop cmd lineBuffer start)).i)
      (skipSpaces cmd (text.length + 1) (nameLoop cmd lineBuffer start)).i
      (skipSpaces cmd (text.length + 1) (nameLoop cmd lineBuffer start)) := rfl
  rw [← final] at taken
  refine ⟨fun k => ?_, fun k => ?_, fun r listed => ?_, fun r listed => ?_, fun r listed => ?_⟩
  · rw [taken.name, skipped.name, named.name]
    simp only [start, Nat.zero_le, true_and, Nat.zero_add]
  · have same : (argsStart text ≤ argsStart text + k ∧
        argsStart text + k < argsStart text + (lineBuffer - 2 * argsStart text) ∧
          argsStart text + k ≤ text.length) ↔
        (2 * argsStart text + k < lineBuffer ∧ argsStart text + k ≤ text.length) := by omega
    rw [taken.args, skipped.args, named.args, at_]
    simp only [same, start]
  · rcases taken.reads r listed with early | late
    · rcases skipped.reads r early with first | second
      · rcases named.reads r first with none | inWord
        · cases none
        · omega
      · rw [atWord] at second
        omega
    · exact late
  · rw [taken.nameWrites, skipped.nameWrites] at listed
    rcases named.nameWrites r listed with none | inside
    · cases none
    · rwa [Nat.zero_add] at inside
  · rcases taken.argsWrites r listed with none | inside
    · rw [skipped.argsWrites, named.argsWrites] at none
      cases none
    · omega

/-! ### The texts that the loops leave -/

theorem isCString_command (command : List UInt8) :
    IsCString (textOf command) (Kernel.commandText command) where
  bytes index bound := by
    have inside : index < command.length :=
      Nat.lt_of_lt_of_le bound (List.takeWhile_prefix _).length_le
    rw [textOf, List.getD_eq_getElem _ _ inside]
    exact ((List.takeWhile_prefix fun c => decide (c ≠ 0)).getElem bound).symm
  nonzero c listed := by
    have kept := List.mem_takeWhile_imp listed
    exact of_decide_eq_true kept
  ends := by
    induction command with
    | nil => rfl
    | cons c command ih =>
        rw [Kernel.commandText, List.takeWhile_cons]
        by_cases nul : c = 0
        · simp [nul, textOf]
        · simp only [nul, ne_eq, not_false_eq_true, decide_true, if_true, List.length_cons]
          exact ih

theorem length_commandName (command : List UInt8) :
    (Kernel.commandName command).length = wordLength (Kernel.commandText command) := rfl

theorem IsCString.name_get (string : IsCString cmd text) {k : Nat} (inside : k < wordLength text) :
    textOf (text.takeWhile fun c => c ≠ 32) k = cmd k := by
  have bound : k < text.length := Nat.lt_of_lt_of_le inside (wordLength_le text)
  rw [string.bytes k bound, textOf, List.getD_eq_getElem _ _ inside]
  exact (List.takeWhile_prefix _).getElem inside

theorem isCString_word (nonzero : ∀ c ∈ text, c ≠ 0) :
    IsCString (textOf (text.takeWhile fun c => c ≠ 32)) (text.takeWhile fun c => c ≠ 32) :=
  Image.isCString_textOf fun c listed => nonzero c ((List.takeWhile_prefix _).subset listed)

theorem dropWhile_eq_drop (list : List UInt8) :
    (list.dropWhile fun c => c = 32) = list.drop (spaceCount list) := by
  induction list with
  | nil => rfl
  | cons c list ih =>
      rw [List.dropWhile_cons, spaceCount, List.takeWhile_cons]
      by_cases space : c = 32
      · simp only [space, decide_true, if_true, List.length_cons, List.drop_succ_cons]
        exact ih
      · simp [space]

theorem commandArgs_eq {command : List UInt8}
    (short : wordLength (Kernel.commandText command) < lineBuffer) :
    Kernel.commandArgs command =
      (Kernel.commandText command).drop (argsStart (Kernel.commandText command)) := by
  have whole : min (wordLength (Kernel.commandText command)) lineBuffer =
      wordLength (Kernel.commandText command) := Nat.min_eq_left (Nat.le_of_lt short)
  rw [Kernel.commandArgs, length_commandName, dropWhile_eq_drop, List.drop_drop, argsStart, whole]

theorem argsLength_eq {command : List UInt8}
    (short : wordLength (Kernel.commandText command) < lineBuffer) :
    (Kernel.commandText command).length - (Kernel.commandArgs command).length =
      argsStart (Kernel.commandText command) := by
  have inside := argsStart_le (Kernel.commandText command)
  rw [commandArgs_eq short, List.length_drop]
  omega

theorem parseCommand_agrees {command : List UInt8} {name : Nat → UInt8} {pcb : Pcb}
    (short : (Kernel.commandName command).length < lineBuffer) :
    let parsed := parseCommand (textOf command) (Kernel.commandText command).length name pcb.args
    parsed.args = Kernel.copyArgs command pcb.args ∧
      IsCString parsed.name (Kernel.commandName command) ∧
        (strcpy parsed.name lineBuffer 0 { dest := pcb.name, writes := [] }).dest =
          Kernel.copyName (Kernel.commandName command) pcb.name := by
  have string := isCString_command command
  have spec := parseCommand_spec string name pcb.args
  rw [length_commandName] at short
  dsimp only
  generalize parseCommand (textOf command) (Kernel.commandText command).length name pcb.args = parsed at spec
  have whole : min (wordLength (Kernel.commandText command)) lineBuffer =
      wordLength (Kernel.commandText command) := Nat.min_eq_left (Nat.le_of_lt short)
  have word : IsCString parsed.name (Kernel.commandName command) := by
    have own := isCString_word string.nonzero
    refine ⟨fun index bound => ?_, own.nonzero, ?_⟩
    · have inside : index < wordLength (Kernel.commandText command) := bound
      rw [spec.name, whole, if_pos inside, ← string.name_get inside]
      exact own.bytes index bound
    · rw [spec.name, length_commandName, whole, if_neg (Nat.lt_irrefl _), if_pos ⟨rfl, short⟩]
  refine ⟨funext fun k => ?_, word, funext fun k => ?_⟩
  · have inside := argsStart_le (Kernel.commandText command)
    have args := string.drop inside
    have fits : (k ≤ (Kernel.commandArgs command).length) ↔
        argsStart (Kernel.commandText command) + k ≤ (Kernel.commandText command).length := by
      rw [commandArgs_eq short, List.length_drop]
      omega
    rw [spec.args, Kernel.copyArgs]
    dsimp only
    rw [argsLength_eq short]
    simp only [fits]
    split
    · rename_i taken
      rw [commandArgs_eq short, ← args.textOf_eq (by rw [List.length_drop]; omega)]
    · rfl
  · have zeros : ∀ k, k < (Kernel.commandName command).length → parsed.name k ≠ 0 := by
      intro k inside zero
      exact Nat.ne_of_lt inside ((word.zero_iff (Nat.le_of_lt inside)).mp zero)
    have copied := @strcpy_spec parsed.name (Kernel.commandName command).length zeros word.ends
      lineBuffer 0 { dest := pcb.name, writes := [] } (Nat.zero_le _)
    have inside : (0 ≤ k ∧ k < 0 + lineBuffer ∧ k ≤ (Kernel.commandName command).length) ↔
        k ≤ (Kernel.commandName command).length := by
      rw [length_commandName]
      omega
    rw [copied.dest, Kernel.copyName]
    simp only [inside]
    split
    · rename_i before
      exact word.textOf_eq before
    · rfl

namespace Kernel

variable {image : Image} {k next : Kernel} {command : List UInt8} {stale : Stale} {slot : Slot}
  {dentry : Dentry} {entry : UInt32} {pcb : Pcb}

/-! ### The new PCB -/

theorem systemExecute_otherPcb (other : Pcb)
    (done : k.systemExecute image command stale = some (.started next)) :
    ∃ next', k.systemExecute image command { stale with pcb := other } = some (.started next') := by
  cases systemExecute_iff.mp done with
  | started found free short loaded =>
      exact ⟨_, systemExecute_iff.mpr (Executing.started found free short loaded)⟩

/-- The PCB holds the first word of the command as its name and, as its arguments, all that follows
the word and the spaces behind it. -/
structure CommandParsed (text : List UInt8) (pcb : Pcb) : Prop where
  name : IsCString pcb.name (text.takeWhile fun c => c ≠ 32)
  args : IsCString pcb.args ((text.drop (wordLength text)).dropWhile fun c => c = 32)

theorem started_pcb (done : k.systemExecute image command stale = some (.started next))
    (top : next.foreground = some slot) :
    ∃ dentry, image.readDentryByName (textOf (commandName command)) = some dentry ∧
      (spilledName dentry (commandName command)).length < lineBuffer ∧
      (next.pcbs slot).args = copyArgs command stale.pcb.args ∧
      (next.pcbs slot).name = copyName (spilledName dentry (commandName command)) stale.pcb.name := by
  obtain ⟨taken, dentry, entry, -, found, short, launched⟩ := systemExecute_started done
  cases (launch_others launched).1.symm.trans top
  rw [launch_pcb launched]
  exact ⟨dentry, findProgram_dentry found, short, rfl, rfl⟩

theorem isCString_copyName {name : List UInt8} {stale : Nat → UInt8} (nonzero : ∀ c ∈ name, c ≠ 0) :
    IsCString (copyName name stale) name := by
  have own := Image.isCString_textOf nonzero
  refine ⟨fun index bound => ?_, nonzero, ?_⟩
  · exact (copyName_text (Nat.le_of_lt bound)).trans (own.bytes index bound)
  · exact (copyName_text (Nat.le_refl _)).trans own.ends

theorem commandName_nonzero : ∀ c ∈ commandName command, c ≠ 0 := fun c listed =>
  (isCString_command command).nonzero c ((List.takeWhile_prefix _).subset listed)

theorem spilledName_nonzero : ∀ c ∈ spilledName dentry (commandName command), c ≠ 0 := by
  intro c listed
  rw [spilledName] at listed
  split at listed
  · exact commandName_nonzero c listed
  · exact mem_cString listed

def KeepsWord (image : Image) (command : List UInt8) : Prop :=
  ∀ dentry, image.readDentryByName (textOf (commandName command)) = some dentry →
    dentry.Contained 0 ∨ nameBehind dentry = commandName command

theorem keepsWord_iff (found : image.readDentryByName (textOf (commandName command)) = some dentry) :
    KeepsWord image command ↔ spilledName dentry (commandName command) = commandName command := by
  have only : KeepsWord image command ↔
      dentry.Contained 0 ∨ nameBehind dentry = commandName command := by
    refine ⟨fun keeps => keeps dentry found, fun either other found' => ?_⟩
    cases found.symm.trans found'
    exact either
  rw [only, spilledName]
  by_cases contained : dentry.Contained 0
  · rw [if_pos contained]
    exact iff_of_true (Or.inl contained) rfl
  · rw [if_neg contained, or_iff_right contained]

/-- For every command that starts a program: the new PCB is right, whatever the stack held before,
exactly when the length of the command and the place of its arguments add up to less than 128 and
the look-up leaves the first word alone. -/
theorem commandParsed_iff
    (starts : ∃ stale next, k.systemExecute image command stale = some (.started next)) :
    (∀ stale next slot, k.systemExecute image command stale = some (.started next) →
      next.foreground = some slot → CommandParsed (commandText command) (next.pcbs slot)) ↔
      (commandText command).length + argsStart (commandText command) < lineBuffer ∧
        KeepsWord image command := by
  have string := isCString_command command
  have inside := argsStart_le (commandText command)
  constructor
  · intro parsed
    obtain ⟨stale, next, done⟩ := starts
    obtain ⟨next', again⟩ := systemExecute_otherPcb { noPcb with args := fun _ => 1 } done
    obtain ⟨taken, dentry, entry, -, -, -, launched⟩ := systemExecute_started again
    have top := (launch_others launched).1
    have right := parsed _ next' taken again top
    obtain ⟨dentry, found, short, args, name⟩ := started_pcb again top
    have word : spilledName dentry (commandName command) = commandName command := by
      have spilled := @isCString_copyName (spilledName dentry (commandName command)) (newPcbInit noPcb).name
        (@spilledName_nonzero command dentry)
      have own := right.name
      rw [name] at own
      exact spilled.unique own
    rw [word] at short
    refine ⟨?_, (keepsWord_iff found).mpr word⟩
    have nul := right.args.ends
    change _ = copyArgs command fun _ => 1 at args
    change (next'.pcbs taken).args (commandArgs command).length = 0 at nul
    rw [args, copyArgs] at nul
    dsimp only at nul
    rw [argsLength_eq short, commandArgs_eq short, List.length_drop] at nul
    split at nul
    · rename_i room
      omega
    · cases nul
  · rintro ⟨room, keeps⟩ stale next slot done top
    obtain ⟨dentry, found, short, args, name⟩ := started_pcb done top
    rw [(keepsWord_iff found).mp keeps] at short name
    refine ⟨?_, ?_⟩
    · rw [name]
      exact isCString_copyName commandName_nonzero
    · change IsCString (next.pcbs slot).args (commandArgs command)
      have rest : IsCString (textOf (commandArgs command)) (commandArgs command) := by
        rw [commandArgs_eq short]
        exact Image.isCString_textOf (string.drop inside).nonzero
      have copied (index : Nat) (low : index ≤ (commandArgs command).length) :
          (next.pcbs slot).args index = textOf (commandArgs command) index := by
        have fits := low
        rw [commandArgs_eq short, List.length_drop] at fits
        rw [args, copyArgs]
        dsimp only
        rw [argsLength_eq short, if_pos ⟨by omega, low⟩]
      refine ⟨fun index bound => ?_, rest.nonzero, ?_⟩
      · exact (copied index (Nat.le_of_lt bound)).trans (rest.bytes index bound)
      · exact (copied _ (Nat.le_refl _)).trans rest.ends

/-- "shell", a space and 120 characters: 116 of them are copied and no NUL. -/
def longCommand : List UInt8 := shellName ++ [32] ++ List.replicate 120 0x61

theorem commandParsed_cut : ∃ (k next : Kernel) (stale : Stale) (slot : Slot),
    Reachable (step smallImage) (Booted smallImage) k ∧ (commandText longCommand).length ≤ 127 ∧
      k.systemExecute smallImage longCommand stale = some (.started next) ∧
      next.foreground = some slot ∧ ¬CommandParsed (commandText longCommand) (next.pcbs slot) := by
  let stale : Stale := { noStale with pcb := { noPcb with args := fun _ => 1 } }
  have ran : ((runSmall [.firstShell noStale]).bind fun k =>
      (started (k.systemExecute smallImage longCommand stale)).bind fun next =>
        next.foreground.map fun slot => decide ((next.pcbs slot).args 116 = 1)) = some true := by
    decide +kernel
  obtain ⟨k, computed, ran⟩ := Option.bind_eq_some_iff.mp ran
  obtain ⟨next, executed, ran⟩ := Option.bind_eq_some_iff.mp ran
  obtain ⟨slot, top, left⟩ := Option.map_eq_some_iff.mp ran
  refine ⟨k, next, stale, slot, runSmall_reachable computed, by decide +kernel, started_some executed,
    top, fun parsed => ?_⟩
  have byte := parsed.args.bytes 116 (by decide +kernel)
  rw [of_decide_eq_true left] at byte
  revert byte
  decide +kernel

theorem commandParsed_short : ∃ (k : Kernel), Reachable (step smallImage) (Booted smallImage) k ∧
    ∀ stale next slot,
      k.systemExecute smallImage (shellName ++ [32, 32, 0x61]) stale = some (.started next) →
      next.foreground = some slot → CommandParsed (shellName ++ [32, 32, 0x61]) (next.pcbs slot) := by
  have ran : ((runSmall [.firstShell noStale]).bind fun k =>
      (started (k.systemExecute smallImage (shellName ++ [32, 32, 0x61]) noStale)).map fun _ => k).isSome := by
    decide +kernel
  obtain ⟨k, ran⟩ := Option.isSome_iff_exists.mp ran
  obtain ⟨k, computed, ran⟩ := Option.bind_eq_some_iff.mp ran
  obtain ⟨next, executed, same⟩ := Option.map_eq_some_iff.mp ran
  cases same
  have contained : ∀ dentry ∈ smallImage.readDentryByName
      (textOf (commandName (shellName ++ [32, 32, 0x61]))), dentry.Contained 0 := by
    decide +kernel
  exact ⟨k, runSmall_reachable computed,
    (commandParsed_iff ⟨noStale, next, started_some executed⟩).mpr
      ⟨by decide +kernel, fun dentry found => Or.inl (contained dentry found)⟩⟩

/-! ### Which bytes are touched -/

theorem readDentryByName_prefix {first second : Nat → UInt8}
    (same : cString (nameSize - 1) first = cString (nameSize - 1) second) :
    image.readDentryByName first = image.readDentryByName second := by
  have taken (entry : Nat → UInt8) :
      sameText entry first (nameSize - 1) 0 = sameText entry second (nameSize - 1) 0 := by
    rw [Bool.eq_iff_iff, sameText_iff, sameText_iff]
    simp only [Nat.zero_add, same]
  simp only [Image.readDentryByName, taken]

theorem readDentryByName_parsed (command : List UInt8) (name args : Nat → UInt8) :
    image.readDentryByName
        (parseCommand (textOf command) (commandText command).length name args).name =
      image.readDentryByName (textOf (commandName command)) := by
  have string := isCString_command command
  have word := isCString_word string.nonzero
  have spec := parseCommand_spec string name args
  apply readDentryByName_prefix
  by_cases short : (commandName command).length < lineBuffer
  · have parsed := (@parseCommand_agrees command name { noPcb with args := args } short).2.1
    rw [parsed.cString_take]
    exact (word.cString_take _).symm
  · apply cString_congr
    intro index inside
    rw [length_commandName] at short
    have within : index < min (wordLength (commandText command)) lineBuffer := by
      simp only [nameSize, lineBuffer] at inside short ⊢
      omega
    rw [spec.name, if_pos within]
    exact (string.name_get (by omega)).symm

end Kernel

end G29Os
