import G29Os.CommandParsing
import G29Os.DialogueCalls
import G29Os.UserPrograms

/-!
The shell, and what passes between it and its user: lines are heard and run until one says `exit`.
`rounds` bounds the lines that are followed.
-/

namespace G29Os

open BoundedLoop ByteRange CallTree CallTree.Client

abbrev Conversation := Client Ask Reply

namespace Conversation

def fdputs (message : List UInt8) : Conversation Unit := do
  let _ ← ask (.call (.write 1 message))
  return ()

end Conversation

/-- `ece391_strcmp`, where the shorter string has less than `size` characters. Where both strings
end the difference is the 0 that the source returns there. -/
def strcmp (size : Nat) (s1 s2 : Nat → UInt8) : Int :=
  let i := whileLoop (fun i => decide (s1 i = s2 i ∧ s1 i ≠ 0)) (· + 1) size 0
  (s1 i).toNat - (s2 i).toNat

def newline : UInt8 := 10

def shellRound (buf : Nat → UInt8) : Conversation ((Nat → UInt8) ⊕ Int) := do
  Conversation.fdputs (text "391OS> ")
  let read ← ask (.call (.read 0 (bufSize - 1)))
  let buf := storedAt buf 0 read.bytes
  if read.ret = -1 then
    Conversation.fdputs (text "read from keyboard failed\n")
    return .inr 3
  let cnt := if read.ret > 0 ∧ buf (read.ret - 1).toNat = newline then read.ret - 1 else read.ret
  let buf := Function.update buf cnt.toNat 0
  if strcmp bufSize buf (textOf (text "exit")) = 0 then return .inr 0
  if buf 0 = 0 then return .inl buf
  let ran ← ask (.execute (cString bufSize buf))
  if ran.ret = -1 then
    Conversation.fdputs (text "no such command\n")
  else if ran.ret = 256 then
    Conversation.fdputs (text "program terminated by exception\n")
  else if ran.ret ≠ 0 then
    Conversation.fdputs (text "program terminated abnormally\n")
  return .inl buf

def shell (rounds : Nat) (buf : Nat → UInt8) : Conversation (Option Int) := loop shellRound rounds buf

/-! ### Strings -/

def commandOf (heard : List UInt8) : List UInt8 :=
  Kernel.commandText (if heard.getLast? = some newline then heard.dropLast else heard)

theorem IsCString.of_agree {buffer other : Nat → UInt8} {string : List UInt8} (known : IsCString buffer string)
    (agree : ∀ k, k ≤ string.length → other k = buffer k) : IsCString other string where
  bytes index bound := (agree index (Nat.le_of_lt bound)).trans (known.bytes index bound)
  nonzero := known.nonzero
  ends := (agree _ (Nat.le_refl _)).trans known.ends

theorem isCString_cut {buf : Nat → UInt8} {heard : List UInt8} {count : Nat} (inside : count ≤ heard.length) :
    IsCString (Function.update (storedAt buf 0 heard) count 0) (Kernel.commandText (heard.take count)) := by
  refine (isCString_command (heard.take count)).of_agree fun k within => ?_
  have most := within.trans (Kernel.length_commandText (heard.take count))
  rw [List.length_take, Nat.min_eq_left inside] at most
  rcases Nat.lt_or_eq_of_le most with before | rfl
  · have stored : storedAt buf 0 heard (0 + k) = textOf heard k := writeRange_inside (by omega)
    rw [Nat.zero_add] at stored
    rw [Function.update_of_ne (Nat.ne_of_lt before), stored, textOf, textOf, List.getD_eq_getElem?_getD,
      List.getD_eq_getElem?_getD, List.getElem?_take_of_lt before]
  · rw [Function.update_self, textOf, List.getD_eq_default _ _ (by rw [List.length_take]; omega)]

/-! ### What passes between the shell and its user -/

def Exchange.said (message : List UInt8) : Exchange :=
  ⟨.call (.write 1 message), ⟨message.length + 1, []⟩⟩

def Exchange.heard (line : List UInt8) : Exchange :=
  ⟨.call (.read 0 (bufSize - 1)), ⟨line.length, line⟩⟩

structure Turn where
  line : List UInt8
  ret : Int

namespace Turn

/-- An empty command is passed over, and only one that is not found is reported. -/
def exchanges (turn : Turn) : List Exchange :=
  [Exchange.said (text "391OS> "), Exchange.heard turn.line] ++
    if commandOf turn.line = [] then []
    else [⟨.execute (commandOf turn.line), ⟨turn.ret, []⟩⟩] ++
      if turn.ret = -1 then [Exchange.said (text "no such command\n")] else []

structure Fits (volume : Volume) (turn : Turn) : Prop where
  short : turn.line.length < lineBuffer
  stays : commandOf turn.line ≠ text "exit"
  runs : commandOf turn.line ≠ [] → volume.Runs (commandOf turn.line) turn.ret

end Turn

def Conversed (volume : Volume) (rounds left : Nat) (log : List Exchange) : Prop :=
  ∃ turns : List Turn, (∀ turn ∈ turns, turn.Fits volume) ∧ turns.length + left = rounds ∧
    log = turns.flatMap Turn.exchanges

section Ensures

variable {volume : Volume} {log : List Exchange} {α : Type} {post : α → List Exchange → Prop}
  {rounds left : Nat} {buf : Nat → UInt8}

theorem Conversation.fdputs_ensures {message : List UInt8} {rest : Unit → Conversation α}
    (said : Ensures volume.Replies post (rest ()) (log ++ [Exchange.said message])) :
    Ensures volume.Replies post ((Conversation.fdputs message).bind rest) log :=
  ensures_wrote.mpr said

theorem Conversed.more {turn : Turn} (conversed : Conversed volume rounds (left + 1) log)
    (fits : turn.Fits volume) : Conversed volume rounds left (log ++ turn.exchanges) := by
  obtain ⟨turns, fit, count, rfl⟩ := conversed
  refine ⟨turns ++ [turn], fun other listed => ?_, ?_, ?_⟩
  · rcases List.mem_append.mp listed with before | last
    · exact fit other before
    · exact List.mem_singleton.mp last ▸ fits
  · rw [List.length_append, List.length_singleton]
    omega
  · rw [List.flatMap_append, List.flatMap_singleton]

end Ensures

/-! ### Over the kernel -/

theorem loads_textImage : textImage.Loads := by decide +kernel

theorem talking_textImage :
    ∃ k, StepRun.Reachable (Kernel.step textImage) (Kernel.PoweredOn textImage) k ∧ k.running = some 0 := by
  have ran : (Kernel.runOn textImage [.firstShell Kernel.noStale]).map (fun k => decide (k.running = some 0)) =
      some true := by decide +kernel
  obtain ⟨k, computed, running⟩ := Option.map_eq_some_iff.mp ran
  exact ⟨k, Kernel.runOn_poweredOn computed, of_decide_eq_true running⟩

end G29Os
