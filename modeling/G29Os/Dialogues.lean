import G29Os.ExecuteLoading
import G29Os.Volumes

/-!
What a program that talks to its user is promised: it prints, hears what is typed and runs the
commands that a volume holds. What is typed, and which of the programs reports what, is not told.
-/

namespace G29Os

open CallTree

inductive Ask where
  | call (request : SysCall)
  | execute (command : List UInt8)

structure Exchange where
  ask : Ask
  reply : Reply

/-- The value of `execute` for what the first word of its command names. What is no file, or one
of fewer than four bytes, may pass for a program or not. -/
def Executes : Option Node → Int → Prop
  | none, ret => ret = -1
  | some (.regular content), ret =>
      ret = 0 ∧ content.take 4 <+: Kernel.elfMagic ∨ ret = -1 ∧ ¬Kernel.elfMagic <+: content
  | some _, ret => ret = 0 ∨ ret = -1

def Volume.Runs (volume : Volume) (command : List UInt8) (ret : Int) : Prop :=
  if Kernel.commandName command = [] then ret = 0 ∨ ret = -1
  else Executes (volume.lookup (Kernel.commandName command)) ret

inductive Volume.Promises (volume : Volume) : Ask → Reply → Prop
  | wrote {bytes : List UInt8} : Promises volume (.call (.write 1 bytes)) ⟨bytes.length + 1, []⟩
  | heard {nbytes : Int} {bytes : List UInt8} (asked : bytes.length ≤ nbytes)
      (short : bytes.length < lineBuffer) :
      Promises volume (.call (.read 0 nbytes)) ⟨bytes.length, bytes⟩
  | ran {command : List UInt8} {ret : Int} (short : command.length < lineBuffer)
      (runs : volume.Runs command ret) : Promises volume (.execute command) ⟨ret, []⟩

def Volume.Replies (volume : Volume) (log : List Exchange) (ask : Ask) (reply : Reply)
    (later : List Exchange) : Prop :=
  volume.Promises ask reply ∧ later = log ++ [⟨ask, reply⟩]

theorem Volume.Runs.value {volume : Volume} {command : List UInt8} {ret : Int}
    (runs : volume.Runs command ret) : ret = 0 ∨ ret = -1 := by
  rw [Volume.Runs] at runs
  split at runs
  · exact runs
  · generalize volume.lookup (Kernel.commandName command) = found at runs
    cases found with
    | none => exact Or.inr runs
    | some node =>
        cases node with
        | regular content => exact runs.imp And.left And.left
        | rtc => exact runs
        | directory => exact runs

section Ensures

variable {volume : Volume} {log : List Exchange} {α : Type} {post : α → List Exchange → Prop}
  {next : Reply → Client Ask Reply α}

theorem ensures_wrote {bytes : List UInt8} :
    Ensures volume.Replies post (.call (.call (.write 1 bytes)) next) log ↔
      Ensures volume.Replies post (next ⟨bytes.length + 1, []⟩)
        (log ++ [⟨.call (.write 1 bytes), ⟨bytes.length + 1, []⟩⟩]) := by
  rw [ensures_call]
  constructor
  · rintro ⟨-, all⟩
    exact all _ _ ⟨.wrote, rfl⟩
  · refine fun ensures => ⟨⟨_, _, .wrote, rfl⟩, ?_⟩
    rintro reply later ⟨promised, rfl⟩
    cases promised
    exact ensures

theorem ensures_heard {nbytes : Int} (nonneg : 0 ≤ nbytes) :
    Ensures volume.Replies post (.call (.call (.read 0 nbytes)) next) log ↔
      ∀ bytes : List UInt8, (bytes.length : Int) ≤ nbytes → bytes.length < lineBuffer →
        Ensures volume.Replies post (next ⟨bytes.length, bytes⟩)
          (log ++ [⟨.call (.read 0 nbytes), ⟨bytes.length, bytes⟩⟩]) := by
  rw [ensures_call]
  constructor
  · rintro ⟨-, all⟩ bytes asked short
    exact all _ _ ⟨.heard asked short, rfl⟩
  · refine fun ensures => ⟨⟨_, _, @Volume.Promises.heard volume nbytes [] nonneg (by decide), rfl⟩, ?_⟩
    rintro reply later ⟨promised, rfl⟩
    cases promised with
    | heard asked short => exact ensures _ asked short

end Ensures

end G29Os
