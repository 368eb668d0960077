import Mathlib.Data.List.Infix
import G29Os.CallTree
import G29Os.Process

/-!
What the descriptor calls are for. A program opens files by name and reads the names in a
directory, the bytes of a file or the ticks of the clock to their end, and prints.
-/

namespace G29Os

open CallTree

inductive SysCall where
  | getargs (nbytes : Int)
  | open (filename : List UInt8)
  | read (fd nbytes : Int)
  | write (fd : Int) (bytes : List UInt8)
  | close (fd : Int)

structure Reply where
  ret : Int
  bytes : List UInt8
  deriving DecidableEq

inductive Node where
  | rtc
  | directory
  | regular (content : List UInt8)

structure Entry where
  name : List UInt8
  node : Node
  named : name ≠ []
  short : name.length ≤ nameSize
  nonzero : ∀ c ∈ name, c ≠ 0

structure Volume where
  entries : List Entry

namespace Volume

def names (volume : Volume) : List (List UInt8) := volume.entries.map Entry.name

/-- A name is told by its first 31 characters. -/
def lookup (volume : Volume) (filename : List UInt8) : Option Node :=
  (volume.entries.find? fun entry =>
    decide (entry.name.take (nameSize - 1) = filename.take (nameSize - 1))).map Entry.node

end Volume

inductive Handle where
  | clock
  | listing (names : List (List UInt8))
  | text (content : List UInt8)

def Node.handle (volume : Volume) : Node → Handle
  | .rtc => .clock
  | .directory => .listing volume.names
  | .regular content => .text content

structure Session where
  args : List UInt8
  handles : Fin 8 → Option Handle
  printed : List UInt8

def padded (name : List UInt8) : List UInt8 := name ++ List.replicate (nameSize - name.length) 0

def reach : Nat := 1024

namespace Session

def put (session : Session) (fd : Fin 8) (handle : Option Handle) : Session :=
  { session with handles := Function.update session.handles fd handle }

def print (session : Session) (bytes : List UInt8) : Session :=
  { session with printed := session.printed ++ bytes }

def opened (session : Session) (fd : Int) : Option (Fin 8 × Handle) :=
  if bound : (fdBegin : Int) ≤ fd ∧ fd ≤ 7 then
    let index : Fin 8 := ⟨fd.toNat, by omega⟩
    (session.handles index).map fun handle => (index, handle)
  else none

def firstFree (session : Session) : Option (Fin 8) :=
  (List.finRange 8).find? fun fd => decide (fdBegin ≤ fd.val) && (session.handles fd).isNone

def openFile (volume : Volume) (session : Session) (filename : List UInt8) : Reply × Session :=
  match volume.lookup filename, session.firstFree with
  | some node, some fd => (⟨fd.val, []⟩, session.put fd (some (node.handle volume)))
  | _, _ => (⟨-1, []⟩, session)

def read (session : Session) (fd nbytes : Int) : Option (Reply × Session) :=
  if fd = 0 then none
  else
    match session.opened fd with
    | none => some (⟨-1, []⟩, session)
    | some (_, .clock) => some (⟨0, []⟩, session)
    | some (_, .listing []) =>
        if (nameSize : Int) ≤ nbytes then some (⟨0, List.replicate nameSize 0⟩, session) else none
    | some (fd, .listing (name :: names)) =>
        if (nameSize : Int) ≤ nbytes then
          some (⟨name.length, padded name⟩, session.put fd (some (.listing names)))
        else none
    | some (fd, .text content) =>
        if 0 ≤ nbytes ∧ nbytes ≤ reach then
          let bytes := content.take nbytes.toNat
          some (⟨bytes.length, bytes⟩, session.put fd (some (.text (content.drop nbytes.toNat))))
        else none

def write (session : Session) (fd : Int) (bytes : List UInt8) : Reply × Session :=
  if fd = 1 then (⟨bytes.length + 1, []⟩, session.print bytes)
  else
    match session.opened fd with
    | some (_, .clock) => (⟨0, []⟩, session)
    | _ => (⟨-1, []⟩, session)

def close (session : Session) (fd : Int) : Reply × Session :=
  match session.opened fd with
  | some (fd, _) => (⟨0, []⟩, session.put fd none)
  | none => (⟨-1, []⟩, session)

def answer (volume : Volume) (session : Session) : SysCall → Option (Reply × Session)
  | .getargs nbytes =>
      if (session.args.length : Int) < nbytes ∧ nbytes ≤ reach then some (⟨0, session.args ++ [0]⟩, session)
      else none
  | .open filename => if 0 ∈ filename then none else some (session.openFile volume filename)
  | .read fd nbytes => session.read fd nbytes
  | .write fd bytes => some (session.write fd bytes)
  | .close fd => some (session.close fd)

def Answers (volume : Volume) (session : Session) (call : SysCall) (reply : Reply) (later : Session) :
    Prop :=
  ∃ promised, session.answer volume call = some (promised, later) ∧ reply.ret = promised.ret ∧
    promised.bytes <+: reply.bytes ∧ ((∀ nbytes, call ≠ .getargs nbytes) → reply.bytes = promised.bytes)

end Session

end G29Os
