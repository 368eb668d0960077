import Mathlib.Algebra.GroupWithZero.Nat
import Mathlib.Logic.Function.Basic
import Mathlib.Tactic.Common

/-!
The page directories and tables of `paging.c`, one of each per process slot, and the walk
that the processor makes over them. Addresses and bit fields are natural numbers.
-/

namespace G29Os

abbrev Slot := Fin 6

instance Slot.neZero : NeZero 6 := ⟨by decide⟩

def mb4 : Nat := 4194304

def mb128 : Nat := 134217728

def addrShift : Nat := 12

structure PageTableEntry where
  present : Bool
  readwrite : Bool
  usersupervisor : Bool
  writeThrough : Bool
  cache : Bool
  accessed : Bool
  dirty : Bool
  reserved : Bool
  global : Bool
  avail1 : Bool
  avail2 : Bool
  avail3 : Bool
  pageAddr : Nat

structure PageDirEntry where
  present : Bool
  readwrite : Bool
  usersupervisor : Bool
  writeThrough : Bool
  cache : Bool
  accessed : Bool
  reserved : Bool
  pagesize : Bool
  global : Bool
  avail1 : Bool
  avail2 : Bool
  avail3 : Bool
  pageAddr : Nat

/-- The two arrays and the frame number at which the linker put `page_table`. -/
structure PageTables where
  tableFrame : Nat
  pageDirectory : Slot → Nat → PageDirEntry
  pageTable : Slot → Nat → PageTableEntry

def tableEntry (frame : Nat) : PageTableEntry where
  present := true
  readwrite := true
  usersupervisor := true
  writeThrough := true
  cache := true
  accessed := false
  dirty := false
  reserved := false
  global := false
  avail1 := false
  avail2 := false
  avail3 := false
  pageAddr := frame

def dirEntry (frame : Nat) (pagesize : Bool) : PageDirEntry where
  present := true
  readwrite := true
  usersupervisor := true
  writeThrough := true
  cache := true
  accessed := false
  reserved := false
  pagesize := pagesize
  global := false
  avail1 := false
  avail2 := false
  avail3 := false
  pageAddr := frame

namespace PageTables

def setTable (pid : Slot) (index : Nat) (entry : PageTableEntry) (tables : PageTables) :
    PageTables :=
  { tables with
    pageTable := Function.update tables.pageTable pid
      (Function.update (tables.pageTable pid) index entry) }

def setDirectory (pid : Slot) (index : Nat) (entry : PageDirEntry) (tables : PageTables) :
    PageTables :=
  { tables with
    pageDirectory := Function.update tables.pageDirectory pid
      (Function.update (tables.pageDirectory pid) index entry) }

/-- The entry points to `&page_table`, the table of slot 0, whatever `pid` is. -/
def page4kb (physaddr virtualaddr : Nat) (pid : Slot) (tables : PageTables) : PageTables :=
  setDirectory pid (virtualaddr / mb4) (dirEntry tables.tableFrame false)
    (setTable pid (virtualaddr % mb4 / 4096) (tableEntry (physaddr >>> addrShift)) tables)

def page4mb (physaddr virtualaddr : Nat) (pid : Slot) (tables : PageTables) : PageTables :=
  setDirectory pid (virtualaddr / mb4) (dirEntry (physaddr >>> addrShift) true) tables

def addPage (physicalAddr : Nat) (pid : Slot) (tables : PageTables) : PageTables :=
  page4mb physicalAddr mb128 pid tables

def pageKernel (pid : Slot) : Nat → PageTables → PageTables
  | 0, tables => tables
  | count + 1, tables =>
      page4kb ((count + 1) * 4096) ((count + 1) * 4096) pid (pageKernel pid count tables)

def kernelPages : Nat := 1023

def mapKernel (tables : PageTables) (pid : Slot) : PageTables :=
  page4mb mb4 mb4 pid (pageKernel pid kernelPages tables)

def pagingInit (tables : PageTables) : PageTables := (List.finRange 6).foldl mapKernel tables

def tableAt (tables : PageTables) (frame : Nat) : Option (Nat → PageTableEntry) :=
  if bound : tables.tableFrame ≤ frame ∧ frame - tables.tableFrame < 6 then
    some (tables.pageTable ⟨frame - tables.tableFrame, bound.2⟩)
  else none

def walk (tables : PageTables) (pid : Slot) (v : Nat) : Option Nat :=
  let entry := tables.pageDirectory pid (v / mb4 % 1024)
  if entry.present then
    if entry.pagesize then some (entry.pageAddr / 1024 * mb4 + v % mb4)
    else (tables.tableAt entry.pageAddr).bind fun table =>
      let page := table (v % mb4 / 4096)
      if page.present then some (page.pageAddr * 4096 + v % 4096) else none
  else none

end PageTables

end G29Os
