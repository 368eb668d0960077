import G29Os.BitFields

/-!
The walk of a 32-bit processor from a page directory in memory, with pages of 4 KB and 4 MB.
-/

namespace PageWalk

open BitFields

structure Page where
  address : Nat
  writable : Bool
  user : Bool
  deriving DecidableEq

def directoryWord (words : Nat → Nat) (cr3 v : Nat) : Nat := words (cr3 + 4 * (v / 4194304 % 1024))

def tableWord (words : Nat → Nat) (entry v : Nat) : Nat :=
  words (extract 12 20 entry * 4096 + 4 * (v / 4096 % 1024))

def large (entry v : Nat) : Page where
  address := extract 22 10 entry * 4194304 + v % 4194304
  writable := bit 1 entry
  user := bit 2 entry

def small (entry page v : Nat) : Page where
  address := extract 12 20 page * 4096 + v % 4096
  writable := bit 1 entry && bit 1 page
  user := bit 2 entry && bit 2 page

/-- `words` is memory by its aligned addresses. The bits 13 to 21 of an entry for 4 MB are
reserved, and set they fault. -/
def translate (words : Nat → Nat) (cr3 v : Nat) : Option Page :=
  let entry := directoryWord words cr3 v
  if bit 0 entry then
    if bit 7 entry then
      if extract 13 9 entry = 0 then some (large entry v) else none
    else
      let page := tableWord words entry v
      if bit 0 page then some (small entry page v) else none
  else none

section Walk

variable {words : Nat → Nat} {cr3 v entry page : Nat}

theorem translate_absent (at_entry : directoryWord words cr3 v = entry) (absent : bit 0 entry = false) :
    translate words cr3 v = none := by
  simp only [translate, at_entry, absent, Bool.false_eq_true, if_false]

theorem translate_large (at_entry : directoryWord words cr3 v = entry) (present : bit 0 entry = true)
    (size : bit 7 entry = true) (reserved : extract 13 9 entry = 0) :
    translate words cr3 v = some (large entry v) := by
  simp only [translate, at_entry, present, size, reserved, if_true]

theorem translate_small (at_entry : directoryWord words cr3 v = entry) (present : bit 0 entry = true)
    (size : bit 7 entry = false) (at_page : tableWord words entry v = page) :
    translate words cr3 v = if bit 0 page then some (small entry page v) else none := by
  simp only [translate, at_entry, present, size, at_page, if_true, Bool.false_eq_true, if_false]

end Walk

/-- Two words that differ at most in bits that the walk does not read, among them those that the processor
sets. -/
structure SameWalk (word other : Nat) : Prop where
  present : bit 0 word = bit 0 other
  writable : bit 1 word = bit 1 other
  user : bit 2 word = bit 2 other
  size : bit 7 word = bit 7 other
  address : extract 12 20 word = extract 12 20 other

namespace SameWalk

variable {word other page page' : Nat}

theorem refl (word : Nat) : SameWalk word word := ⟨rfl, rfl, rfl, rfl, rfl⟩

theorem reserved (same : SameWalk word other) : extract 13 9 word = extract 13 9 other := by
  rw [extract_low 13 9 10, extract_low 13 9 10 other, extract_high 12 1 19 word, extract_high 12 1 19 other,
    same.address]

theorem large (same : SameWalk word other) (v : Nat) : PageWalk.large word v = PageWalk.large other v := by
  have frame : extract 22 10 word = extract 22 10 other := by
    rw [extract_high 12 10 10 word, extract_high 12 10 10 other, same.address]
  rw [PageWalk.large, PageWalk.large, frame, same.writable, same.user]

theorem tableWord (same : SameWalk word other) (words : Nat → Nat) (v : Nat) :
    PageWalk.tableWord words word v = PageWalk.tableWord words other v := by
  rw [PageWalk.tableWord, PageWalk.tableWord, same.address]

theorem small (same : SameWalk word other) (same' : SameWalk page page') (v : Nat) :
    PageWalk.small word page v = PageWalk.small other page' v := by
  rw [PageWalk.small, PageWalk.small, same'.address, same.writable, same.user, same'.writable, same'.user]

end SameWalk

end PageWalk
