import Treewalk.Tree.Basic

/-!
# Depth tables

What scope analysis tells the evaluator: for a use of a name, how many scopes out its declaration
stands. A use without an entry belongs to the globals.

## Main definitions

* `DepthTable`, `DepthTable.depth?`, `DepthTable.record`
-/

namespace Treewalk

/-- Entries by node number. Numbers beyond the end have no entry. -/
structure DepthTable where
  entries : Array (Option Nat)
deriving Inhabited

namespace DepthTable

def empty : DepthTable := ⟨#[]⟩

def depth? (t : DepthTable) (id : NodeId) : Option Nat := t.entries[id]?.join

/-- The entries, with empty ones added up to the number `id`. -/
def padded (t : DepthTable) (id : NodeId) : Array (Option Nat) :=
  t.entries ++ Array.replicate (id + 1 - t.entries.size) none

/-- The table with `depth` as the entry for `id`, whatever it was before. -/
def record (t : DepthTable) (id : NodeId) (depth : Nat) : DepthTable :=
  ⟨(t.padded id).setIfInBounds id (some depth)⟩

@[simp] theorem depth?_empty (id : NodeId) : empty.depth? id = none := by simp [empty, depth?]

theorem lt_size_padded (t : DepthTable) (id : Nat) : id < (t.padded id).size := by
  rw [padded, Array.size_append, Array.size_replicate]
  omega

/-- Padding adds no entry. -/
theorem join_getElem?_padded (t : DepthTable) (id other : NodeId) :
    (t.padded id)[other]?.join = t.depth? other := by
  rw [padded, depth?, Array.getElem?_append]
  split
  · rfl
  · next h =>
    rw [Array.getElem?_eq_none (Nat.le_of_not_lt h), Array.getElem?_replicate]
    split <;> rfl

/-- Recording an entry changes that entry and no other. -/
theorem depth?_record (t : DepthTable) (id other depth : Nat) :
    (t.record id depth).depth? other = if other = id then some depth else t.depth? other := by
  rw [← join_getElem?_padded t id other, depth?, record, Array.getElem?_setIfInBounds]
  by_cases h : other = id
  · subst h
    simp [lt_size_padded]
  · simp [h, Ne.symm h]

end DepthTable

end Treewalk
