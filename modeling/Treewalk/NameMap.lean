/-!
# Maps from names

A finite map from names to values, kept as the list of its entries. Setting a name that is bound
replaces its value where it stands, so that no name occurs twice and a map stays as small as the
number of names ever set.

## Main definitions

* `NameMap`, `NameMap.get?`, `NameMap.set`, `NameMap.contains`

## Main results

* `NameMap.get?_set` — a map after setting a name, at any name
-/

namespace Treewalk

structure NameMap (α : Type) where
  entries : List (String × α)
deriving Inhabited

namespace NameMap

variable {α : Type}

def empty : NameMap α := ⟨[]⟩

/-- The value of the first entry for `name`. -/
def entry? (name : String) : List (String × α) → Option α
  | [] => none
  | (key, value) :: rest => if name = key then some value else entry? name rest

def get? (m : NameMap α) (name : String) : Option α := entry? name m.entries

def contains (m : NameMap α) (name : String) : Bool := (m.get? name).isSome

/-- Replaces the value of the first entry for `name`, or adds an entry at the end. -/
def setEntry (name : String) (value : α) : List (String × α) → List (String × α)
  | [] => [(name, value)]
  | (key, old) :: rest =>
    if name = key then (key, value) :: rest else (key, old) :: setEntry name value rest

def set (m : NameMap α) (name : String) (value : α) : NameMap α := ⟨setEntry name value m.entries⟩

/-- Sets several names in order, so that the last entry for a name counts. -/
def ofList (entries : List (String × α)) : NameMap α :=
  entries.foldl (fun m entry => m.set entry.1 entry.2) empty

@[simp] theorem get?_empty (name : String) : (empty : NameMap α).get? name = none := rfl

theorem entry?_setEntry (name other : String) (value : α) (entries : List (String × α)) :
    entry? other (setEntry name value entries) =
      if other = name then some value else entry? other entries := by
  induction entries with
  | nil => rfl
  | cons entry rest ih => grind [setEntry, entry?]

/-- Setting a name changes that name and no other. -/
theorem get?_set (m : NameMap α) (name other : String) (value : α) :
    (m.set name value).get? other = if other = name then some value else m.get? other :=
  entry?_setEntry name other value m.entries

@[simp] theorem get?_set_self (m : NameMap α) (name : String) (value : α) :
    (m.set name value).get? name = some value := by
  simp [get?_set]

theorem get?_set_of_ne (m : NameMap α) {name other : String} (h : other ≠ name) (value : α) :
    (m.set name value).get? other = m.get? other := by
  simp [get?_set, h]

theorem contains_set (m : NameMap α) (name other : String) (value : α) :
    (m.set name value).contains other = (decide (other = name) || m.contains other) := by
  by_cases h : other = name <;> simp [contains, get?_set, h]

end NameMap

end Treewalk
