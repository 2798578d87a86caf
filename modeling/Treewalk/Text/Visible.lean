import Treewalk.Text.Extending
import Treewalk.Text.Unassigned

/-!
# Visible characters

A character is visible if it shows as something of its own wherever it stands: it is no control or
format character and no separator, it is not meant to be ignored, it does not merge with the
character before it, and its meaning is settled. The space is the one separator that counts as
visible. All properties are those of Unicode 17.0.

## Main definitions

* `controls`, `separators`, `formats`, `privateUse`, `ignorable` — the properties with few ranges
* `isVisible`

## Main results

* `isVisible_ascii` — the visible ones of the first 128 characters
-/

namespace Treewalk.Text

/-- The general category `Cc`. -/
def controls : List CodeRange := [⟨0x0, 0x1f⟩, ⟨0x7f, 0x9f⟩]

/-- The general categories `Zs`, `Zl` and `Zp`, the space apart. -/
def separators : List CodeRange :=
  [⟨0xa0, 0xa0⟩, ⟨0x1680, 0x1680⟩, ⟨0x2000, 0x200a⟩, ⟨0x2028, 0x2029⟩, ⟨0x202f, 0x202f⟩,
   ⟨0x205f, 0x205f⟩, ⟨0x3000, 0x3000⟩]

/-- The general category `Cf`. -/
def formats : List CodeRange :=
  [⟨0xad, 0xad⟩, ⟨0x600, 0x605⟩, ⟨0x61c, 0x61c⟩, ⟨0x6dd, 0x6dd⟩, ⟨0x70f, 0x70f⟩, ⟨0x890, 0x891⟩,
   ⟨0x8e2, 0x8e2⟩, ⟨0x180e, 0x180e⟩, ⟨0x200b, 0x200f⟩, ⟨0x202a, 0x202e⟩, ⟨0x2060, 0x2064⟩,
   ⟨0x2066, 0x206f⟩, ⟨0xfeff, 0xfeff⟩, ⟨0xfff9, 0xfffb⟩, ⟨0x110bd, 0x110bd⟩, ⟨0x110cd, 0x110cd⟩,
   ⟨0x13430, 0x1343f⟩, ⟨0x1bca0, 0x1bca3⟩, ⟨0x1d173, 0x1d17a⟩, ⟨0xe0001, 0xe0001⟩,
   ⟨0xe0020, 0xe007f⟩]

/-- The general category `Co`. -/
def privateUse : List CodeRange := [⟨0xe000, 0xf8ff⟩, ⟨0xf0000, 0xffffd⟩, ⟨0x100000, 0x10fffd⟩]

/-- The property `Default_Ignorable_Code_Point`: left blank where they have no effect. -/
def ignorable : List CodeRange :=
  [⟨0xad, 0xad⟩, ⟨0x34f, 0x34f⟩, ⟨0x61c, 0x61c⟩, ⟨0x115f, 0x1160⟩, ⟨0x17b4, 0x17b5⟩,
   ⟨0x180b, 0x180f⟩, ⟨0x200b, 0x200f⟩, ⟨0x202a, 0x202e⟩, ⟨0x2060, 0x206f⟩, ⟨0x3164, 0x3164⟩,
   ⟨0xfe00, 0xfe0f⟩, ⟨0xfeff, 0xfeff⟩, ⟨0xffa0, 0xffa0⟩, ⟨0xfff0, 0xfff8⟩, ⟨0x1bca0, 0x1bca3⟩,
   ⟨0x1d173, 0x1d17a⟩, ⟨0xe0000, 0xe0fff⟩]

/-- The properties, that of the controls apart, that keep a character from being visible. -/
def elusive : List (List CodeRange) :=
  [separators, formats, privateUse, ignorable, extending, unassigned]

def isVisible (c : Char) : Bool :=
  !CodeRange.anyHolds controls c.toNat && !elusive.any (CodeRange.anyHolds · c.toNat)

/-- The ranges of all of them are in order. -/
theorem ascending_of_mem_elusive : ∀ ranges ∈ elusive, CodeRange.ascending ranges := by
  simp only [elusive, List.forall_mem_cons, ascending_extending, ascending_unassigned]
  decide

/-- All but the controls begin behind the first 128 code points. -/
theorem le_first_of_mem_elusive : ∀ ranges ∈ elusive, ∀ r ∈ ranges.head?, 128 ≤ r.first := by
  decide

/-- Of the first 128 characters, those from the space to the tilde are visible. -/
theorem isVisible_ascii {c : Char} (h : c.toNat < 128) :
    isVisible c = (0x20 ≤ c.toNat && c.toNat ≤ 0x7e) := by
  have none : elusive.any (CodeRange.anyHolds · c.toNat) = false := by
    rw [List.any_eq_false]
    intro ranges hm
    have hfirst : ∀ r ∈ ranges.head?, c.toNat < r.first := fun r hr =>
      Nat.lt_of_lt_of_le h (le_first_of_mem_elusive ranges hm r hr)
    rw [CodeRange.anyHolds_eq_false (ascending_of_mem_elusive ranges hm) hfirst]
    exact Bool.false_ne_true
  rw [isVisible, none, Bool.not_false, Bool.and_true, Bool.eq_iff_iff]
  simp only [CodeRange.anyHolds, controls, CodeRange.holds, List.any_cons, List.any_nil,
    Bool.or_false, Bool.and_eq_true, Bool.not_eq_true', Bool.or_eq_false_iff, Bool.and_eq_false_iff,
    decide_eq_false_iff_not, decide_eq_true_eq]
  omega

end Treewalk.Text
