/-!
# Ranges of code points

A property of characters is kept as the list of the ranges of code points that have it.

## Main definitions

* `CodeRange`, `CodeRange.holds`
* `CodeRange.anyHolds` — membership in a list of ranges
* `CodeRange.ascending` — what a list of ranges is checked for

## Main results

* `CodeRange.anyHolds_eq_false` — an ascending list holds nothing before its first range
-/

namespace Treewalk.Text

/-- The code points from `first` to `last`, both included. -/
structure CodeRange where
  first : Nat
  last : Nat
deriving DecidableEq, Repr

namespace CodeRange

def holds (r : CodeRange) (code : Nat) : Bool := r.first ≤ code && code ≤ r.last

def anyHolds (ranges : List CodeRange) (code : Nat) : Bool := ranges.any (·.holds code)

/-- No range is empty, and a gap is between each of them and the next. -/
def ascending : List CodeRange → Bool
  | [] => true
  | [r] => r.first ≤ r.last
  | r :: next :: rest =>
    r.first ≤ r.last && r.last + 1 < next.first && ascending (next :: rest)

theorem holds_eq_false {r : CodeRange} {code : Nat} (h : code < r.first) :
    r.holds code = false := by
  simp only [holds, Bool.and_eq_false_iff, decide_eq_false_iff_not]
  omega

/-- What follows a range in an ascending list starts behind it. -/
theorem lt_first_of_ascending {r : CodeRange} {rest : List CodeRange}
    (h : ascending (r :: rest)) : ascending rest ∧ ∀ next ∈ rest.head?, r.first < next.first := by
  cases rest with
  | nil => exact ⟨rfl, nofun⟩
  | cons next rest =>
    simp only [ascending, Bool.and_eq_true, decide_eq_true_eq] at h
    obtain ⟨⟨hr, hgap⟩, hrest⟩ := h
    refine ⟨hrest, fun next' hnext => ?_⟩
    cases hnext
    omega

/-- An ascending list of ranges holds no code point before its first range. -/
theorem anyHolds_eq_false {ranges : List CodeRange} {code : Nat} (h : ascending ranges)
    (hfirst : ∀ r ∈ ranges.head?, code < r.first) : anyHolds ranges code = false := by
  induction ranges with
  | nil => rfl
  | cons r rest ih =>
    obtain ⟨hrest, hnext⟩ := lt_first_of_ascending h
    have hr : code < r.first := hfirst r rfl
    rw [anyHolds, List.any_cons, holds_eq_false hr, Bool.false_or]
    exact ih hrest fun next hmem => Nat.lt_trans hr (hnext next hmem)

end CodeRange

end Treewalk.Text
