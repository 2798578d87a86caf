import Treewalk.Number.Double

/-!
# Decimals and the shortest decimal that reads back

A finite double is written with the fewest significant digits that still read back as the same
double, and of the decimals with that many digits the nearest one. On the grid of the multiples of
`10 ^ k` only the two neighbours of the double can be candidates: if any point of the grid reads
back, one of them does.

## Main definitions

* `Decimal` — `digits * 10 ^ exponent`
* `Decimal.nearestPattern` — the double a decimal reads as
* `shortest` — the decimal a double is written as

## Implementation notes

Grids are tried from one digit to seventeen, coarse before fine. Should none hold a decimal that
reads back, the exact expansion is taken, so that `shortest` needs no bound on the digits to be
right.
-/

namespace Treewalk.Number

/-- The non-negative number `digits * 10 ^ exponent`. -/
structure Decimal where
  digits : Nat
  exponent : Int
deriving DecidableEq, Repr, Inhabited

/-- Number of digits of `n` in base ten; zero has one. -/
def digitCount (n : Nat) : Nat := (Nat.toDigits 10 n).length

def Decimal.numerator (c : Decimal) : Nat := c.digits * Nat.pow 10 c.exponent.toNat

def Decimal.denominator (c : Decimal) : Nat := Nat.pow 10 (-c.exponent).toNat

/-- The pattern of the double nearest to a decimal. -/
def Decimal.nearestPattern (c : Decimal) : Nat :=
  Number.nearestPattern c.numerator c.denominator

def Decimal.ReadsAs (c : Decimal) (pattern : Nat) : Prop := c.nearestPattern = pattern

instance (c : Decimal) (pattern : Nat) : Decidable (c.ReadsAs pattern) :=
  inferInstanceAs (Decidable (c.nearestPattern = pattern))

/-- All digits of a dyadic number: a negative power of two is a power of five over one of ten. -/
def Dyadic.expand (d : Dyadic) : Decimal :=
  if 0 ≤ d.exponent then ⟨shift d.mantissa d.exponent, 0⟩
  else ⟨d.mantissa * Nat.pow 5 (-d.exponent).toNat, d.exponent⟩

/-- The exponent `e` with `10 ^ e ≤ num / den < 10 ^ (e + 1)`, for positive arguments. -/
def decimalOrder (num den : Nat) : Int :=
  if den ≤ num then (digitCount (num / den) : Int) - 1
  else -(digitCount ((den - 1) / num) : Int)

/-- Which neighbour is taken when a double lies exactly between two decimals that both read back. -/
inductive Tie
  | up
  | toEven
deriving DecidableEq, Repr

/-- Of the multiples of `10 ^ place` on both sides of `num / den`, the nearest that reads as
`pattern`. -/
def onGrid? (tie : Tie) (num den pattern : Nat) (place : Int) : Option Decimal :=
  let num' := num * Nat.pow 10 (-place).toNat
  let den' := den * Nat.pow 10 place.toNat
  let below : Decimal := ⟨num' / den', place⟩
  let above : Decimal := ⟨num' / den' + 1, place⟩
  let rest := num' % den'
  let preferAbove : Bool := match tie with
    | .up => den' ≤ 2 * rest
    | .toEven => den' < 2 * rest || (den' == 2 * rest && below.digits % 2 == 1)
  let (first, second) := if preferAbove then (above, below) else (below, above)
  if first.ReadsAs pattern then some first
  else if second.ReadsAs pattern then some second
  else none

/-- Drops the zeros at the end of the digits; `fuel` bounds their number. -/
def Decimal.trim : Nat → Decimal → Decimal
  | 0, c => c
  | fuel + 1, c =>
    if c.digits ≠ 0 ∧ c.digits % 10 = 0 then trim fuel ⟨c.digits / 10, c.exponent + 1⟩ else c

/-- The fewest digits that read back as `d`, whose pattern is `pattern`; no zero ends them. -/
def shortest (tie : Tie) (d : Dyadic) (pattern : Nat) : Decimal :=
  if d.mantissa = 0 then ⟨0, 0⟩
  else
    let order := decimalOrder d.numerator d.denominator
    let onGrid := fun (digits : Nat) =>
      onGrid? tie d.numerator d.denominator pattern (order - digits)
    let found := ((List.range 17).findSome? onGrid).getD d.expand
    found.trim (digitCount found.digits)

theorem readsAs_of_onGrid? {tie : Tie} {num den pattern : Nat} {place : Int} {c : Decimal}
    (h : onGrid? tie num den pattern place = some c) : c.ReadsAs pattern := by
  grind [onGrid?.eq_def]

end Treewalk.Number
