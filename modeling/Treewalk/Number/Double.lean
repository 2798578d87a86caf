/-!
# Doubles in exact form

A double is a sign and a 63-bit *pattern*. Read as a natural number, the pattern orders the
non-negative doubles as their values do, so that rounding a ratio to the nearest double is one
division: with `q` the exponent of the last place kept and `m` the rounded mantissa, the pattern is
`(q + 1074) * 2 ^ 52 + m`, and a mantissa that rounds up to `2 ^ 53` carries into the exponent by
itself.

## Main definitions

* `Dyadic` — a non-negative number `mantissa * 2 ^ exponent`
* `Magnitude.ofPattern` — what a pattern stands for
* `nearestPattern` — the pattern of the double nearest to a ratio, a tie going to the even mantissa

## Implementation notes

Everything here is arithmetic on natural numbers, total for all arguments: `nearestPattern` answers
the infinity for a ratio too large for a finite double, and zero for a zero numerator. Powers are
written `Nat.pow`, which is the same definition whatever else gives natural numbers a `^`.
-/

namespace Treewalk.Number

/-- The non-negative number `mantissa * 2 ^ exponent`. -/
structure Dyadic where
  mantissa : Nat
  exponent : Int
deriving DecidableEq, Repr, Inhabited

/-- `n * 2 ^ k`, with a negative `k` counting as zero. A ratio is scaled by a signed power of two
by shifting its numerator or its denominator. -/
def shift (n : Nat) (k : Int) : Nat := n * Nat.pow 2 k.toNat

/-- Numerator of `d` over `Dyadic.denominator d`. -/
def Dyadic.numerator (d : Dyadic) : Nat := shift d.mantissa d.exponent

def Dyadic.denominator (d : Dyadic) : Nat := shift 1 (-d.exponent)

def Dyadic.IsIntegral (d : Dyadic) : Prop := d.numerator % d.denominator = 0

instance (d : Dyadic) : Decidable d.IsIntegral :=
  inferInstanceAs (Decidable (d.numerator % d.denominator = 0))

/-! ### Patterns -/

/-- What a pattern stands for: the absolute value of a double. -/
inductive Magnitude
  | nan
  | infinity
  | finite (value : Dyadic)
deriving DecidableEq, Repr, Inhabited

/-- The pattern of the infinities: a full exponent and an empty mantissa. -/
def infinityPattern : Nat := 2047 * Nat.pow 2 52

/-- Exponent field `0` holds the subnormals, field `2047` the infinity and the NaNs. -/
def Magnitude.ofPattern (pattern : Nat) : Magnitude :=
  let field : Nat := pattern / Nat.pow 2 52
  let fraction := pattern % Nat.pow 2 52
  if field = 0 then .finite ⟨fraction, -1074⟩
  else if field < 2047 then .finite ⟨Nat.pow 2 52 + fraction, (field : Int) - 1075⟩
  else if pattern = infinityPattern then .infinity
  else .nan

/-- A double as its sign and its pattern. -/
structure Signed where
  negative : Bool
  pattern : Nat
deriving DecidableEq, Repr

def Signed.ofFloat (x : Float) : Signed :=
  let bits := x.toBits.toNat
  ⟨Nat.pow 2 63 ≤ bits, bits % Nat.pow 2 63⟩

def Signed.magnitude (x : Signed) : Magnitude := .ofPattern x.pattern

/-! ### Rounding -/

/-- The natural number nearest to `num / den`, a tie going to the even one. -/
def roundHalfEven (num den : Nat) : Nat :=
  let floor := num / den
  let rest := num % den
  if 2 * rest < den then floor
  else if den < 2 * rest then floor + 1
  else floor + floor % 2

/-- The exponent `e` with `2 ^ e ≤ num / den < 2 ^ (e + 1)`, for positive arguments. -/
def binaryOrder (num den : Nat) : Int :=
  let guess : Int := (Nat.log2 num : Int) - Nat.log2 den
  if shift den guess ≤ shift num (-guess) then guess else guess - 1

/-- The pattern of the double nearest to `num / den`, a tie going to the even mantissa. The last
place kept is 52 places below the leading one, and never below `2 ^ (-1074)`. -/
def nearestPattern (num den : Nat) : Nat :=
  if num = 0 then 0
  else
    let place := max (binaryOrder num den - 52) (-1074)
    let mantissa := roundHalfEven (shift num (-place)) (shift den place)
    min ((place + 1074).toNat * Nat.pow 2 52 + mantissa) infinityPattern

/-- The double nearest to `num / den`. -/
def nearest (num den : Nat) : Float := .ofBits (.ofNat (nearestPattern num den))

theorem roundHalfEven_one (n : Nat) : roundHalfEven n 1 = n := by
  simp [roundHalfEven, Nat.mod_one]

theorem nearestPattern_zero (den : Nat) : nearestPattern 0 den = 0 := by
  simp [nearestPattern]

theorem nearestPattern_le (num den : Nat) : nearestPattern num den ≤ infinityPattern := by
  rw [nearestPattern]
  split
  · exact Nat.zero_le _
  · exact Nat.min_le_right _ _

end Treewalk.Number
