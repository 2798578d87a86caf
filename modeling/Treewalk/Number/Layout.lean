import Treewalk.Number.Decimal

/-!
# How numbers are written

Four layouts are in use: for printed values, for the literal column of a token listing, for
literals of a rendered tree, and for numbers of a JSON document. They share the digits and differ
in when the decimal point, the exponent and the sign of a zero are written.

## Main definitions

* `Decimal.positional` — digits with a point and no exponent
* `printed`, `listed`, `rendered`, `json` — the four layouts
-/

namespace Treewalk.Number

/-! ### Parts of a number text -/

def digitText (n : Nat) : String := String.ofList (Nat.toDigits 10 n)

/-- Zeros as needed to write `10 ^ n` or to reach the first digit of a small fraction. -/
def zeros (n : Nat) : List Char := List.replicate n '0'

/-- The digits of `c` around the point, without an exponent: zeros are added behind the digits of a
large number and between the point and the digits of a small one. -/
def Decimal.positional (c : Decimal) : String :=
  let digits := Nat.toDigits 10 c.digits
  let places := (-c.exponent).toNat
  String.ofList <|
    if places = 0 then digits ++ zeros c.exponent.toNat
    else if places < digits.length then
      digits.take (digits.length - places) ++ '.' :: digits.drop (digits.length - places)
    else '0' :: '.' :: zeros (places - digits.length) ++ digits

/-- One digit, a point before the others, and the exponent with its sign. -/
def Decimal.scientific (c : Decimal) : String :=
  let digits := Nat.toDigits 10 c.digits
  let order := c.exponent + (digits.length - 1 : Nat)
  let mantissa := match digits with
    | first :: rest@(_ :: _) => first :: '.' :: rest
    | single => single
  String.ofList mantissa ++ "e" ++ (if order < 0 then "-" else "+") ++ digitText order.natAbs

def sign (negative : Bool) : String := if negative then "-" else ""

/-! ### The layouts -/

/-- The layout of infinities, of NaN (which has no sign) and of numbers with a fraction, common to
values, token listings and trees. -/
def positional (x : Signed) : String :=
  match x.magnitude with
  | .nan => "NaN"
  | .infinity => sign x.negative ++ "inf"
  | .finite d => sign x.negative ++ (shortest .up d x.pattern).positional

/-- Layout of a printed value: a number without fraction shows all digits of the integer it is. -/
def printed (value : Float) : String :=
  let x := Signed.ofFloat value
  match x.magnitude with
  | .finite d =>
    if d.IsIntegral then sign x.negative ++ digitText (d.numerator / d.denominator)
    else positional x
  | _ => positional x

/-- Layout of a literal in a rendered tree: as a printed value, and an integer ends in `.0`. -/
def rendered (value : Float) : String :=
  let x := Signed.ofFloat value
  match x.magnitude with
  | .finite d =>
    if d.IsIntegral then sign x.negative ++ digitText (d.numerator / d.denominator) ++ ".0"
    else positional x
  | _ => positional x

/-- Layout of a literal in a token listing: an integer that fits a signed 64-bit word ends in `.0`
and its zero has no sign; a larger one is padded with zeros behind its shortest digits. -/
def listed (value : Float) : String :=
  let x := Signed.ofFloat value
  match x.magnitude with
  | .finite d =>
    let integer := d.numerator / d.denominator
    if d.IsIntegral ∧ integer < Nat.pow 2 63 then
      sign (x.negative && integer != 0) ++ digitText integer ++ ".0"
    else positional x
  | _ => positional x

/-- Layout of a JSON number: positional from `0.00001` up to `10 ^ 16`, where an integer ends in
`.0`, and with an exponent outside; what JSON cannot write is `null`. -/
def json (value : Float) : String :=
  let x := Signed.ofFloat value
  match x.magnitude with
  | .finite d =>
    let c := shortest .toEven d x.pattern
    let order := c.exponent + (digitCount c.digits - 1 : Nat)
    sign x.negative ++
      if d.mantissa = 0 then "0.0"
      else if order < -5 ∨ 16 ≤ order then c.scientific
      else if 0 ≤ c.exponent then c.positional ++ ".0"
      else c.positional
  | _ => "null"

end Treewalk.Number
