import Treewalk.Diagnostic
import Treewalk.Value.Basic

/-!
# Operators

What unary and binary operators do with values. A binary operator that is not an addition or a
comparison for equality wants numbers on both sides, and says so before it is asked whether it is an
operator at all.

## Main definitions

* `Value.applyUnary`, `Value.applyBinary`
* `Value.decides` — when the left operand of a logical operator is the result
-/

namespace Treewalk.Value

def applyUnary (operator : Kind) (operand : Value) : Except RuntimeFault Value :=
  match operator, operand with
  | .symbol .minus, .number x => .ok (.number (-x))
  | .symbol .minus, _ => .error .operandNotNumber
  | .symbol .bang, v => .ok (.boolean !v.isTruthy)
  | _, _ => .error .invalidUnaryOperator

/-- Operators on two numbers. -/
def applyNumeric (operator : Kind) (a b : Float) : Except RuntimeFault Value :=
  match operator with
  | .symbol .minus => .ok (.number (a - b))
  | .symbol .star => .ok (.number (a * b))
  | .symbol .slash => .ok (.number (a / b))
  | .symbol .greater => .ok (.boolean (decide (a > b)))
  | .symbol .greaterEqual => .ok (.boolean (decide (a ≥ b)))
  | .symbol .less => .ok (.boolean (decide (a < b)))
  | .symbol .lessEqual => .ok (.boolean (decide (a ≤ b)))
  | _ => .error .invalidBinaryOperator

/-- Addition of numbers, and concatenation of strings. -/
def add (left right : Value) : Except RuntimeFault Value :=
  match left, right with
  | .number a, .number b => .ok (.number (a + b))
  | .string a, .string b => .ok (.string (a ++ b))
  | _, _ => .error .operandsNotAddable

def applyBinary (operator : Kind) (left right : Value) : Except RuntimeFault Value :=
  match operator with
  | .symbol .plus => add left right
  | .symbol .equalEqual => .ok (.boolean (left.equals right))
  | .symbol .bangEqual => .ok (.boolean !left.equals right)
  | operator =>
    match left, right with
    | .number a, .number b => applyNumeric operator a b
    | _, _ => .error .operandsNotNumbers

/-- Whether the left operand of a logical operator is its result, so that the right one is not
evaluated. Every operator but `or` behaves as `and`. -/
def decides (operator : Kind) (left : Value) : Bool :=
  if operator = .keyword .or then left.isTruthy else !left.isTruthy

end Treewalk.Value
