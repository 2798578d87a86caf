import Treewalk.Grammar.Cursor

/-!
# Reading expressions

Binary operators stand on six levels, the loosest first; operators of one level associate to the
left. Tighter than all of them are the unary operators and then calls and property accesses. An
assignment is looser than all of them and associates to the right: what stands to the left of the
equals sign is read as an expression first and taken for a target afterwards.

## Main definitions

* `Level` — the levels of binary operators
* `expression` — reads an expression
* `maxArity` — the number of arguments and parameters that is still accepted

## Main results

* `Level.tighter?_eq`, `Level.holds_iff` — the order of the levels, and the operators of each
* `Level.combine_of_holds` — the trees that operators build
-/

namespace Treewalk.Grammar

/-- Levels of binary operators, the loosest first. -/
inductive Level
  | disjunction
  | conjunction
  | equality
  | comparison
  | term
  | factor
deriving DecidableEq, Repr

namespace Level

/-- The next tighter level; behind the last one stand the unary operators. -/
def tighter? : Level → Option Level
  | disjunction => some conjunction
  | conjunction => some equality
  | equality => some comparison
  | comparison => some term
  | term => some factor
  | factor => none

/-- All levels, the loosest first. -/
def all : List Level := [disjunction, conjunction, equality, comparison, term, factor]

theorem mem_all (level : Level) : level ∈ all := by cases level <;> decide

/-- The next tighter level is the next one in the list, and the last one has none. -/
theorem tighter?_eq {level : Level} {i : Nat} (h : all[i]? = some level) :
    level.tighter? = all[i + 1]? := by
  match i with
  | 0 | 1 | 2 | 3 | 4 | 5 =>
    cases h
    rfl
  | i + 6 => cases h

def holds (level : Level) (t : Token) : Bool :=
  match level, t.kind with
  | disjunction, .keyword .or => true
  | conjunction, .keyword .and => true
  | equality, .symbol .bangEqual | equality, .symbol .equalEqual => true
  | comparison, .symbol .greater | comparison, .symbol .greaterEqual => true
  | comparison, .symbol .less | comparison, .symbol .lessEqual => true
  | term, .symbol .minus | term, .symbol .plus => true
  | factor, .symbol .slash | factor, .symbol .star => true
  | _, _ => false

/-- The operators of each level. -/
theorem holds_iff {level : Level} {t : Token} : level.holds t ↔
    match level with
    | disjunction => t.kind = .keyword .or
    | conjunction => t.kind = .keyword .and
    | equality => t.kind = .symbol .bangEqual ∨ t.kind = .symbol .equalEqual
    | comparison => t.kind = .symbol .greater ∨ t.kind = .symbol .greaterEqual ∨
        t.kind = .symbol .less ∨ t.kind = .symbol .lessEqual
    | term => t.kind = .symbol .minus ∨ t.kind = .symbol .plus
    | factor => t.kind = .symbol .slash ∨ t.kind = .symbol .star := by
  obtain ⟨kind, lexeme, line⟩ := t
  cases kind with
  | symbol s => cases s <;> cases level <;> simp [holds]
  | keyword k => cases k <;> cases level <;> simp [holds]
  | _ => cases level <;> simp [holds]

/-- The two loosest levels skip their right operand when the left one decides. -/
def combine (level : Level) (left : Expr) (operator : Token) (right : Expr) : Expr :=
  match level with
  | disjunction | conjunction => .logical left operator right
  | _ => .binary left operator right

/-- The operators `or` and `and` build logical expressions, all other ones build binary ones. -/
theorem combine_of_holds {level : Level} {operator : Token} (h : level.holds operator)
    (left right : Expr) : level.combine left operator right =
      if operator.isKeyword .or || operator.isKeyword .and then .logical left operator right
      else .binary left operator right := by
  have hkind := holds_iff.1 h
  cases level with
  | disjunction | conjunction => simp_all [combine, Token.isKeyword]
  | equality | term | factor =>
    obtain hkind | hkind := hkind <;> simp [combine, Token.isKeyword, hkind]
  | comparison =>
    obtain hkind | hkind | hkind | hkind := hkind <;> simp [combine, Token.isKeyword, hkind]

end Level

def isUnaryOperator (t : Token) : Bool := t.isSymbol .bang || t.isSymbol .minus

theorem isUnaryOperator_iff {t : Token} :
    isUnaryOperator t ↔ t.kind = .symbol .bang ∨ t.kind = .symbol .minus := by
  simp [isUnaryOperator, Token.isSymbol]

/-- The number of arguments or parameters up to which no fault is noted down. -/
def maxArity : Nat := 255

theorem le_maxArity_iff {n : Nat} : n ≤ maxArity ↔ n < 256 := Nat.lt_succ_iff.symm

/-- Turns what was read to the left of an equals sign into an assignment. An expression that is no
target stays as it is. -/
def assignTo (equals : Token) (value : Expr) : Expr → Reading Expr
  | .variable use => do return .assign ⟨← freshId, use.token⟩ value
  | .property object name => return .setProperty object name value
  | other => do
    report equals .invalidAssignmentTarget
    return other

/-- An expression of one token, or of `super` and a method name. -/
def atom? : Reading (Option Expr) := do
  match ← takeIf? (fun t => t.kind matches .keyword .false | .keyword .true | .keyword .nil
      | .number _ | .string _ | .keyword .super | .keyword .this | .identifier) with
  | none => return none
  | some t =>
    match t.kind with
    | .keyword .false => return some (.literal (.boolean false))
    | .keyword .true => return some (.literal (.boolean true))
    | .number value => return some (.literal (.number value))
    | .string text => return some (.literal (.string text))
    | .keyword .super =>
      let _ ← expect .dot .afterSuper
      let method ← expectName .ofSuperMethod
      return some (.super ⟨← freshId, t⟩ method)
    | .keyword .this => return some (.this ⟨← freshId, t⟩)
    | .identifier => return some (.variable ⟨← freshId, t⟩)
    | _ => return some (.literal .nil)

mutual

/-- An expression, which may be an assignment. -/
def expression : Nat → Reading Expr
  | 0 => throw .exhausted
  | fuel + 1 => do
    let left ← operation fuel .disjunction
    match ← accept? .equal with
    | none => return left
    | some equals =>
      let value ← expression fuel
      assignTo equals value left

/-- Operands of the next tighter level, with operators of `level` between them. -/
def operation : Nat → Level → Reading Expr
  | 0, _ => throw .exhausted
  | fuel + 1, level => do
    let left ← match level.tighter? with
      | some tighter => operation fuel tighter
      | none => unary fuel
    operators fuel level left

/-- The operators of `level` behind `left`, each with its right operand. -/
def operators : Nat → Level → Expr → Reading Expr
  | 0, _, _ => throw .exhausted
  | fuel + 1, level, left => do
    match ← takeIf? level.holds with
    | none => return left
    | some operator =>
      let right ← match level.tighter? with
        | some tighter => operation fuel tighter
        | none => unary fuel
      operators fuel level (level.combine left operator right)

def unary : Nat → Reading Expr
  | 0 => throw .exhausted
  | fuel + 1 => do
    match ← takeIf? isUnaryOperator with
    | some operator => return .unary operator (← unary fuel)
    | none =>
      let callee ← primary fuel
      accesses fuel callee

/-- The calls and property accesses behind `object`. -/
def accesses : Nat → Expr → Reading Expr
  | 0, _ => throw .exhausted
  | fuel + 1, object => do
    match ← accept? .leftParen with
    | some _ =>
      let values ← if ← nextIs .rightParen then pure [] else arguments fuel 0
      let paren ← expect .rightParen .afterArguments
      accesses fuel (.call object paren values)
    | none =>
      match ← accept? .dot with
      | some _ =>
        let name ← expectName .afterDot
        accesses fuel (.property object name)
      | none => return object

/-- One or more arguments, with `count` arguments before them. -/
def arguments : Nat → Nat → Reading (List Expr)
  | 0, _ => throw .exhausted
  | fuel + 1, count => do
    if maxArity ≤ count then report (← peek) .tooManyArguments
    let argument ← expression fuel
    match ← accept? .comma with
    | some _ => return argument :: (← arguments fuel (count + 1))
    | none => return [argument]

def primary : Nat → Reading Expr
  | 0 => throw .exhausted
  | fuel + 1 => do
    match ← atom? with
    | some e => return e
    | none =>
      match ← accept? .leftParen with
      | some _ =>
        let inner ← expression fuel
        let _ ← expect .rightParen .afterGroup
        return .group inner
      | none => fail .missingExpression

end

end Treewalk.Grammar
