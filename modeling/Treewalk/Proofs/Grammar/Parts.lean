import Treewalk.Grammar.Statement

/-!
# Readers cut into parts

Some readers decide in their middle what comes next and go on with the same steps whatever was
decided. Here those decisions are readers of their own, and a reader that takes one is a plain
sequence of steps.

## Main definitions

* `operand` — the operand of an operator
* `noteCount` — the check on the number of arguments or parameters
* `optionalUnless`, `listUnless` — what may be left out before a closing symbol
* `variableInitializer`, `superclassClause`, `loopInitializer` — clauses that may be left out
* `attempt` — a declaration, without what happens if it is abandoned

## Main results

* an equation for each reader that has such a part, named after the reader
-/

namespace Treewalk.Grammar

variable {α β : Type}

/-! ### Parts -/

/-- An operation of a level, or a unary expression. -/
def operand (fuel : Nat) : Option Level → Reading Expr
  | some level => operation fuel level
  | none => unary fuel

/-- Notes down that there are too many of something, if `count` of them stand before this one. -/
def noteCount (count : Nat) (cause : GrammarFault) : Reading Unit := do
  if maxArity ≤ count then report (← peek) cause

/-- What `read` reads, unless `s` comes next. -/
def optionalUnless (s : Symbol) (read : Reading α) : Reading (Option α) := do
  if ← nextIs s then return none else some <$> read

theorem optionalUnless_bind (s : Symbol) (read : Reading α) (next : Option α → Reading β) :
    optionalUnless s read >>= next = (do
      if ← nextIs s then next none else
        let a ← some <$> read
        next a) := by
  rw [optionalUnless, bind_assoc]
  congr 1
  funext b
  cases b <;> rfl

/-- The list that `read` reads, which is empty if `s` comes next. -/
def listUnless (s : Symbol) (read : Reading (List α)) : Reading (List α) := do
  if ← nextIs s then return [] else read

/-- The initializer of a variable, behind an equals sign. -/
def variableInitializer (fuel : Nat) : Reading (Option Expr) := do
  match ← accept? .equal with
  | some _ => some <$> expression fuel
  | none => return none

def superclassClause : Reading (Option Use) := do
  match ← accept? .less with
  | some _ =>
    let name ← expectName .ofSuperclass
    return some ⟨← freshId, name⟩
  | none => return none

/-- The first clause of a `for` loop, with its semicolon. -/
def loopInitializer (fuel : Nat) : Reading (Option Stmt) := do
  match ← accept? .semicolon with
  | some _ => return none
  | none =>
    match ← acceptWord? .var with
    | some _ => some <$> varDeclaration fuel
    | none => some <$> expressionStatement fuel

/-- A declaration or statement, which may be abandoned. -/
def attempt (fuel : Nat) : Reading Stmt := do
  match ← acceptWord? .class with
  | some _ =>
    let (name, superclass) ← classHeader
    let methods ← methods fuel
    let _ ← expect .rightBrace .afterClassBody
    return .class name superclass methods
  | none =>
    match ← acceptWord? .fun with
    | some _ => return .function (← routine fuel .function)
    | none =>
      match ← acceptWord? .var with
      | some _ => varDeclaration fuel
      | none => statement fuel

/-! ### Expressions -/

theorem operation_succ (fuel : Nat) (level : Level) :
    operation (fuel + 1) level = operand fuel level.tighter? >>= operators fuel level := by
  rw [operation]
  cases level.tighter? <;> rfl

theorem operators_succ (fuel : Nat) (level : Level) (left : Expr) :
    operators (fuel + 1) level left = (do
      match ← takeIf? level.holds with
      | none => return left
      | some operator =>
        let right ← operand fuel level.tighter?
        operators fuel level (level.combine left operator right)) := by
  rw [operators]
  congr 1
  funext o
  cases o with
  | none => rfl
  | some => cases level.tighter? <;> rfl

theorem accesses_succ (fuel : Nat) (object : Expr) :
    accesses (fuel + 1) object = (do
      match ← accept? .leftParen with
      | some _ =>
        let values ← listUnless .rightParen (arguments fuel 0)
        let paren ← expect .rightParen .afterArguments
        accesses fuel (.call object paren values)
      | none =>
        match ← accept? .dot with
        | some _ =>
          let name ← expectName .afterDot
          accesses fuel (.property object name)
        | none => return object) := by
  rw [accesses]
  congr 1
  funext o
  cases o with
  | none => rfl
  | some =>
    simp only [listUnless, bind_assoc]
    congr 1
    funext b
    cases b <;> rfl

theorem arguments_succ (fuel count : Nat) :
    arguments (fuel + 1) count = (do
      noteCount count .tooManyArguments
      let argument ← expression fuel
      match ← accept? .comma with
      | some _ => return argument :: (← arguments fuel (count + 1))
      | none => return [argument]) := by
  rw [arguments, noteCount]
  split <;> rfl

/-! ### Statements -/

theorem varDeclaration_eq (fuel : Nat) :
    varDeclaration fuel = (do
      let name ← expectName .ofVariable
      let initializer ← variableInitializer fuel
      let _ ← expect .semicolon .afterVariableDeclaration
      return .var name initializer) := by
  simp only [varDeclaration, variableInitializer, bind_assoc]
  congr 1
  funext name
  congr 1
  funext o
  cases o <;> rfl

theorem returnStatement_eq (fuel : Nat) (keyword : Token) :
    returnStatement fuel keyword = (do
      let value ← optionalUnless .semicolon (expression fuel)
      let _ ← expect .semicolon .afterReturned
      return .return keyword value) := by
  rw [returnStatement, optionalUnless_bind]
  rfl

theorem parameters_succ (fuel count : Nat) :
    parameters (fuel + 1) count = (do
      noteCount count .tooManyParameters
      let parameter ← expectName .ofParameter
      match ← accept? .comma with
      | some _ => return parameter :: (← parameters fuel (count + 1))
      | none => return [parameter]) := by
  rw [parameters, noteCount]
  split <;> rfl

theorem signature_eq (fuel : Nat) (kind : RoutineKind) :
    signature fuel kind = (do
      let name ← expectName (.ofRoutine kind)
      let _ ← expect .leftParen (.afterRoutineName kind)
      let names ← listUnless .rightParen (parameters fuel 0)
      let _ ← expect .rightParen .afterParameters
      let _ ← expect .leftBrace (.beforeRoutineBody kind)
      return (name, names)) := by
  simp only [signature, listUnless, bind_assoc]
  congr 1
  funext name
  congr 1
  funext left
  congr 1
  funext b
  cases b <;> rfl

theorem classHeader_eq :
    classHeader = (do
      let name ← expectName .ofClass
      let superclass ← superclassClause
      let _ ← expect .leftBrace .beforeClassBody
      return (name, superclass)) := by
  simp only [classHeader, superclassClause, bind_assoc]
  congr 1
  funext name
  congr 1
  funext o
  cases o with
  | none => rfl
  | some => simp only [bind_assoc, pure_bind]

theorem loopClauses_eq (fuel : Nat) :
    loopClauses fuel = (do
      let _ ← expect .leftParen .afterFor
      let initializer ← loopInitializer fuel
      let condition ← optionalUnless .semicolon (expression fuel)
      let _ ← expect .semicolon .afterLoopCondition
      let increment ← optionalUnless .rightParen (expression fuel)
      let _ ← expect .rightParen .afterForClauses
      return ⟨initializer, condition, increment⟩) := by
  simp only [loopClauses, loopInitializer, bind_assoc, optionalUnless_bind]
  congr 1
  funext left
  congr 1
  funext o
  cases o with
  | some => rfl
  | none =>
    simp only [bind_assoc]
    congr 1
    funext o
    cases o <;> rfl

theorem declaration_succ (fuel : Nat) : declaration (fuel + 1) = recover (attempt fuel) := by
  rw [declaration]
  rfl

end Treewalk.Grammar
