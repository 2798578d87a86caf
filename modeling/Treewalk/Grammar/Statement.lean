import Treewalk.Grammar.Expression

/-!
# Reading statements

A declaration that cannot be read is left out of the tree and reading goes on at the next statement
boundary, so that one pass notes down every mistake. A `for` loop is read as the block and the
`while` loop it stands for.

## Main definitions

* `declaration` — reads a declaration or statement, with recovery
* `loopOf` — the tree of a `for` loop
* `parse` — reads a whole token list
* `Parsed` — the trees, the faults, and the next free node number

## Main results

* `loopOf_initializer`, `loopOf_increment`, `loopOf_condition`, `loopOf_forever` — what each clause
  adds to the tree of a `for` loop
-/

namespace Treewalk.Grammar

/-! ### Statements without statements inside -/

def varDeclaration (fuel : Nat) : Reading Stmt := do
  let name ← expectName .ofVariable
  let initializer ← match ← accept? .equal with
    | some _ => some <$> expression fuel
    | none => pure none
  let _ ← expect .semicolon .afterVariableDeclaration
  return .var name initializer

def expressionStatement (fuel : Nat) : Reading Stmt := do
  let value ← expression fuel
  let _ ← expect .semicolon .afterExpressionStatement
  return .expression value

def printStatement (fuel : Nat) : Reading Stmt := do
  let value ← expression fuel
  let _ ← expect .semicolon .afterPrinted
  return .print value

def returnStatement (fuel : Nat) (keyword : Token) : Reading Stmt := do
  let value ← if ← nextIs .semicolon then pure none else some <$> expression fuel
  let _ ← expect .semicolon .afterReturned
  return .return keyword value

/-- One or more parameters, with `count` parameters before them. -/
def parameters : Nat → Nat → Reading (List Token)
  | 0, _ => throw .exhausted
  | fuel + 1, count => do
    if maxArity ≤ count then report (← peek) .tooManyParameters
    let parameter ← expectName .ofParameter
    match ← accept? .comma with
    | some _ => return parameter :: (← parameters fuel (count + 1))
    | none => return [parameter]

/-- What stands before the body of a function or method: its name and its parameters. -/
def signature (fuel : Nat) (kind : RoutineKind) : Reading (Token × List Token) := do
  let name ← expectName (.ofRoutine kind)
  let _ ← expect .leftParen (.afterRoutineName kind)
  let names ← if ← nextIs .rightParen then pure [] else parameters fuel 0
  let _ ← expect .rightParen .afterParameters
  let _ ← expect .leftBrace (.beforeRoutineBody kind)
  return (name, names)

/-- What stands before the methods of a class: its name and its superclass. -/
def classHeader : Reading (Token × Option Use) := do
  let name ← expectName .ofClass
  let superclass ← match ← accept? .less with
    | some _ =>
      let token ← expectName .ofSuperclass
      pure (some ⟨← freshId, token⟩)
    | none => pure none
  let _ ← expect .leftBrace .beforeClassBody
  return (name, superclass)

/-! ### Loops -/

/-- The clauses of a `for` loop. -/
structure LoopClauses where
  initializer : Option Stmt
  condition : Option Expr
  increment : Option Expr

/-- What stands before the body of a `for` loop. -/
def loopClauses (fuel : Nat) : Reading LoopClauses := do
  let _ ← expect .leftParen .afterFor
  let initializer ← match ← accept? .semicolon with
    | some _ => pure none
    | none =>
      match ← acceptWord? .var with
      | some _ => some <$> varDeclaration fuel
      | none => some <$> expressionStatement fuel
  let condition ← if ← nextIs .semicolon then pure none else some <$> expression fuel
  let _ ← expect .semicolon .afterLoopCondition
  let increment ← if ← nextIs .rightParen then pure none else some <$> expression fuel
  let _ ← expect .rightParen .afterForClauses
  return ⟨initializer, condition, increment⟩

/-- A `for` loop is a `while` loop, in a block of its own behind the initializer; the increment
follows the body in a block of the two. A missing condition is true. -/
def loopOf (clauses : LoopClauses) (body : Stmt) : Stmt :=
  let body := match clauses.increment with
    | some increment => .block [body, .expression increment]
    | none => body
  let loop := .while (clauses.condition.getD (.literal (.boolean true))) body
  match clauses.initializer with
  | some initializer => .block [initializer, loop]
  | none => loop

section loopOf

variable (condition increment : Option Expr) (body : Stmt)

@[simp] theorem loopOf_initializer (initializer : Stmt) :
    loopOf ⟨some initializer, condition, increment⟩ body =
      .block [initializer, loopOf ⟨none, condition, increment⟩ body] := rfl

@[simp] theorem loopOf_increment (increment : Expr) :
    loopOf ⟨none, condition, some increment⟩ body =
      loopOf ⟨none, condition, none⟩ (.block [body, .expression increment]) := rfl

@[simp] theorem loopOf_condition (condition : Expr) :
    loopOf ⟨none, some condition, none⟩ body = .while condition body := rfl

@[simp] theorem loopOf_forever :
    loopOf ⟨none, none, none⟩ body = .while (.literal (.boolean true)) body := rfl

end loopOf

/-! ### Statements with statements inside -/

mutual

/-- A declaration or statement; `none` if it was abandoned. -/
def declaration : Nat → Reading (Option Stmt)
  | 0 => throw .exhausted
  | fuel + 1 => recover do
    match ← acceptWord? .class with
    | some _ =>
      let (name, superclass) ← classHeader
      let methods ← methods fuel
      let _ ← expect .rightBrace .afterClassBody
      return .class name superclass methods
    | none =>
      match ← acceptWord? .fun with
      | some _ => return .function (← routine fuel .function)
      | none =>
        match ← acceptWord? .var with
        | some _ => varDeclaration fuel
        | none => statement fuel

def statement : Nat → Reading Stmt
  | 0 => throw .exhausted
  | fuel + 1 => do
    match ← takeIf? (fun t => t.kind matches .keyword .for | .keyword .if | .keyword .print
        | .keyword .return | .keyword .while | .symbol .leftBrace) with
    | none => expressionStatement fuel
    | some t =>
      match t.kind with
      | .keyword .for =>
        let clauses ← loopClauses fuel
        return loopOf clauses (← statement fuel)
      | .keyword .if =>
        let _ ← expect .leftParen .afterIf
        let condition ← expression fuel
        let _ ← expect .rightParen .afterIfCondition
        let thenBranch ← statement fuel
        match ← acceptWord? .else with
        | some _ => return .if condition thenBranch (some (← statement fuel))
        | none => return .if condition thenBranch none
      | .keyword .print => printStatement fuel
      | .keyword .return => returnStatement fuel t
      | .keyword .while =>
        let _ ← expect .leftParen .afterWhile
        let condition ← expression fuel
        let _ ← expect .rightParen .afterWhileCondition
        return .while condition (← statement fuel)
      | _ => return .block (← block fuel)

/-- Declarations up to a closing brace, and the brace. -/
def block : Nat → Reading (List Stmt)
  | 0 => throw .exhausted
  | fuel + 1 => do
    let body ← declarations fuel
    let _ ← expect .rightBrace .afterBlock
    return body

/-- Declarations up to a closing brace or the end of the input. -/
def declarations : Nat → Reading (List Stmt)
  | 0 => throw .exhausted
  | fuel + 1 => do
    if (← nextIs .rightBrace) || (← atEnd) then return []
    let first ← declaration fuel
    let rest ← declarations fuel
    return first.toList ++ rest

def routine : Nat → RoutineKind → Reading Routine
  | 0, _ => throw .exhausted
  | fuel + 1, kind => do
    let (name, parameters) ← signature fuel kind
    return ⟨name, parameters, ← block fuel⟩

/-- Methods up to a closing brace or the end of the input. -/
def methods : Nat → Reading (List Routine)
  | 0 => throw .exhausted
  | fuel + 1 => do
    if (← nextIs .rightBrace) || (← atEnd) then return []
    let first ← routine fuel .method
    let rest ← methods fuel
    return first :: rest

end

/-! ### Programs -/

/-- Declarations up to the end of the input. -/
def program : Nat → Reading (List Stmt)
  | 0 => throw .exhausted
  | fuel + 1 => do
    if ← atEnd then return []
    let first ← declaration fuel
    let rest ← program fuel
    return first.toList ++ rest

/-- The outcome of reading a token list. `finished` tells that the whole list was read; the trees
are a program only if it was and there are no faults. -/
structure Parsed where
  statements : List Stmt
  faults : List Diagnostic
  nextId : NodeId
  finished : Bool

/-- The program that was read, or the faults. -/
def Parsed.result (p : Parsed) : Except (List Diagnostic) (List Stmt) :=
  if p.finished ∧ p.faults.isEmpty then .ok p.statements else .error p.faults

/-- The token that ends a token list: the first end of input, or one on the line of the last
token. -/
def finishOf (tokens : List Token) : Token :=
  match tokens.find? Token.isEnd with
  | some finish => finish
  | none => ⟨.endOfInput, "", (tokens.getLast?.map Token.line).getD 1⟩

def Cursor.start (tokens : List Token) (firstId : NodeId) : Cursor :=
  ⟨tokens.takeWhile (!·.isEnd), finishOf tokens, firstId, []⟩

/-- Enough fuel for `tokens`: readers nest less than this deep for every token they take. -/
def fuelFor (tokens : List Token) : Nat := 32 * (tokens.length + 1)

/-- Reads the tokens up to the first end of input. Node numbers are given out from `firstId` on. -/
def parse (tokens : List Token) (firstId : NodeId) : Parsed :=
  match program (fuelFor tokens) (.start tokens firstId) with
  | .ok statements c => ⟨statements, c.faults.reverse, c.nextId, true⟩
  | .error (.fault anchor cause) c =>
    ⟨[], (.grammar anchor cause :: c.faults).reverse, c.nextId, true⟩
  | .error .exhausted c => ⟨[], c.faults.reverse, c.nextId, false⟩

end Treewalk.Grammar
