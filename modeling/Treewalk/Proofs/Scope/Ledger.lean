import Treewalk.Proofs.Scope.Sites

/-!
# The walk over a ledger

`Stmt.analyse` hands the place down and the findings up. Here the same walk is made over one ledger
that changes on the way: scopes are opened and closed again, the kinds of the surrounding function
and class are set and put back, faults are added to a list and depths to a table. Every call of the
walk is kept, with the ledger before and after it.

## Main definitions

* `Ledger` — a place, the faults so far, and the depth table
* `Node`, `Call` — what a call of the walk is about, and the ledgers around it
* `Expr.survey`, `Stmt.survey`, `Routine.survey` — the walk
* `survey` — the walk over a program

## Implementation notes

The walk has one call for an expression, one for a statement, one for a class and one for a routine.
A superclass is walked as the variable that it is.
-/

namespace Treewalk

/-! ### Ledgers -/

/-- The state of the walk. -/
structure Ledger extends Site where
  faults : List Diagnostic
  table : DepthTable

namespace Ledger

/-- The ledger at the top level, before anything was walked. -/
def start (table : DepthTable) : Ledger := { Site.top with faults := [], table }

def beginScope (l : Ledger) : Ledger := { l with scopes := .empty :: l.scopes }

def endScope (l : Ledger) : Ledger := { l with scopes := l.scopes.tail }

def setRoutine (context : RoutineContext) (l : Ledger) : Ledger := { l with routine := context }

def setClass (context : ClassContext) (l : Ledger) : Ledger := { l with classContext := context }

def fault (anchor : Token) (cause : ScopeFault) (l : Ledger) : Ledger :=
  { l with faults := l.faults ++ [.scope anchor cause] }

/-- A name that the innermost scope holds already is a fault and keeps its state. -/
def declare (name : Token) (l : Ledger) : Ledger :=
  match l.scopes with
  | [] => l
  | scope :: outer =>
    if scope.contains name.lexeme then l.fault name .redeclared
    else { l with scopes := scope.set name.lexeme false :: outer }

def define (name : String) (l : Ledger) : Ledger :=
  match l.scopes with
  | [] => l
  | scope :: outer => { l with scopes := scope.set name true :: outer }

/-- Records how many scopes out a name is declared, unless it is a global. -/
def bind (use : Use) (l : Ledger) : Ledger :=
  match l.depth? use.name with
  | some depth => { l with table := l.table.record use.id depth }
  | none => l

/-- Adds findings and moves to a place, as an analysis of a part of the program yields them. -/
def follow (l : Ledger) (result : List Finding × Site) : Ledger where
  toSite := result.2
  faults := l.faults ++ scopeFaults result.1
  table := l.table.recordAll result.1

end Ledger

/-! ### The walk -/

/-- What a call of the walk is about. -/
inductive Node
  | expr (e : Expr)
  | stmt (s : Stmt)
  | class (name : Token) (superclass : Option Use) (methods : List Routine)
  | routine (context : RoutineContext) (routine : Routine)

/-- One call of the walk, from the ledger it is made on to the one it leaves behind. -/
structure Call where
  node : Node
  before : Ledger
  after : Ledger

/-- Work on a ledger. The calls are kept in the order in which they return. -/
abbrev Survey := StateM (Ledger × List Call)

namespace Survey

def ledger : Survey Ledger := do return (← get).1

def change (f : Ledger → Ledger) : Survey Unit := modify fun (l, calls) => (f l, calls)

/-- Does work as the call for a node, which is kept. -/
def logged (node : Node) (work : Survey Unit) : Survey Unit := do
  let before ← ledger
  work
  modify fun (after, calls) => (after, calls ++ [⟨node, before, after⟩])

end Survey

open Survey

def Use.survey (use : Use) : Survey Unit := do
  if (← ledger).isBeingInitialized use.name then
    change (.fault use.token .readInOwnInitializer)
  change (.bind use)

mutual

def Expr.survey (e : Expr) : Survey Unit :=
  logged (.expr e) <| match e with
  | .literal _ => pure ()
  | .unary _ operand => operand.survey
  | .binary left _ right => do left.survey; right.survey
  | .logical left _ right => do left.survey; right.survey
  | .group inner => inner.survey
  | .variable use => use.survey
  | .assign target value => do value.survey; change (.bind target)
  | .call callee _ arguments => do callee.survey; Expr.surveyAll arguments
  | .property object _ => object.survey
  | .setProperty object _ value => do value.survey; object.survey
  | .this use => do
    if (← ledger).classContext = .none then
      change (.fault use.token .thisOutsideClass)
      return
    change (.bind use)
  | .super use _ => do
    match (← ledger).classContext with
    | .none => change (.fault use.token .superOutsideClass)
    | .plain => change (.fault use.token .superWithoutSuperclass)
    | .subclass => pure ()
    change (.bind use)

def Expr.surveyAll : List Expr → Survey Unit
  | [] => pure ()
  | e :: rest => do e.survey; Expr.surveyAll rest

end

def surveyParameters : List Token → Survey Unit
  | [] => pure ()
  | name :: rest => do
    change (.declare name)
    change (.define name.lexeme)
    surveyParameters rest

/-- A `return`, its value apart. -/
def surveyReturn (keyword : Token) (hasValue : Bool) : Survey Unit := do
  if (← ledger).routine = .none then
    change (.fault keyword .returnOutsideFunction)
  if hasValue ∧ (← ledger).routine = .initializer then
    change (.fault keyword .valueFromInitializer)

/-- The superclass clause of the class `name`. The scope of `super` stays open. -/
def surveySuperclass (name : Token) : Option Use → Survey Unit
  | none => pure ()
  | some use => do
    if use.name = name.lexeme then
      change (.fault use.token .selfInheritance)
    change (.setClass .subclass)
    (Expr.variable use).survey
    change .beginScope
    change (.define "super")

mutual

def Stmt.survey (s : Stmt) : Survey Unit :=
  logged (.stmt s) <| match s with
  | .expression value => value.survey
  | .print value => value.survey
  | .var name none => do
    change (.declare name)
    change (.define name.lexeme)
  | .var name (some value) => do
    change (.declare name)
    value.survey
    change (.define name.lexeme)
  | .block body => do
    change .beginScope
    Stmt.surveyAll body
    change .endScope
  | .if condition thenBranch none => do
    condition.survey
    thenBranch.survey
  | .if condition thenBranch (some elseBranch) => do
    condition.survey
    thenBranch.survey
    elseBranch.survey
  | .while condition body => do
    condition.survey
    body.survey
  | .function routine => do
    change (.declare routine.name)
    change (.define routine.name.lexeme)
    routine.survey .function
  | .return keyword none => surveyReturn keyword false
  | .return keyword (some value) => do
    surveyReturn keyword true
    value.survey
  | .class name superclass methods => logged (.class name superclass methods) do
    let enclosing := (← ledger).classContext
    change (.setClass .plain)
    change (.declare name)
    change (.define name.lexeme)
    surveySuperclass name superclass
    change .beginScope
    change (.define "this")
    Routine.surveyAll methods
    change .endScope
    if superclass.isSome then
      change .endScope
    change (.setClass enclosing)

def Stmt.surveyAll : List Stmt → Survey Unit
  | [] => pure ()
  | s :: rest => do s.survey; Stmt.surveyAll rest

/-- The parameters and the body of a routine are one scope. -/
def Routine.survey (context : RoutineContext) (r : Routine) : Survey Unit :=
  logged (.routine context r) <| match r with
  | ⟨_, parameters, body⟩ => do
    let enclosing := (← ledger).routine
    change (.setRoutine context)
    change .beginScope
    surveyParameters parameters
    Stmt.surveyAll body
    change .endScope
    change (.setRoutine enclosing)

def Routine.surveyAll : List Routine → Survey Unit
  | [] => pure ()
  | r :: rest => do r.survey (methodContext r.name); Routine.surveyAll rest

end

/-- The ledger behind a program, and the calls that were made on the way. -/
def survey (program : List Stmt) (table : DepthTable) : Ledger × List Call :=
  ((Stmt.surveyAll program).run (.start table, [])).2

/-- Parts come before the whole: here a variable of a block, and then the block. -/
example (name : Token) : (survey [.block [.var name none]] .empty).2.map
    (fun v => (v.before.scopes.length, v.after.scopes.length)) = [(1, 1), (0, 0)] := rfl

end Treewalk
