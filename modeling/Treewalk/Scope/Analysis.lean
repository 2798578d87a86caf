import Treewalk.Scope.Basic

/-!
# Scope analysis

One walk over a program finds every violation of the scope rules and the depth of every use that
belongs to a scope. What is found is a list, in the order of the walk; the faults and the depth
table are read off it. An expression is walked at a fixed place. A statement may declare names in
the innermost scope, so that its walk also yields the place behind it.

## Main definitions

* `Expr.findings`, `Stmt.analyse`, `Routine.findings` — the walk
* `analyse` — the findings of a program
-/

namespace Treewalk

/-- The finding for reading a variable. A variable cannot be read in its own initializer. -/
def Use.readFindings (site : Site) (use : Use) : List Finding :=
  (if site.isBeingInitialized use.name then [.fault use.token .readInOwnInitializer] else []) ++
    site.bind use

mutual

/-- An assigned value is walked before the name it is assigned to, and before the object whose
property it is assigned to. -/
def Expr.findings (site : Site) : Expr → List Finding
  | .literal _ => []
  | .unary _ operand => operand.findings site
  | .binary left _ right => left.findings site ++ right.findings site
  | .logical left _ right => left.findings site ++ right.findings site
  | .group inner => inner.findings site
  | .variable use => use.readFindings site
  | .assign target value => value.findings site ++ site.bind target
  | .call callee _ arguments => callee.findings site ++ Expr.findingsAll site arguments
  | .property object _ => object.findings site
  | .setProperty object _ value => value.findings site ++ object.findings site
  | .this use =>
    match site.classContext with
    | .none => [.fault use.token .thisOutsideClass]
    | _ => site.bind use
  | .super use _ =>
    match site.classContext with
    | .none => .fault use.token .superOutsideClass :: site.bind use
    | .plain => .fault use.token .superWithoutSuperclass :: site.bind use
    | .subclass => site.bind use

def Expr.findingsAll (site : Site) : List Expr → List Finding
  | [] => []
  | e :: rest => e.findings site ++ Expr.findingsAll site rest

end

/-- Introduces the parameters of a function, one after the other. -/
def Site.introduceAll (site : Site) : List Token → List Finding × Site
  | [] => ([], site)
  | name :: rest =>
    let (first, site) := site.introduce name
    let (others, site) := site.introduceAll rest
    (first ++ others, site)

/-- A scope that holds one name, defined. -/
def Scope.single (name : String) : Scope := NameMap.empty.set name true

/-- What is found in the superclass clause of the class `name`. -/
def superclassFindings (site : Site) (name : Token) (superclass : Use) : List Finding :=
  (if superclass.name = name.lexeme then [.fault superclass.token .selfInheritance] else []) ++
    superclass.readFindings site

/-- The place of the methods of a class: in a scope of `this`, which for a subclass is inside a
scope of `super`. -/
def Site.enterClass (site : Site) (superclass : Option Use) : Site :=
  match superclass with
  | none => { site with classContext := .plain }.enter (.single "this")
  | some _ =>
    ({ site with classContext := .subclass }.enter (.single "super")).enter (.single "this")

/-- What is found in a `return`, its value apart. -/
def returnFindings (site : Site) (keyword : Token) (hasValue : Bool) : List Finding :=
  (if site.routine = .none then [.fault keyword .returnOutsideFunction] else []) ++
    if hasValue ∧ site.routine = .initializer then [.fault keyword .valueFromInitializer] else []

def methodContext (name : Token) : RoutineContext :=
  if name.lexeme = "init" then .initializer else .method

mutual

/-- What is found in a statement, and the place behind it. -/
def Stmt.analyse (site : Site) : Stmt → List Finding × Site
  | .expression value => (value.findings site, site)
  | .print value => (value.findings site, site)
  | .var name none => site.introduce name
  | .var name (some value) =>
    let (declared, inner) := site.declare name
    (declared ++ value.findings inner, inner.define name)
  | .block body => ((Stmt.analyseAll (site.enter .empty) body).1, site)
  | .if condition thenBranch none =>
    let (found, site') := thenBranch.analyse site
    (condition.findings site ++ found, site')
  | .if condition thenBranch (some elseBranch) =>
    let (foundThen, site') := thenBranch.analyse site
    let (foundElse, site'') := elseBranch.analyse site'
    (condition.findings site ++ foundThen ++ foundElse, site'')
  | .while condition body =>
    let (found, site') := body.analyse site
    (condition.findings site ++ found, site')
  | .function routine =>
    let (declared, site) := site.introduce routine.name
    (declared ++ routine.findings site .function, site)
  | .return keyword none => (returnFindings site keyword false, site)
  | .return keyword (some value) =>
    (returnFindings site keyword true ++ value.findings site, site)
  | .class name superclass methods =>
    let (declared, site) := site.introduce name
    let clause := match superclass with
      | none => []
      | some use => superclassFindings site name use
    (declared ++ clause ++ Routine.findingsAll (site.enterClass superclass) methods, site)

def Stmt.analyseAll (site : Site) : List Stmt → List Finding × Site
  | [] => ([], site)
  | s :: rest =>
    let (first, site) := s.analyse site
    let (others, site) := Stmt.analyseAll site rest
    (first ++ others, site)

/-- What is found in the parameters and the body of a function, which are one scope. -/
def Routine.findings (site : Site) (context : RoutineContext) : Routine → List Finding
  | ⟨_, parameters, body⟩ =>
    let (introduced, inner) :=
      ({ site with routine := context }.enter .empty).introduceAll parameters
    introduced ++ (Stmt.analyseAll inner body).1

/-- What is found in the methods of a class. -/
def Routine.findingsAll (site : Site) : List Routine → List Finding
  | [] => []
  | r :: rest => r.findings site (methodContext r.name) ++ Routine.findingsAll site rest

end

/-- The findings of a whole program. -/
def analyse (program : List Stmt) : List Finding := (Stmt.analyseAll .top program).1

def scopeFaults (findings : List Finding) : List Diagnostic :=
  findings.filterMap Finding.diagnostic?

/-- The table with the depths of all findings recorded, in order. -/
def DepthTable.recordAll (table : DepthTable) (findings : List Finding) : DepthTable :=
  findings.foldl Finding.recordIn table

end Treewalk
