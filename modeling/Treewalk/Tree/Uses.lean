import Treewalk.Tree.Basic

/-!
# The uses of names in a tree

The uses that can be bound to a scope, in the order in which they stand in the tree: an assignment
before its value, a callee before its arguments, an object before the value it is given, a
superclass before the methods.

## Main definitions

* `Occurrence` — a use and what it is
* `Stmt.occurrencesAll` — the occurrences of a program
-/

namespace Treewalk

inductive OccurrenceKind
  | variable
  | assign
  | this
  | super
deriving DecidableEq, Repr

/-- A use of a name, shown under `label`: a `super` shows the method it asks for. -/
structure Occurrence where
  kind : OccurrenceKind
  use : Use
  label : String

mutual

def Expr.occurrences : Expr → List Occurrence
  | .literal _ => []
  | .unary _ operand => operand.occurrences
  | .binary left _ right => left.occurrences ++ right.occurrences
  | .logical left _ right => left.occurrences ++ right.occurrences
  | .group inner => inner.occurrences
  | .variable use => [⟨.variable, use, use.name⟩]
  | .assign target value => ⟨.assign, target, target.name⟩ :: value.occurrences
  | .call callee _ arguments => callee.occurrences ++ Expr.occurrencesAll arguments
  | .property object _ => object.occurrences
  | .setProperty object _ value => object.occurrences ++ value.occurrences
  | .this use => [⟨.this, use, use.name⟩]
  | .super use method => [⟨.super, use, method.lexeme⟩]

def Expr.occurrencesAll : List Expr → List Occurrence
  | [] => []
  | e :: rest => e.occurrences ++ Expr.occurrencesAll rest

end

mutual

def Stmt.occurrences : Stmt → List Occurrence
  | .expression value => value.occurrences
  | .print value => value.occurrences
  | .var _ none => []
  | .var _ (some value) => value.occurrences
  | .block body => Stmt.occurrencesAll body
  | .if condition thenBranch none => condition.occurrences ++ thenBranch.occurrences
  | .if condition thenBranch (some elseBranch) =>
    condition.occurrences ++ thenBranch.occurrences ++ elseBranch.occurrences
  | .while condition body => condition.occurrences ++ body.occurrences
  | .function routine => routine.occurrences
  | .return _ none => []
  | .return _ (some value) => value.occurrences
  | .class _ none methods => Routine.occurrencesAll methods
  | .class _ (some superclass) methods =>
    ⟨.variable, superclass, superclass.name⟩ :: Routine.occurrencesAll methods

def Stmt.occurrencesAll : List Stmt → List Occurrence
  | [] => []
  | s :: rest => s.occurrences ++ Stmt.occurrencesAll rest

def Routine.occurrences : Routine → List Occurrence
  | ⟨_, _, body⟩ => Stmt.occurrencesAll body

def Routine.occurrencesAll : List Routine → List Occurrence
  | [] => []
  | r :: rest => r.occurrences ++ Routine.occurrencesAll rest

end

end Treewalk
