import Treewalk.Tree.Basic

/-!
# All expressions of a tree

A property of expressions, for an expression with all expressions in it, and for all expressions of
a statement, those of the routines declared in it among them.

## Main definitions

* `Expr.Each`, `Stmt.Each`, `Routine.Each`
-/

namespace Treewalk

section Definitions

variable (P : Expr → Prop)

mutual

/-- An expression has the property, and so have the expressions in it. -/
def Expr.Each : Expr → Prop
  | .literal value => P (.literal value)
  | .unary operator operand => P (.unary operator operand) ∧ operand.Each
  | .binary left operator right => P (.binary left operator right) ∧ left.Each ∧ right.Each
  | .logical left operator right => P (.logical left operator right) ∧ left.Each ∧ right.Each
  | .group inner => P (.group inner) ∧ inner.Each
  | .variable use => P (.variable use)
  | .assign target value => P (.assign target value) ∧ value.Each
  | .call callee paren arguments =>
    P (.call callee paren arguments) ∧ callee.Each ∧ Expr.EachAll arguments
  | .property object name => P (.property object name) ∧ object.Each
  | .setProperty object name value => P (.setProperty object name value) ∧ object.Each ∧ value.Each
  | .this use => P (.this use)
  | .super use method => P (.super use method)

def Expr.EachAll : List Expr → Prop
  | [] => True
  | e :: rest => e.Each ∧ Expr.EachAll rest

end

mutual

/-- The expressions of a statement, and of the routines declared in it, have the property. -/
def Stmt.Each : Stmt → Prop
  | .expression value => value.Each P
  | .print value => value.Each P
  | .var _ none => True
  | .var _ (some value) => value.Each P
  | .block body => Stmt.EachAll body
  | .if condition branch none => condition.Each P ∧ branch.Each
  | .if condition branch (some other) => condition.Each P ∧ branch.Each ∧ other.Each
  | .while condition body => condition.Each P ∧ body.Each
  | .function routine => routine.Each
  | .return _ none => True
  | .return _ (some value) => value.Each P
  | .class _ _ methods => Routine.EachAll methods

def Stmt.EachAll : List Stmt → Prop
  | [] => True
  | s :: rest => s.Each ∧ Stmt.EachAll rest

def Routine.Each : Routine → Prop
  | ⟨_, _, body⟩ => Stmt.EachAll body

def Routine.EachAll : List Routine → Prop
  | [] => True
  | r :: rest => r.Each ∧ Routine.EachAll rest

end

end Definitions

variable {P : Expr → Prop}

theorem Expr.Each.self {e : Expr} (h : e.Each P) : P e := by
  cases e with
  | literal | «variable» | this | super => exact h
  | _ => exact h.1

theorem Routine.each_iff {routine : Routine} : routine.Each P ↔ Stmt.EachAll P routine.body := by
  cases routine
  rfl

theorem Routine.EachAll.of_mem {methods : List Routine} (h : Routine.EachAll P methods)
    {method : Routine} (hmethod : method ∈ methods) : method.Each P := by
  induction methods with
  | nil => cases hmethod
  | cons first rest ih =>
    obtain rfl | hrest := List.mem_cons.1 hmethod
    · exact h.1
    · exact ih h.2 hrest

end Treewalk
