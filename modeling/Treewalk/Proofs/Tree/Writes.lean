import Treewalk.Proofs.Tree.Each

/-!
# The names that code writes

A program gives values to names by assignments and by declarations. This is code that does so only
to names with a property, that of its functions and methods included.

## Main definitions

* `Expr.Writes`, `Stmt.Writes`, `Routine.Writes`

## Main results

* `Stmt.writesAll_of_forall` — if all names have the property, all code is such code
-/

namespace Treewalk

section Definitions

variable (P : String → Prop)

/-- The target of an assignment has the property. -/
def Expr.Assigns : Expr → Prop
  | .assign target _ => P target.name
  | _ => True

/-- All targets of assignments have the property. -/
abbrev Expr.Writes : Expr → Prop := Expr.Each (Expr.Assigns P)

abbrev Expr.WritesAll : List Expr → Prop := Expr.EachAll (Expr.Assigns P)

mutual

/-- All names that are assigned to or declared have the property. -/
def Stmt.Writes : Stmt → Prop
  | .expression value => value.Writes P
  | .print value => value.Writes P
  | .var name none => P name.lexeme
  | .var name (some value) => P name.lexeme ∧ value.Writes P
  | .block body => Stmt.WritesAll body
  | .if condition branch none => condition.Writes P ∧ branch.Writes
  | .if condition branch (some other) => condition.Writes P ∧ branch.Writes ∧ other.Writes
  | .while condition body => condition.Writes P ∧ body.Writes
  | .function routine => P routine.name.lexeme ∧ routine.Writes
  | .return _ none => True
  | .return _ (some value) => value.Writes P
  | .class name _ methods => P name.lexeme ∧ Routine.WritesAll methods

def Stmt.WritesAll : List Stmt → Prop
  | [] => True
  | s :: rest => s.Writes ∧ Stmt.WritesAll rest

/-- The parameters, and all names that the body writes, have the property. -/
def Routine.Writes : Routine → Prop
  | ⟨_, parameters, body⟩ => (∀ t ∈ parameters, P t.lexeme) ∧ Stmt.WritesAll body

def Routine.WritesAll : List Routine → Prop
  | [] => True
  | r :: rest => r.Writes ∧ Routine.WritesAll rest

end

end Definitions

variable {P : String → Prop}

theorem Stmt.writes_if_iff {condition : Expr} {branch : Stmt} {other : Option Stmt} :
    (Stmt.if condition branch other).Writes P ↔
      condition.Writes P ∧ branch.Writes P ∧ ∀ s ∈ other, s.Writes P := by
  cases other <;> simp [Stmt.Writes]

theorem Routine.writes_iff {routine : Routine} : routine.Writes P ↔
    (∀ t ∈ routine.parameters, P t.lexeme) ∧ Stmt.WritesAll P routine.body := by
  cases routine
  rfl

theorem Routine.WritesAll.of_mem {methods : List Routine} (h : Routine.WritesAll P methods)
    {method : Routine} (hmethod : method ∈ methods) : method.Writes P := by
  induction methods with
  | nil => cases hmethod
  | cons first rest ih =>
    obtain rfl | hrest := List.mem_cons.1 hmethod
    · exact h.1
    · exact ih h.2 hrest

/-! ### A property of all names -/

mutual

theorem Expr.writes_of_forall (h : ∀ name, P name) : (e : Expr) → e.Writes P
  | .literal _ | .variable _ | .this _ | .super _ _ => trivial
  | .unary _ operand => ⟨trivial, operand.writes_of_forall h⟩
  | .binary left _ right => ⟨trivial, left.writes_of_forall h, right.writes_of_forall h⟩
  | .logical left _ right => ⟨trivial, left.writes_of_forall h, right.writes_of_forall h⟩
  | .group inner => ⟨trivial, inner.writes_of_forall h⟩
  | .assign _ value => ⟨h _, value.writes_of_forall h⟩
  | .call callee _ arguments =>
    ⟨trivial, callee.writes_of_forall h, Expr.writesAll_of_forall h arguments⟩
  | .property object _ => ⟨trivial, object.writes_of_forall h⟩
  | .setProperty object _ value => ⟨trivial, object.writes_of_forall h, value.writes_of_forall h⟩

theorem Expr.writesAll_of_forall (h : ∀ name, P name) : (es : List Expr) → Expr.WritesAll P es
  | [] => trivial
  | e :: rest => ⟨e.writes_of_forall h, Expr.writesAll_of_forall h rest⟩

end

mutual

theorem Stmt.writes_of_forall (h : ∀ name, P name) : (s : Stmt) → s.Writes P
  | .expression value | .print value | .return _ (some value) => value.writes_of_forall h
  | .var _ none => h _
  | .var _ (some value) => ⟨h _, value.writes_of_forall h⟩
  | .block body => Stmt.writesAll_of_forall h body
  | .if condition branch none => ⟨condition.writes_of_forall h, branch.writes_of_forall h⟩
  | .if condition branch (some other) =>
    ⟨condition.writes_of_forall h, branch.writes_of_forall h, other.writes_of_forall h⟩
  | .while condition body => ⟨condition.writes_of_forall h, body.writes_of_forall h⟩
  | .function routine => ⟨h _, routine.writes_of_forall h⟩
  | .return _ none => trivial
  | .class _ _ methods => ⟨h _, Routine.writesAll_of_forall h methods⟩

theorem Stmt.writesAll_of_forall (h : ∀ name, P name) : (ss : List Stmt) → Stmt.WritesAll P ss
  | [] => trivial
  | s :: rest => ⟨s.writes_of_forall h, Stmt.writesAll_of_forall h rest⟩

theorem Routine.writes_of_forall (h : ∀ name, P name) : (routine : Routine) → routine.Writes P
  | ⟨_, _, body⟩ => ⟨fun _ _ => h _, Stmt.writesAll_of_forall h body⟩

theorem Routine.writesAll_of_forall (h : ∀ name, P name) :
    (routines : List Routine) → Routine.WritesAll P routines
  | [] => trivial
  | r :: rest => ⟨r.writes_of_forall h, Routine.writesAll_of_forall h rest⟩

end

end Treewalk
