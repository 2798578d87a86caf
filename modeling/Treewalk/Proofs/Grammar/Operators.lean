import Treewalk.Proofs.Grammar.Phrase
import Treewalk.Proofs.Tree.Each

/-!
# The operators of a program

A unary expression of a program has a unary operator, and a binary one an operator of the level it
was read on. Nothing else in a tree tells so: a tree may have any token for an operator.

## Main definitions

* `Expr.OperatorFits` — the operator of an expression is one of its kind

## Main results

* `Grammar.StmtPhrase.Derives.operatorsFit` — all operators of a program fit
-/

namespace Treewalk

open Grammar

/-- If the expression has an operator, it is one of its kind. -/
def Expr.OperatorFits : Expr → Prop
  | .unary operator _ => isUnaryOperator operator
  | .binary _ operator _ =>
    ∃ level : Level, level.holds operator ∧ level ≠ .disjunction ∧ level ≠ .conjunction
  | .logical _ operator _ => Level.disjunction.holds operator ∨ Level.conjunction.holds operator
  | _ => True

abbrev Expr.OperatorsFit : Expr → Prop := Expr.Each Expr.OperatorFits

abbrev Stmt.OperatorsFit : Stmt → Prop := Stmt.Each Expr.OperatorFits

namespace Grammar

variable {w : List Token}

/-! ### Expressions -/

theorem Level.operatorsFit_combine {level : Level} {left right : Expr} {operator : Token}
    (hleft : left.OperatorsFit) (hoperator : level.holds operator) (hright : right.OperatorsFit) :
    (level.combine left operator right).OperatorsFit := by
  cases level with
  | disjunction => exact ⟨.inl hoperator, hleft, hright⟩
  | conjunction => exact ⟨.inr hoperator, hleft, hright⟩
  | equality | comparison | term | factor => exact ⟨⟨_, hoperator, nofun, nofun⟩, hleft, hright⟩

/-- What is built behind an operand or an object has its operators, and those of the operand or
object. -/
def ExprPhrase.OperatorsFit : (p : ExprPhrase) → p.Tree → Prop
  | .operators _ left, e | .accesses left, e => left.OperatorsFit → e.OperatorsFit
  | .arguments, es => Expr.EachAll Expr.OperatorFits es
  | .expression, e | .operand _, e | .call, e | .primary, e => e.OperatorsFit

theorem ExprPhrase.Derives.operatorsFit {p : ExprPhrase} {e : p.Tree} (h : p.Derives w e) :
    p.OperatorsFit e := by
  induction h with
  | assignVariable hname hequals hvalue ih => exact ⟨trivial, ih⟩
  | assignProperty hobject hdot hname hequals hvalue ih ih' => exact ⟨trivial, ih, ih'⟩
  | loosest h ih | plain h ih => exact ih
  | operation hleft hrest ih ih' | call hleft hrest ih ih' => exact ih' ih
  | noOperator | noAccess => exact id
  | operator hoperator hright hrest ih ih' =>
    exact fun hleft => ih' (Level.operatorsFit_combine hleft hoperator ih)
  | unary hoperator hoperand ih => exact ⟨hoperator, ih⟩
  | emptyCall hleft hright hrest ih => exact fun hobject => ih ⟨trivial, hobject, trivial⟩
  | fullCall hleft hvalues harity hright hrest ih ih' =>
    exact fun hobject => ih' ⟨trivial, hobject, ih⟩
  | property hdot hname hrest ih => exact fun hobject => ih ⟨trivial, hobject⟩
  | lastArgument h ih => exact ⟨ih, trivial⟩
  | argument h hcomma hrest ih ih' => exact ⟨ih, ih'⟩
  | literal | this | «variable» | super => trivial
  | group hleft hinner hright ih => exact ⟨trivial, ih⟩

/-! ### Statements -/

theorem OptionalExpression.operatorsFit {o : Option Expr} (h : OptionalExpression w o) :
    ∀ e ∈ o, e.OperatorsFit := by
  cases h with
  | none => simp
  | some h =>
    rintro _ ⟨⟩
    exact h.operatorsFit

theorem VariableDeclaration.operatorsFit {s : Stmt} (h : VariableDeclaration w s) :
    s.OperatorsFit := by
  cases h with
  | plain => trivial
  | initialized hvar hname hequals hvalue hsemicolon => exact hvalue.operatorsFit

theorem ExpressionStatement.operatorsFit {s : Stmt} (h : ExpressionStatement w s) :
    s.OperatorsFit := by
  cases h with
  | mk hvalue hsemicolon => exact hvalue.operatorsFit

theorem LoopInitializer.operatorsFit {o : Option Stmt} (h : LoopInitializer w o) :
    ∀ s ∈ o, s.OperatorsFit := by
  cases h with
  | none => simp
  | «variable» h =>
    rintro _ ⟨⟩
    exact h.operatorsFit
  | expression h =>
    rintro _ ⟨⟩
    exact h.operatorsFit

/-- The operators of a loop are those of its clauses and its body. -/
theorem LoopHeader.operatorsFit {clauses : LoopClauses} {body : Stmt} (h : LoopHeader w clauses)
    (hbody : body.OperatorsFit) : (loopOf clauses body).OperatorsFit := by
  obtain ⟨hinitializer, hcondition, hsemicolon, hincrement⟩ := h
  have h₁ := hinitializer.operatorsFit
  have h₂ := hcondition.operatorsFit
  have h₃ := hincrement.operatorsFit
  obtain ⟨initializer, condition, increment⟩ := clauses
  cases initializer <;> cases condition <;> cases increment <;>
    simp_all [Stmt.OperatorsFit, Stmt.Each, Stmt.EachAll, Expr.Each, Expr.OperatorFits]

def StmtPhrase.OperatorsFit : (p : StmtPhrase) → p.Tree → Prop
  | .declaration, s | .statement _, s => s.OperatorsFit
  | .declarations, ss | .block, ss => Stmt.EachAll Expr.OperatorFits ss
  | .routine, r => r.Each Expr.OperatorFits
  | .methods, rs => Routine.EachAll Expr.OperatorFits rs

/-- All operators of a program fit. -/
theorem StmtPhrase.Derives.operatorsFit {rule : ElseRule} {p : StmtPhrase} {tree : p.Tree}
    (h : p.Derives rule w tree) : p.OperatorsFit tree := by
  induction h with
  | noDeclaration | noMethod => trivial
  | declaration h hrest ih ih' | method h hrest ih ih' => exact ⟨ih, ih'⟩
  | «class» h hname hsuperclass hleft hmethods hright ih => exact ih
  | function h hroutine ih => exact ih
  | «variable» h => exact h.operatorsFit
  | statement h ih | braces h ih => exact ih
  | routine hname hleft hparameters hright hbody ih => exact ih
  | block hleft hbody hright ih => exact ih
  | expression h => exact h.operatorsFit
  | print h hvalue hsemicolon => exact hvalue.operatorsFit
  | «return» h hvalue hsemicolon =>
    cases hvalue with
    | none => trivial
    | some hvalue => exact hvalue.operatorsFit
  | «while» h hleft hcondition hright hbody ih => exact ⟨hcondition.operatorsFit, ih⟩
  | «for» h hleft hclauses hright hbody ih => exact hclauses.operatorsFit ih
  | ifThen h hleft hcondition hright hbranch ih => exact ⟨hcondition.operatorsFit, ih⟩
  | ifElse h hleft hcondition hright hbranch hnearest h' hother ih ih' =>
    exact ⟨hcondition.operatorsFit, ih, ih'⟩

end Grammar

end Treewalk
