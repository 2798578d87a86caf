import Treewalk.Proofs.Grammar.Relaxed.Expression

/-!
# The language and the relaxed grammar

A phrase of the language is one of the relaxed grammar, and there is no fault in it: its targets are
bare identifiers and property accesses, and no limit is passed.

## Main results

* `ExprPhrase.Derives.relaxed` — the phrases of an expression
* `StmtPhrase.Derives.relaxed` — the phrases of a program
-/

namespace Treewalk.Grammar

open Relaxed (ExprDerives StmtDerives)

variable {w : List Token}

/-! ### Expressions -/

/-- An expression with no operator outside of brackets is an operation of every level. -/
theorem Relaxed.ExprDerives.operand {e : Expr} {F : Multiset Diagnostic}
    (h : ExprDerives (.operand none) w e F) (level : Option Level) :
    ExprDerives (.operand level) w e F := by
  have hloosen (level : Level) (h : ExprDerives (.operand level.tighter?) w e F) :
      ExprDerives (.operand (some level)) w e F := by
    have hnone := ExprDerives.operation h .noOperator
    rwa [List.append_nil, add_zero] at hnone
  have hfactor := hloosen .factor h
  have hterm := hloosen .term hfactor
  have hcomparison := hloosen .comparison hterm
  have hequality := hloosen .equality hcomparison
  have hconjunction := hloosen .conjunction hequality
  cases level with
  | none => exact h
  | some level =>
    cases level with
    | disjunction => exact hloosen .disjunction hconjunction
    | conjunction => exact hconjunction
    | equality => exact hequality
    | comparison => exact hcomparison
    | term => exact hterm
    | factor => exact hfactor

/-- What a phrase of the language is in the relaxed grammar. A call can be gone on with. -/
def ExprPhrase.Relaxes : (p : ExprPhrase) → List Token → p.Tree → Prop
  | .expression, w, e => ExprDerives .expression w e 0
  | .operand level, w, e => ExprDerives (.operand level) w e 0
  | .operators level left, w, e => ExprDerives (.operators level left) w e 0
  | .call, w, e => ∀ w' e', ExprDerives (.accesses e) w' e' 0 →
    ExprDerives (.operand none) (w ++ w') e' 0
  | .accesses object, w, e => ∀ w' e', ExprDerives (.accesses e) w' e' 0 →
    ExprDerives (.accesses object) (w ++ w') e' 0
  | .arguments, w, values => ∃ values', values'.map Prod.snd = values ∧
    ExprDerives .arguments w values' 0
  | .primary, w, e => ExprDerives .primary w e 0

theorem ExprPhrase.Derives.relaxes {p : ExprPhrase} {e : p.Tree} (h : p.Derives w e) :
    p.Relaxes w e := by
  induction h with
  | assignVariable hname hequals hvalue ih =>
    have hcall := ExprDerives.call (@ExprDerives.variable _ 0 hname) .noAccess
    exact ExprDerives.assignVariable (hcall.operand _) hequals ih
  | assignProperty hobject hdot hname hequals hvalue ihobject ihvalue =>
    have htarget := (ihobject _ _ (.property hdot hname .noAccess)).operand (some .disjunction)
    have hassign := ExprDerives.assignProperty htarget hequals ihvalue
    rwa [List.append_assoc] at hassign
  | loosest h ih => exact ExprDerives.loosest ih
  | operation hleft hrest ihleft ihrest => exact ExprDerives.operation ihleft ihrest
  | noOperator => exact ExprDerives.noOperator
  | operator hoperator hright hrest ihright ihrest =>
    exact ExprDerives.operator hoperator ihright ihrest
  | unary hoperator hoperand ih => exact ExprDerives.unary hoperator ih
  | plain h ih =>
    have hcall := ih [] _ .noAccess
    rwa [List.append_nil] at hcall
  | call hcallee hrest ihcallee ihrest =>
    intro w' e' h
    rw [List.append_assoc]
    exact ExprDerives.call ihcallee (ihrest w' e' h)
  | noAccess => exact fun w' e' h => h
  | emptyCall hleft hright hrest ih =>
    exact fun w' e' h => ExprDerives.emptyCall hleft hright (ih w' e' h)
  | fullCall hleft hvalues harity hright hrest ihvalues ih =>
    obtain ⟨values, rfl, hrelaxed⟩ := ihvalues
    intro w' e' h
    have hcall := ExprDerives.fullCall hleft hrelaxed hright (ih w' e' h)
    rw [excess_eq_zero (by simpa using harity)] at hcall
    simpa using hcall
  | property hdot hname hrest ih =>
    exact fun w' e' h => ExprDerives.property hdot hname (ih w' e' h)
  | lastArgument h ih =>
    obtain ⟨t, w, rfl, -⟩ := Relaxed.ExprDerives.exists_head ih id
    exact ⟨_, rfl, .lastArgument ih⟩
  | argument h hcomma hrest ih ihrest =>
    obtain ⟨t, w, rfl, -⟩ := Relaxed.ExprDerives.exists_head ih id
    obtain ⟨values, rfl, hvalues⟩ := ihrest
    exact ⟨_, rfl, .argument ih hcomma hvalues⟩
  | literal h => exact ExprDerives.literal h
  | this h => exact ExprDerives.this h
  | «variable» h => exact ExprDerives.variable h
  | group hleft hinner hright ih => exact ExprDerives.group hleft ih hright
  | super h hdot hmethod => exact ExprDerives.super h hdot hmethod

theorem ExprPhrase.Derives.relaxed {e : Expr} (h : ExprPhrase.expression.Derives w e) :
    ExprDerives .expression w e 0 :=
  h.relaxes

theorem OptionalExpression.relaxed {o : Option Expr} (h : OptionalExpression w o) :
    Relaxed.OptionalExpression w o 0 := by
  cases h with
  | none => exact .none
  | some h => exact .some h.relaxed

/-! ### Parts of statements without statements inside -/

theorem VariableDeclaration.relaxed {s : Stmt} (h : VariableDeclaration w s) :
    Relaxed.VariableDeclaration w s 0 := by
  cases h with
  | plain hvar hname hsemicolon => exact .plain hvar hname hsemicolon
  | initialized hvar hname hequals hvalue hsemicolon =>
    exact .initialized hvar hname hequals hvalue.relaxed hsemicolon

theorem ExpressionStatement.relaxed {s : Stmt} (h : ExpressionStatement w s) :
    Relaxed.ExpressionStatement w s 0 := by
  obtain ⟨hvalue, hsemicolon⟩ := h
  exact .mk hvalue.relaxed hsemicolon

theorem LoopInitializer.relaxed {o : Option Stmt} (h : LoopInitializer w o) :
    Relaxed.LoopInitializer w o 0 := by
  cases h with
  | none h => exact .none h
  | «variable» h => exact .variable h.relaxed
  | expression h => exact .expression h.relaxed

theorem LoopHeader.relaxed {clauses : LoopClauses} (h : LoopHeader w clauses) :
    Relaxed.LoopHeader w clauses 0 := by
  obtain ⟨hinitializer, hcondition, hsemicolon, hincrement⟩ := h
  exact .mk hinitializer.relaxed hcondition.relaxed hsemicolon hincrement.relaxed

theorem ParameterList.relaxed {names : List Token} (h : ParameterList w names) :
    Relaxed.ParameterList w names 0 := by
  cases h with
  | empty => exact .empty
  | names h harity =>
    have hnames := Relaxed.ParameterList.names h
    rwa [excess_eq_zero (by simpa using harity)] at hnames

/-! ### Statements -/

theorem StmtPhrase.Derives.relaxed {rule : ElseRule} {p : StmtPhrase} {tree : p.Tree}
    (h : p.Derives rule w tree) : StmtDerives rule p w tree 0 := by
  induction h with
  | noDeclaration => exact .noDeclaration
  | declaration h hrest ih ihrest => exact .declaration ih ihrest
  | «class» h hname hsuperclass hleft hmethods hright ih =>
    exact .class h hname hsuperclass hleft ih hright
  | function h hroutine ih => exact .function h ih
  | «variable» h => exact .variable h.relaxed
  | statement h ih => exact .statement ih
  | noMethod => exact .noMethod
  | method h hrest ih ihrest => exact .method ih ihrest
  | routine hname hleft hparameters hright hbody ih =>
    exact .routine hname hleft hparameters.relaxed hright ih
  | block hleft hbody hright ih => exact .block hleft ih hright
  | braces h ih => exact .braces ih
  | expression h => exact .expression h.relaxed
  | print h hvalue hsemicolon => exact .print h hvalue.relaxed hsemicolon
  | «return» h hvalue hsemicolon => exact .return h hvalue.relaxed hsemicolon
  | «while» h hleft hcondition hright hbody ih =>
    exact .while h hleft hcondition.relaxed hright ih
  | «for» h hleft hclauses hright hbody ih => exact .for h hleft hclauses.relaxed hright ih
  | ifThen h hleft hcondition hright hbranch ih =>
    exact .ifThen h hleft hcondition.relaxed hright ih
  | ifElse h hleft hcondition hright hbranch hnearest h' hother ih ihother =>
    exact .ifElse h hleft hcondition.relaxed hright ih hnearest h' ihother

end Treewalk.Grammar
