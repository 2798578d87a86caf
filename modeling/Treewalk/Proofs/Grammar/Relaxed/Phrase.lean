import Mathlib.Data.Multiset.MapFold
import Treewalk.Proofs.Grammar.Phrase

/-!
# The relaxed grammar

Some faults do not keep the reader from going on: a target that cannot be assigned to, and too many
arguments or parameters. The grammar that it follows knows none of them. It is that of the language
but for

```text
expression  → operation of the loosest level ( "=" expression )?
```

and has no limit on arguments and parameters. The faults in a phrase are told by the rules it is
derived with.

## Main definitions

* `Relaxed.ExprDerives` — the phrases of an expression, with their trees and the faults in them
* `Relaxed.StmtDerives` — the phrases of a program, with their trees and the faults in them

## Implementation notes

An expression to the left of an equals sign that is no target stands for the whole assignment in the
tree, as the reader has it. An argument is kept with its first token, at which it is found to be one
too many.
-/

namespace Treewalk

/-- A bare identifier or a property access. -/
def Expr.isTarget : Expr → Bool
  | .variable _ | .property .. => true
  | _ => false

namespace Grammar

/-- The faults at those of the tokens, of which each begins an argument or a parameter, that are
beyond the limit when `count` others stand before them. -/
def excess (count : Nat) (cause : GrammarFault) (firsts : List Token) : Multiset Diagnostic :=
  Multiset.map (Diagnostic.grammar · cause) (firsts.drop (maxArity - count))

theorem excess_eq_zero {count : Nat} {cause : GrammarFault} {firsts : List Token}
    (h : count + firsts.length ≤ maxArity) : excess count cause firsts = 0 := by
  rw [excess, List.drop_eq_nil_of_le (by omega)]
  rfl

namespace Relaxed

/-! ### Expressions -/

/-- The phrases of an expression. -/
inductive ExprPhrase
  | expression
  | operand (level : Option Level)
  | operators (level : Level) (left : Expr)
  | accesses (object : Expr)
  | arguments
  | primary

/-- What a phrase is the text of. An argument comes with its first token. -/
@[reducible] def ExprPhrase.Tree : ExprPhrase → Type
  | arguments => List (Token × Expr)
  | _ => Expr

/-- The tokens of a phrase, its tree, and the faults in it. -/
inductive ExprDerives :
    (p : ExprPhrase) → List Token → p.Tree → Multiset Diagnostic → Prop
  | assignVariable {equals : Token} {use : Use} {id : NodeId} {w₁ w₂ : List Token} {value : Expr}
      {F₁ F₂ : Multiset Diagnostic}
      (hleft : ExprDerives (.operand (some .disjunction)) w₁ (.variable use) F₁)
      (hequals : equals.isSymbol .equal) (hvalue : ExprDerives .expression w₂ value F₂) :
      ExprDerives .expression (w₁ ++ equals :: w₂) (.assign ⟨id, use.token⟩ value) (F₁ + F₂)
  | assignProperty {name equals : Token} {w₁ w₂ : List Token} {object value : Expr}
      {F₁ F₂ : Multiset Diagnostic}
      (hleft : ExprDerives (.operand (some .disjunction)) w₁ (.property object name) F₁)
      (hequals : equals.isSymbol .equal) (hvalue : ExprDerives .expression w₂ value F₂) :
      ExprDerives .expression (w₁ ++ equals :: w₂) (.setProperty object name value) (F₁ + F₂)
  | assignOther {equals : Token} {w₁ w₂ : List Token} {left value : Expr}
      {F₁ F₂ : Multiset Diagnostic}
      (hleft : ExprDerives (.operand (some .disjunction)) w₁ left F₁)
      (htarget : left.isTarget = false) (hequals : equals.isSymbol .equal)
      (hvalue : ExprDerives .expression w₂ value F₂) :
      ExprDerives .expression (w₁ ++ equals :: w₂) left
        (F₁ + F₂ + {.grammar equals .invalidAssignmentTarget})
  | loosest {w : List Token} {e : Expr} {F : Multiset Diagnostic}
      (h : ExprDerives (.operand (some .disjunction)) w e F) : ExprDerives .expression w e F
  | operation {level : Level} {w₁ w₂ : List Token} {left e : Expr} {F₁ F₂ : Multiset Diagnostic}
      (hleft : ExprDerives (.operand level.tighter?) w₁ left F₁)
      (hrest : ExprDerives (.operators level left) w₂ e F₂) :
      ExprDerives (.operand (some level)) (w₁ ++ w₂) e (F₁ + F₂)
  | noOperator {level : Level} {left : Expr} : ExprDerives (.operators level left) [] left 0
  | operator {level : Level} {operator : Token} {w₁ w₂ : List Token} {left right e : Expr}
      {F₁ F₂ : Multiset Diagnostic} (hoperator : level.holds operator)
      (hright : ExprDerives (.operand level.tighter?) w₁ right F₁)
      (hrest : ExprDerives (.operators level (level.combine left operator right)) w₂ e F₂) :
      ExprDerives (.operators level left) (operator :: (w₁ ++ w₂)) e (F₁ + F₂)
  | unary {operator : Token} {w : List Token} {operand : Expr} {F : Multiset Diagnostic}
      (hoperator : isUnaryOperator operator) (hoperand : ExprDerives (.operand none) w operand F) :
      ExprDerives (.operand none) (operator :: w) (.unary operator operand) F
  | call {w₁ w₂ : List Token} {callee e : Expr} {F₁ F₂ : Multiset Diagnostic}
      (hcallee : ExprDerives .primary w₁ callee F₁)
      (hrest : ExprDerives (.accesses callee) w₂ e F₂) :
      ExprDerives (.operand none) (w₁ ++ w₂) e (F₁ + F₂)
  | noAccess {object : Expr} : ExprDerives (.accesses object) [] object 0
  | emptyCall {left right : Token} {w : List Token} {object e : Expr} {F : Multiset Diagnostic}
      (hleft : left.isSymbol .leftParen) (hright : right.isSymbol .rightParen)
      (hrest : ExprDerives (.accesses (.call object right [])) w e F) :
      ExprDerives (.accesses object) (left :: right :: w) e F
  | fullCall {left right : Token} {w₁ w₂ : List Token} {object e : Expr}
      {values : List (Token × Expr)} {F₁ F₂ : Multiset Diagnostic}
      (hleft : left.isSymbol .leftParen) (hvalues : ExprDerives .arguments w₁ values F₁)
      (hright : right.isSymbol .rightParen)
      (hrest : ExprDerives (.accesses (.call object right (values.map Prod.snd))) w₂ e F₂) :
      ExprDerives (.accesses object) (left :: (w₁ ++ right :: w₂)) e
        (F₁ + excess 0 .tooManyArguments (values.map Prod.fst) + F₂)
  | property {dot name : Token} {w : List Token} {object e : Expr} {F : Multiset Diagnostic}
      (hdot : dot.isSymbol .dot) (hname : name.isIdentifier)
      (hrest : ExprDerives (.accesses (.property object name)) w e F) :
      ExprDerives (.accesses object) (dot :: name :: w) e F
  | lastArgument {t : Token} {w : List Token} {e : Expr} {F : Multiset Diagnostic}
      (h : ExprDerives .expression (t :: w) e F) : ExprDerives .arguments (t :: w) [(t, e)] F
  | argument {t comma : Token} {w₁ w₂ : List Token} {e : Expr} {values : List (Token × Expr)}
      {F₁ F₂ : Multiset Diagnostic} (h : ExprDerives .expression (t :: w₁) e F₁)
      (hcomma : comma.isSymbol .comma) (hrest : ExprDerives .arguments w₂ values F₂) :
      ExprDerives .arguments (t :: w₁ ++ comma :: w₂) ((t, e) :: values) (F₁ + F₂)
  | literal {t : Token} {value : Literal} (h : literal? t.kind = some value) :
      ExprDerives .primary [t] (.literal value) 0
  | this {t : Token} {id : NodeId} (h : t.isKeyword .this) :
      ExprDerives .primary [t] (.this ⟨id, t⟩) 0
  | variable {t : Token} {id : NodeId} (h : t.isIdentifier) :
      ExprDerives .primary [t] (.variable ⟨id, t⟩) 0
  | group {left right : Token} {w : List Token} {inner : Expr} {F : Multiset Diagnostic}
      (hleft : left.isSymbol .leftParen) (hinner : ExprDerives .expression w inner F)
      (hright : right.isSymbol .rightParen) :
      ExprDerives .primary (left :: (w ++ [right])) (.group inner) F
  | super {t dot method : Token} {id : NodeId} (h : t.isKeyword .super) (hdot : dot.isSymbol .dot)
      (hmethod : method.isIdentifier) :
      ExprDerives .primary [t, dot, method] (.super ⟨id, t⟩ method) 0

/-- An expression that may be left out. -/
inductive OptionalExpression : List Token → Option Expr → Multiset Diagnostic → Prop
  | none : OptionalExpression [] none 0
  | some {w : List Token} {e : Expr} {F : Multiset Diagnostic}
      (h : ExprDerives .expression w e F) : OptionalExpression w (some e) F

/-! ### Parts of statements without statements inside -/

inductive VariableDeclaration : List Token → Stmt → Multiset Diagnostic → Prop
  | plain {var name semicolon : Token} (hvar : var.isKeyword .var) (hname : name.isIdentifier)
      (hsemicolon : semicolon.isSymbol .semicolon) :
      VariableDeclaration [var, name, semicolon] (.var name none) 0
  | initialized {var name equals semicolon : Token} {w : List Token} {value : Expr}
      {F : Multiset Diagnostic} (hvar : var.isKeyword .var) (hname : name.isIdentifier)
      (hequals : equals.isSymbol .equal) (hvalue : ExprDerives .expression w value F)
      (hsemicolon : semicolon.isSymbol .semicolon) :
      VariableDeclaration (var :: name :: equals :: (w ++ [semicolon])) (.var name (some value)) F

inductive ExpressionStatement : List Token → Stmt → Multiset Diagnostic → Prop
  | mk {w : List Token} {semicolon : Token} {value : Expr} {F : Multiset Diagnostic}
      (hvalue : ExprDerives .expression w value F) (hsemicolon : semicolon.isSymbol .semicolon) :
      ExpressionStatement (w ++ [semicolon]) (.expression value) F

/-- The first clause of a `for` loop, with its semicolon. -/
inductive LoopInitializer : List Token → Option Stmt → Multiset Diagnostic → Prop
  | none {semicolon : Token} (h : semicolon.isSymbol .semicolon) :
      LoopInitializer [semicolon] none 0
  | variable {w : List Token} {s : Stmt} {F : Multiset Diagnostic}
      (h : VariableDeclaration w s F) : LoopInitializer w (some s) F
  | expression {w : List Token} {s : Stmt} {F : Multiset Diagnostic}
      (h : ExpressionStatement w s F) : LoopInitializer w (some s) F

/-- What stands between the parentheses of a `for` loop. -/
inductive LoopHeader : List Token → LoopClauses → Multiset Diagnostic → Prop
  | mk {semicolon : Token} {w₁ w₂ w₃ : List Token} {clauses : LoopClauses}
      {F₁ F₂ F₃ : Multiset Diagnostic} (hinitializer : LoopInitializer w₁ clauses.initializer F₁)
      (hcondition : OptionalExpression w₂ clauses.condition F₂)
      (hsemicolon : semicolon.isSymbol .semicolon)
      (hincrement : OptionalExpression w₃ clauses.increment F₃) :
      LoopHeader (w₁ ++ w₂ ++ semicolon :: w₃) clauses (F₁ + F₂ + F₃)

/-- What stands between the parentheses of a routine. -/
inductive ParameterList : List Token → List Token → Multiset Diagnostic → Prop
  | empty : ParameterList [] [] 0
  | names {w names : List Token} (h : ParameterNames w names) :
      ParameterList w names (excess 0 .tooManyParameters names)

/-! ### Statements -/

/-- The tokens of a phrase, its tree, and the faults in it. -/
inductive StmtDerives (rule : ElseRule) :
    (p : StmtPhrase) → List Token → p.Tree → Multiset Diagnostic → Prop
  | noDeclaration : StmtDerives rule .declarations [] [] 0
  | declaration {w₁ w₂ : List Token} {s : Stmt} {rest : List Stmt} {F₁ F₂ : Multiset Diagnostic}
      (h : StmtDerives rule .declaration w₁ s F₁)
      (hrest : StmtDerives rule .declarations w₂ rest F₂) :
      StmtDerives rule .declarations (w₁ ++ w₂) (s :: rest) (F₁ + F₂)
  | class {t name left right : Token} {w₁ w₂ : List Token} {superclass : Option Use}
      {methods : List Routine} {F : Multiset Diagnostic} (h : t.isKeyword .class)
      (hname : name.isIdentifier) (hsuperclass : SuperclassClause w₁ superclass)
      (hleft : left.isSymbol .leftBrace) (hmethods : StmtDerives rule .methods w₂ methods F)
      (hright : right.isSymbol .rightBrace) :
      StmtDerives rule .declaration (t :: name :: (w₁ ++ left :: (w₂ ++ [right])))
        (.class name superclass methods) F
  | function {t : Token} {w : List Token} {routine : Routine} {F : Multiset Diagnostic}
      (h : t.isKeyword .fun) (hroutine : StmtDerives rule .routine w routine F) :
      StmtDerives rule .declaration (t :: w) (.function routine) F
  | variable {w : List Token} {s : Stmt} {F : Multiset Diagnostic}
      (h : VariableDeclaration w s F) : StmtDerives rule .declaration w s F
  | statement {isOpen : Bool} {w : List Token} {s : Stmt} {F : Multiset Diagnostic}
      (h : StmtDerives rule (.statement isOpen) w s F) : StmtDerives rule .declaration w s F
  | noMethod : StmtDerives rule .methods [] [] 0
  | method {w₁ w₂ : List Token} {r : Routine} {rest : List Routine} {F₁ F₂ : Multiset Diagnostic}
      (h : StmtDerives rule .routine w₁ r F₁) (hrest : StmtDerives rule .methods w₂ rest F₂) :
      StmtDerives rule .methods (w₁ ++ w₂) (r :: rest) (F₁ + F₂)
  | routine {name left right : Token} {w₁ w₂ parameters : List Token} {body : List Stmt}
      {F₁ F₂ : Multiset Diagnostic} (hname : name.isIdentifier) (hleft : left.isSymbol .leftParen)
      (hparameters : ParameterList w₁ parameters F₁) (hright : right.isSymbol .rightParen)
      (hbody : StmtDerives rule .block w₂ body F₂) :
      StmtDerives rule .routine (name :: left :: (w₁ ++ right :: w₂)) ⟨name, parameters, body⟩
        (F₁ + F₂)
  | block {left right : Token} {w : List Token} {body : List Stmt} {F : Multiset Diagnostic}
      (hleft : left.isSymbol .leftBrace) (hbody : StmtDerives rule .declarations w body F)
      (hright : right.isSymbol .rightBrace) :
      StmtDerives rule .block (left :: (w ++ [right])) body F
  | braces {w : List Token} {body : List Stmt} {F : Multiset Diagnostic}
      (h : StmtDerives rule .block w body F) :
      StmtDerives rule (.statement false) w (.block body) F
  | expression {w : List Token} {s : Stmt} {F : Multiset Diagnostic}
      (h : ExpressionStatement w s F) : StmtDerives rule (.statement false) w s F
  | print {t semicolon : Token} {w : List Token} {value : Expr} {F : Multiset Diagnostic}
      (h : t.isKeyword .print) (hvalue : ExprDerives .expression w value F)
      (hsemicolon : semicolon.isSymbol .semicolon) :
      StmtDerives rule (.statement false) (t :: (w ++ [semicolon])) (.print value) F
  | return {t semicolon : Token} {w : List Token} {value : Option Expr} {F : Multiset Diagnostic}
      (h : t.isKeyword .return) (hvalue : OptionalExpression w value F)
      (hsemicolon : semicolon.isSymbol .semicolon) :
      StmtDerives rule (.statement false) (t :: (w ++ [semicolon])) (.return t value) F
  | while {isOpen : Bool} {t left right : Token} {w₁ w₂ : List Token} {condition : Expr}
      {body : Stmt} {F₁ F₂ : Multiset Diagnostic} (h : t.isKeyword .while)
      (hleft : left.isSymbol .leftParen) (hcondition : ExprDerives .expression w₁ condition F₁)
      (hright : right.isSymbol .rightParen)
      (hbody : StmtDerives rule (.statement isOpen) w₂ body F₂) :
      StmtDerives rule (.statement isOpen) (t :: left :: (w₁ ++ right :: w₂))
        (.while condition body) (F₁ + F₂)
  | for {isOpen : Bool} {t left right : Token} {w₁ w₂ : List Token} {clauses : LoopClauses}
      {body : Stmt} {F₁ F₂ : Multiset Diagnostic} (h : t.isKeyword .for)
      (hleft : left.isSymbol .leftParen) (hclauses : LoopHeader w₁ clauses F₁)
      (hright : right.isSymbol .rightParen)
      (hbody : StmtDerives rule (.statement isOpen) w₂ body F₂) :
      StmtDerives rule (.statement isOpen) (t :: left :: (w₁ ++ right :: w₂))
        (loopOf clauses body) (F₁ + F₂)
  | ifThen {isOpen : Bool} {t left right : Token} {w₁ w₂ : List Token} {condition : Expr}
      {branch : Stmt} {F₁ F₂ : Multiset Diagnostic} (h : t.isKeyword .if)
      (hleft : left.isSymbol .leftParen) (hcondition : ExprDerives .expression w₁ condition F₁)
      (hright : right.isSymbol .rightParen)
      (hbranch : StmtDerives rule (.statement isOpen) w₂ branch F₂) :
      StmtDerives rule (.statement true) (t :: left :: (w₁ ++ right :: w₂))
        (.if condition branch none) (F₁ + F₂)
  | ifElse {isOpen isOpen' : Bool} {t left right t' : Token} {w₁ w₂ w₃ : List Token}
      {condition : Expr} {branch other : Stmt} {F₁ F₂ F₃ : Multiset Diagnostic}
      (h : t.isKeyword .if) (hleft : left.isSymbol .leftParen)
      (hcondition : ExprDerives .expression w₁ condition F₁) (hright : right.isSymbol .rightParen)
      (hbranch : StmtDerives rule (.statement isOpen) w₂ branch F₂)
      (hnearest : rule = .nearest → isOpen = false) (h' : t'.isKeyword .else)
      (hother : StmtDerives rule (.statement isOpen') w₃ other F₃) :
      StmtDerives rule (.statement isOpen') (t :: left :: (w₁ ++ right :: (w₂ ++ t' :: w₃)))
        (.if condition branch (some other)) (F₁ + F₂ + F₃)

end Relaxed

end Grammar

end Treewalk
