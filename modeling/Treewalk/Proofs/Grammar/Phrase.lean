import Treewalk.Grammar.Statement

/-!
# The grammar

Which lists of tokens are programs, and what their trees are. The rules are those a reference of the
language gives:

```text
program     → declaration*
declaration → "class" NAME ( "<" NAME )? "{" routine* "}" | "fun" routine | variable | statement
variable    → "var" NAME ( "=" expression )? ";"
statement   → expression ";" | "print" expression ";" | "return" expression? ";" | block
            | "if" "(" expression ")" statement ( "else" statement )?
            | "while" "(" expression ")" statement
            | "for" "(" ( variable | expression ";" | ";" ) expression? ";" expression? ")" statement
block       → "{" declaration* "}"
routine     → NAME "(" ( NAME ( "," NAME )* )? ")" block
expression  → ( call "." )? NAME "=" expression | operation of the loosest level
operation   → operand ( operator operand )*
unary       → ( "!" | "-" ) unary | call
call        → primary ( "(" arguments? ")" | "." NAME )*
arguments   → expression ( "," expression )*
primary     → NUMBER | STRING | "true" | "false" | "nil" | "this" | NAME | "(" expression ")"
            | "super" "." NAME
```

The operands of an operation are the operations of the next tighter level, and unary expressions at
the tightest one. A call has at most `maxArity` arguments and a routine as many parameters.

## Main definitions

* `ExprPhrase.Derives` — the phrases of an expression, with their trees
* `StmtPhrase.Derives` — the phrases of a program, with their trees

## Implementation notes

A repetition that builds its tree from the left is a phrase of its own, which carries the tree of
what stands before it: `operators` behind a left operand, `accesses` behind an object.

The rules leave open to which `if` an `else` belongs. `ElseRule.free` takes them as they are;
`ElseRule.nearest` lets an `else` follow only a branch to which it could not belong itself. For this
the phrase of a statement tells whether it ends in an `if` that has no `else` yet.

The trees of a phrase differ in nothing but their node numbers, which no rule restricts.

What the rules leave to names is told where these are defined: `isUnaryOperator_iff` and
`Level.holds_iff` list the operators, `Level.tighter?_eq` orders the levels,
`Level.combine_of_holds` gives the trees of operations, `le_maxArity_iff` the limit, and the
equations of `loopOf` the tree of a loop.
-/

namespace Treewalk.Grammar

/-! ### Expressions -/

/-- The phrases of an expression. The operand of the tightest operators, which is of no level, is a
unary expression. -/
inductive ExprPhrase
  | expression
  | operand (level : Option Level)
  | operators (level : Level) (left : Expr)
  | call
  | accesses (object : Expr)
  | arguments
  | primary

/-- What a phrase is the text of. -/
@[reducible] def ExprPhrase.Tree : ExprPhrase → Type
  | arguments => List Expr
  | _ => Expr

/-- The literal that a token of this kind is. -/
def literal? : Kind → Option Literal
  | .keyword .false => some (.boolean false)
  | .keyword .true => some (.boolean true)
  | .keyword .nil => some .nil
  | .number value => some (.number value)
  | .string text => some (.string text)
  | _ => none

/-- The tokens of a phrase, and its tree. -/
inductive ExprPhrase.Derives : (p : ExprPhrase) → List Token → p.Tree → Prop
  | assignVariable {name equals : Token} {id : NodeId} {w : List Token} {value : Expr}
      (hname : name.isIdentifier) (hequals : equals.isSymbol .equal)
      (hvalue : Derives .expression w value) :
      Derives .expression (name :: equals :: w) (.assign ⟨id, name⟩ value)
  | assignProperty {dot name equals : Token} {w₁ w₂ : List Token} {object value : Expr}
      (hobject : Derives .call w₁ object) (hdot : dot.isSymbol .dot)
      (hname : name.isIdentifier) (hequals : equals.isSymbol .equal)
      (hvalue : Derives .expression w₂ value) :
      Derives .expression (w₁ ++ dot :: name :: equals :: w₂) (.setProperty object name value)
  | loosest {w : List Token} {e : Expr} (h : Derives (.operand (some .disjunction)) w e) :
      Derives .expression w e
  | operation {level : Level} {w₁ w₂ : List Token} {left e : Expr}
      (hleft : Derives (.operand level.tighter?) w₁ left)
      (hrest : Derives (.operators level left) w₂ e) :
      Derives (.operand (some level)) (w₁ ++ w₂) e
  | noOperator {level : Level} {left : Expr} : Derives (.operators level left) [] left
  | operator {level : Level} {operator : Token} {w₁ w₂ : List Token} {left right e : Expr}
      (hoperator : level.holds operator)
      (hright : Derives (.operand level.tighter?) w₁ right)
      (hrest : Derives (.operators level (level.combine left operator right)) w₂ e) :
      Derives (.operators level left) (operator :: (w₁ ++ w₂)) e
  | unary {operator : Token} {w : List Token} {operand : Expr}
      (hoperator : isUnaryOperator operator) (hoperand : Derives (.operand none) w operand) :
      Derives (.operand none) (operator :: w) (.unary operator operand)
  | plain {w : List Token} {e : Expr} (h : Derives .call w e) : Derives (.operand none) w e
  | call {w₁ w₂ : List Token} {callee e : Expr} (hcallee : Derives .primary w₁ callee)
      (hrest : Derives (.accesses callee) w₂ e) : Derives .call (w₁ ++ w₂) e
  | noAccess {object : Expr} : Derives (.accesses object) [] object
  | emptyCall {left right : Token} {w : List Token} {object e : Expr}
      (hleft : left.isSymbol .leftParen) (hright : right.isSymbol .rightParen)
      (hrest : Derives (.accesses (.call object right [])) w e) :
      Derives (.accesses object) (left :: right :: w) e
  | fullCall {left right : Token} {w₁ w₂ : List Token} {object e : Expr} {values : List Expr}
      (hleft : left.isSymbol .leftParen) (hvalues : Derives .arguments w₁ values)
      (harity : values.length ≤ maxArity) (hright : right.isSymbol .rightParen)
      (hrest : Derives (.accesses (.call object right values)) w₂ e) :
      Derives (.accesses object) (left :: (w₁ ++ right :: w₂)) e
  | property {dot name : Token} {w : List Token} {object e : Expr}
      (hdot : dot.isSymbol .dot) (hname : name.isIdentifier)
      (hrest : Derives (.accesses (.property object name)) w e) :
      Derives (.accesses object) (dot :: name :: w) e
  | lastArgument {w : List Token} {e : Expr} (h : Derives .expression w e) :
      Derives .arguments w [e]
  | argument {comma : Token} {w₁ w₂ : List Token} {e : Expr} {values : List Expr}
      (h : Derives .expression w₁ e) (hcomma : comma.isSymbol .comma)
      (hrest : Derives .arguments w₂ values) :
      Derives .arguments (w₁ ++ comma :: w₂) (e :: values)
  | literal {t : Token} {value : Literal} (h : literal? t.kind = some value) :
      Derives .primary [t] (.literal value)
  | this {t : Token} {id : NodeId} (h : t.isKeyword .this) : Derives .primary [t] (.this ⟨id, t⟩)
  | variable {t : Token} {id : NodeId} (h : t.isIdentifier) :
      Derives .primary [t] (.variable ⟨id, t⟩)
  | group {left right : Token} {w : List Token} {inner : Expr} (hleft : left.isSymbol .leftParen)
      (hinner : Derives .expression w inner) (hright : right.isSymbol .rightParen) :
      Derives .primary (left :: (w ++ [right])) (.group inner)
  | super {t dot method : Token} {id : NodeId} (h : t.isKeyword .super) (hdot : dot.isSymbol .dot)
      (hmethod : method.isIdentifier) : Derives .primary [t, dot, method] (.super ⟨id, t⟩ method)

/-- An expression that may be left out. -/
inductive OptionalExpression : List Token → Option Expr → Prop
  | none : OptionalExpression [] none
  | some {w : List Token} {e : Expr} (h : ExprPhrase.expression.Derives w e) :
      OptionalExpression w (some e)

/-! ### Parts of statements without statements inside -/

inductive VariableDeclaration : List Token → Stmt → Prop
  | plain {var name semicolon : Token} (hvar : var.isKeyword .var) (hname : name.isIdentifier)
      (hsemicolon : semicolon.isSymbol .semicolon) :
      VariableDeclaration [var, name, semicolon] (.var name none)
  | initialized {var name equals semicolon : Token} {w : List Token} {value : Expr}
      (hvar : var.isKeyword .var) (hname : name.isIdentifier) (hequals : equals.isSymbol .equal)
      (hvalue : ExprPhrase.expression.Derives w value)
      (hsemicolon : semicolon.isSymbol .semicolon) :
      VariableDeclaration (var :: name :: equals :: (w ++ [semicolon])) (.var name (some value))

inductive ExpressionStatement : List Token → Stmt → Prop
  | mk {w : List Token} {semicolon : Token} {value : Expr}
      (hvalue : ExprPhrase.expression.Derives w value)
      (hsemicolon : semicolon.isSymbol .semicolon) :
      ExpressionStatement (w ++ [semicolon]) (.expression value)

/-- The first clause of a `for` loop, with its semicolon. -/
inductive LoopInitializer : List Token → Option Stmt → Prop
  | none {semicolon : Token} (h : semicolon.isSymbol .semicolon) : LoopInitializer [semicolon] none
  | variable {w : List Token} {s : Stmt} (h : VariableDeclaration w s) : LoopInitializer w (some s)
  | expression {w : List Token} {s : Stmt} (h : ExpressionStatement w s) :
      LoopInitializer w (some s)

/-- What stands between the parentheses of a `for` loop. -/
inductive LoopHeader : List Token → LoopClauses → Prop
  | mk {semicolon : Token} {w₁ w₂ w₃ : List Token} {clauses : LoopClauses}
      (hinitializer : LoopInitializer w₁ clauses.initializer)
      (hcondition : OptionalExpression w₂ clauses.condition)
      (hsemicolon : semicolon.isSymbol .semicolon)
      (hincrement : OptionalExpression w₃ clauses.increment) :
      LoopHeader (w₁ ++ w₂ ++ semicolon :: w₃) clauses

/-- One or more parameters. -/
inductive ParameterNames : List Token → List Token → Prop
  | last {name : Token} (h : name.isIdentifier) : ParameterNames [name] [name]
  | cons {name comma : Token} {w names : List Token} (h : name.isIdentifier)
      (hcomma : comma.isSymbol .comma) (hrest : ParameterNames w names) :
      ParameterNames (name :: comma :: w) (name :: names)

/-- What stands between the parentheses of a routine. -/
inductive ParameterList : List Token → List Token → Prop
  | empty : ParameterList [] []
  | names {w names : List Token} (h : ParameterNames w names) (harity : names.length ≤ maxArity) :
      ParameterList w names

/-- The superclass clause of a class. -/
inductive SuperclassClause : List Token → Option Use → Prop
  | none : SuperclassClause [] none
  | some {less name : Token} {id : NodeId} (hless : less.isSymbol .less)
      (hname : name.isIdentifier) : SuperclassClause [less, name] (some ⟨id, name⟩)

/-! ### Statements -/

/-- Whether an `else` may belong to any `if` before it, or to the nearest one only. -/
inductive ElseRule
  | free
  | nearest
deriving DecidableEq

/-- The phrases of a program. A statement is open if an `else` behind it could belong to an `if` in
it. -/
inductive StmtPhrase
  | declaration
  | declarations
  | statement (isOpen : Bool)
  | block
  | routine
  | methods

/-- What a phrase is the text of. -/
@[reducible] def StmtPhrase.Tree : StmtPhrase → Type
  | declaration | statement _ => Stmt
  | declarations | block => List Stmt
  | routine => Routine
  | methods => List Routine

/-- The tokens of a phrase, and its tree. -/
inductive StmtPhrase.Derives (rule : ElseRule) : (p : StmtPhrase) → List Token → p.Tree → Prop
  | noDeclaration : Derives rule .declarations [] []
  | declaration {w₁ w₂ : List Token} {s : Stmt} {rest : List Stmt}
      (h : Derives rule .declaration w₁ s) (hrest : Derives rule .declarations w₂ rest) :
      Derives rule .declarations (w₁ ++ w₂) (s :: rest)
  | class {t name left right : Token} {w₁ w₂ : List Token} {superclass : Option Use}
      {methods : List Routine} (h : t.isKeyword .class) (hname : name.isIdentifier)
      (hsuperclass : SuperclassClause w₁ superclass) (hleft : left.isSymbol .leftBrace)
      (hmethods : Derives rule .methods w₂ methods) (hright : right.isSymbol .rightBrace) :
      Derives rule .declaration (t :: name :: (w₁ ++ left :: (w₂ ++ [right])))
        (.class name superclass methods)
  | function {t : Token} {w : List Token} {routine : Routine} (h : t.isKeyword .fun)
      (hroutine : Derives rule .routine w routine) :
      Derives rule .declaration (t :: w) (.function routine)
  | variable {w : List Token} {s : Stmt} (h : VariableDeclaration w s) :
      Derives rule .declaration w s
  | statement {isOpen : Bool} {w : List Token} {s : Stmt}
      (h : Derives rule (.statement isOpen) w s) : Derives rule .declaration w s
  | noMethod : Derives rule .methods [] []
  | method {w₁ w₂ : List Token} {r : Routine} {rest : List Routine}
      (h : Derives rule .routine w₁ r) (hrest : Derives rule .methods w₂ rest) :
      Derives rule .methods (w₁ ++ w₂) (r :: rest)
  | routine {name left right : Token} {w₁ w₂ parameters : List Token} {body : List Stmt}
      (hname : name.isIdentifier) (hleft : left.isSymbol .leftParen)
      (hparameters : ParameterList w₁ parameters) (hright : right.isSymbol .rightParen)
      (hbody : Derives rule .block w₂ body) :
      Derives rule .routine (name :: left :: (w₁ ++ right :: w₂)) ⟨name, parameters, body⟩
  | block {left right : Token} {w : List Token} {body : List Stmt}
      (hleft : left.isSymbol .leftBrace) (hbody : Derives rule .declarations w body)
      (hright : right.isSymbol .rightBrace) : Derives rule .block (left :: (w ++ [right])) body
  | braces {w : List Token} {body : List Stmt} (h : Derives rule .block w body) :
      Derives rule (.statement false) w (.block body)
  | expression {w : List Token} {s : Stmt} (h : ExpressionStatement w s) :
      Derives rule (.statement false) w s
  | print {t semicolon : Token} {w : List Token} {value : Expr} (h : t.isKeyword .print)
      (hvalue : ExprPhrase.expression.Derives w value)
      (hsemicolon : semicolon.isSymbol .semicolon) :
      Derives rule (.statement false) (t :: (w ++ [semicolon])) (.print value)
  | return {t semicolon : Token} {w : List Token} {value : Option Expr} (h : t.isKeyword .return)
      (hvalue : OptionalExpression w value) (hsemicolon : semicolon.isSymbol .semicolon) :
      Derives rule (.statement false) (t :: (w ++ [semicolon])) (.return t value)
  | while {isOpen : Bool} {t left right : Token} {w₁ w₂ : List Token} {condition : Expr}
      {body : Stmt} (h : t.isKeyword .while) (hleft : left.isSymbol .leftParen)
      (hcondition : ExprPhrase.expression.Derives w₁ condition)
      (hright : right.isSymbol .rightParen) (hbody : Derives rule (.statement isOpen) w₂ body) :
      Derives rule (.statement isOpen) (t :: left :: (w₁ ++ right :: w₂)) (.while condition body)
  | for {isOpen : Bool} {t left right : Token} {w₁ w₂ : List Token} {clauses : LoopClauses}
      {body : Stmt} (h : t.isKeyword .for) (hleft : left.isSymbol .leftParen)
      (hclauses : LoopHeader w₁ clauses) (hright : right.isSymbol .rightParen)
      (hbody : Derives rule (.statement isOpen) w₂ body) :
      Derives rule (.statement isOpen) (t :: left :: (w₁ ++ right :: w₂)) (loopOf clauses body)
  | ifThen {isOpen : Bool} {t left right : Token} {w₁ w₂ : List Token} {condition : Expr}
      {branch : Stmt} (h : t.isKeyword .if) (hleft : left.isSymbol .leftParen)
      (hcondition : ExprPhrase.expression.Derives w₁ condition)
      (hright : right.isSymbol .rightParen) (hbranch : Derives rule (.statement isOpen) w₂ branch) :
      Derives rule (.statement true) (t :: left :: (w₁ ++ right :: w₂)) (.if condition branch none)
  | ifElse {isOpen isOpen' : Bool} {t left right t' : Token} {w₁ w₂ w₃ : List Token}
      {condition : Expr} {branch other : Stmt} (h : t.isKeyword .if)
      (hleft : left.isSymbol .leftParen)
      (hcondition : ExprPhrase.expression.Derives w₁ condition)
      (hright : right.isSymbol .rightParen) (hbranch : Derives rule (.statement isOpen) w₂ branch)
      (hnearest : rule = .nearest → isOpen = false) (h' : t'.isKeyword .else)
      (hother : Derives rule (.statement isOpen') w₃ other) :
      Derives rule (.statement isOpen') (t :: left :: (w₁ ++ right :: (w₂ ++ t' :: w₃)))
        (.if condition branch (some other))

end Treewalk.Grammar
