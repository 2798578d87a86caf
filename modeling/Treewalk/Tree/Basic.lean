import Treewalk.Token.Basic

/-!
# Syntax trees

Programs as trees. A tree keeps the tokens that later stages need for names, operators and lines.
Every use of a name that can be bound to a scope carries a node number of its own; what is known
about such a use is stored outside the tree, under that number.

## Main definitions

* `Literal`, `Use`, `Expr`
* `Stmt`, `Routine`

## Implementation notes

An operator is a whole token and not an operator of a fixed list: the line of a fault and the text
of a rendered tree come from it. A `for` loop has no node; it is built from a block and a `while`.
-/

namespace Treewalk

abbrev NodeId := Nat

inductive Literal
  | number (value : Float)
  | string (text : String)
  | boolean (value : Bool)
  | nil
deriving DecidableEq, Inhabited

/-- A use of a name: its node number and the token that spells it. -/
structure Use where
  id : NodeId
  token : Token
deriving DecidableEq, Inhabited

def Use.name (u : Use) : String := u.token.lexeme

/-- Expressions. A call keeps its closing parenthesis, where faults of the call are reported. -/
inductive Expr
  | literal (value : Literal)
  | unary (operator : Token) (operand : Expr)
  | binary (left : Expr) (operator : Token) (right : Expr)
  | logical (left : Expr) (operator : Token) (right : Expr)
  | group (inner : Expr)
  | variable (use : Use)
  | assign (target : Use) (value : Expr)
  | call (callee : Expr) (paren : Token) (arguments : List Expr)
  | property (object : Expr) (name : Token)
  | setProperty (object : Expr) (name : Token) (value : Expr)
  | this (use : Use)
  | super (use : Use) (method : Token)
deriving Inhabited

mutual

/-- Statements. A class names its superclass by a use of a variable. -/
inductive Stmt
  | expression (value : Expr)
  | print (value : Expr)
  | var (name : Token) (initializer : Option Expr)
  | block (body : List Stmt)
  | «if» (condition : Expr) (thenBranch : Stmt) (elseBranch : Option Stmt)
  | «while» (condition : Expr) (body : Stmt)
  | function (routine : Routine)
  | «return» (keyword : Token) (value : Option Expr)
  | «class» (name : Token) (superclass : Option Use) (methods : List Routine)

/-- A function or method: a name, parameters and a body. -/
structure Routine where
  name : Token
  parameters : List Token
  body : List Stmt

end

instance : Inhabited Stmt := ⟨.block []⟩

instance : Inhabited Routine := ⟨⟨default, [], []⟩⟩

end Treewalk
