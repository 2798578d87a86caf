import Treewalk.Number.Layout
import Treewalk.Tree.Basic

/-!
# Trees as text

A tree is rendered with every form between parentheses and its head first: `(* (- 1.0) 2.0)`.

## Main definitions

* `Expr.render`, `Stmt.render`, `Routine.render`
-/

namespace Treewalk

/-- Parts between parentheses, with a space between two of them. -/
def parenthesized (parts : List String) : String := "(" ++ " ".intercalate parts ++ ")"

def Literal.render : Literal → String
  | number value => Number.rendered value
  | string text => text
  | boolean value => if value then "true" else "false"
  | nil => "nil"

mutual

def Expr.render : Expr → String
  | .literal value => value.render
  | .unary operator operand => parenthesized [operator.lexeme, operand.render]
  | .binary left operator right => parenthesized [operator.lexeme, left.render, right.render]
  | .logical left operator right => parenthesized [operator.lexeme, left.render, right.render]
  | .group inner => parenthesized ["group", inner.render]
  | .variable use => parenthesized ["var", use.name]
  | .assign target value => parenthesized ["assign", target.name, value.render]
  | .call callee _ arguments => parenthesized ("call" :: callee.render :: Expr.renderAll arguments)
  | .property object name => parenthesized [".", object.render, name.lexeme]
  | .setProperty object name value => parenthesized ["=", object.render, name.lexeme, value.render]
  | .this _ => "this"
  | .super _ method => parenthesized ["super", method.lexeme]

def Expr.renderAll : List Expr → List String
  | [] => []
  | e :: rest => e.render :: Expr.renderAll rest

end

mutual

def Stmt.render : Stmt → String
  | .expression value => value.render
  | .print value => parenthesized ["print", value.render]
  | .var name none => parenthesized ["var", name.lexeme]
  | .var name (some value) => parenthesized ["var", name.lexeme, value.render]
  | .block body => parenthesized ("block" :: Stmt.renderAll body)
  | .if condition thenBranch none => parenthesized ["if", condition.render, thenBranch.render]
  | .if condition thenBranch (some elseBranch) =>
    parenthesized ["if", condition.render, thenBranch.render, elseBranch.render]
  | .while condition body => parenthesized ["while", condition.render, body.render]
  | .function routine => routine.render
  | .return _ none => parenthesized ["return"]
  | .return _ (some value) => parenthesized ["return", value.render]
  | .class name none methods => parenthesized ("class" :: name.lexeme :: Routine.renderAll methods)
  | .class name (some superclass) methods =>
    parenthesized ("class" :: name.lexeme :: "<" :: superclass.name :: Routine.renderAll methods)

def Stmt.renderAll : List Stmt → List String
  | [] => []
  | s :: rest => s.render :: Stmt.renderAll rest

def Routine.render : Routine → String
  | ⟨name, parameters, body⟩ =>
    parenthesized ("fun" :: name.lexeme :: parenthesized (parameters.map Token.lexeme) ::
      Stmt.renderAll body)

def Routine.renderAll : List Routine → List String
  | [] => []
  | r :: rest => r.render :: Routine.renderAll rest

end

end Treewalk
