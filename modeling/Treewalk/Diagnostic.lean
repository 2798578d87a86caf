import Treewalk.Token.Basic

/-!
# Diagnostics

Everything that can be wrong with a program, from a stray character to a failing write. A fault is
a cause; its wording is in one place, `Diagnostic.message`, and the line and the `at` clause around
it are added by `Diagnostic.text`.

## Main definitions

* `LexicalFault`, `GrammarFault`, `ScopeFault`, `RuntimeFault`, `OutputFault` — the causes
* `Diagnostic` — a cause and where it was met
* `Diagnostic.message`, `Diagnostic.line?`, `Diagnostic.text`
-/

namespace Treewalk

/-! ### Causes -/

/-- What a source text can hold that is no token. -/
inductive LexicalFault
  | unexpectedCharacter
  | unterminatedString
  | unterminatedComment
deriving DecidableEq, Repr, Inhabited

/-- A named body is declared on its own or in a class. -/
inductive RoutineKind
  | function
  | method
deriving DecidableEq, Repr

def RoutineKind.word : RoutineKind → String
  | function => "function"
  | method => "method"

/-- A place in the grammar where one identifier must stand. -/
inductive NamePlace
  | ofClass
  | ofSuperclass
  | ofRoutine (kind : RoutineKind)
  | ofParameter
  | ofVariable
  | afterDot
  | ofSuperMethod
deriving DecidableEq, Repr

def NamePlace.phrase : NamePlace → String
  | ofClass => "class name"
  | ofSuperclass => "superclass name"
  | ofRoutine kind => kind.word ++ " name"
  | ofParameter => "parameter name"
  | ofVariable => "variable name"
  | afterDot => "property name after '.'"
  | ofSuperMethod => "superclass method name"

/-- A place in the grammar where one symbol must stand. -/
inductive SymbolPlace
  | beforeClassBody
  | afterClassBody
  | afterRoutineName (kind : RoutineKind)
  | afterParameters
  | beforeRoutineBody (kind : RoutineKind)
  | afterVariableDeclaration
  | afterFor
  | afterLoopCondition
  | afterForClauses
  | afterIf
  | afterIfCondition
  | afterPrinted
  | afterReturned
  | afterWhile
  | afterWhileCondition
  | afterExpressionStatement
  | afterBlock
  | afterArguments
  | afterSuper
  | afterGroup
deriving DecidableEq, Repr

def SymbolPlace.phrase : SymbolPlace → String
  | beforeClassBody => "before class body"
  | afterClassBody => "after class body"
  | afterRoutineName kind => "after " ++ kind.word ++ " name"
  | afterParameters => "after parameters"
  | beforeRoutineBody kind => "before " ++ kind.word ++ " body"
  | afterVariableDeclaration => "after variable declaration"
  | afterFor => "after 'for'"
  | afterLoopCondition => "after loop condition"
  | afterForClauses => "after for clauses"
  | afterIf => "after 'if'"
  | afterIfCondition => "after if condition"
  | afterPrinted => "after value"
  | afterReturned => "after return value"
  | afterWhile => "after 'while'"
  | afterWhileCondition => "after condition"
  | afterExpressionStatement => "after expression"
  | afterBlock => "after block"
  | afterArguments => "after arguments"
  | afterSuper => "after 'super'"
  | afterGroup => "after expression"

/-- Violations of the grammar. -/
inductive GrammarFault
  | missingName (place : NamePlace)
  | missingSymbol (symbol : Symbol) (place : SymbolPlace)
  | missingExpression
  | invalidAssignmentTarget
  | tooManyArguments
  | tooManyParameters
deriving DecidableEq, Repr

/-- Violations of the scope rules. -/
inductive ScopeFault
  | redeclared
  | readInOwnInitializer
  | returnOutsideFunction
  | valueFromInitializer
  | selfInheritance
  | thisOutsideClass
  | superOutsideClass
  | superWithoutSuperclass
deriving DecidableEq, Repr

/-- Failures of a running program. -/
inductive RuntimeFault
  | undefinedVariable (name : String)
  | undefinedProperty (name : String)
  | operandNotNumber
  | operandsNotNumbers
  | operandsNotAddable
  | invalidUnaryOperator
  | invalidBinaryOperator
  | notCallable
  | wrongArgumentCount (expected given : Nat)
  | propertyOfNonInstance
  | fieldOfNonInstance
  | superclassNotClass
  | superOutsideMethod
  | initializerWithoutReceiver
deriving DecidableEq, Repr

/-- Failures of the sink that takes the output. -/
inductive OutputFault
  | sinkFull
  | flushFailed
deriving DecidableEq, Repr

/-- A fault and where it was met. Grammar and scope faults are anchored at a token. -/
inductive Diagnostic
  | lexical (line : Nat) (fault : LexicalFault)
  | grammar (anchor : Token) (fault : GrammarFault)
  | scope (anchor : Token) (fault : ScopeFault)
  | runtime (line : Nat) (fault : RuntimeFault)
  | output (fault : OutputFault)
deriving DecidableEq

/-! ### Wording -/

def LexicalFault.message : LexicalFault → String
  | unexpectedCharacter => "Unexpected character."
  | unterminatedString => "Unterminated string."
  | unterminatedComment => "Unterminated block comment."

def GrammarFault.message : GrammarFault → String
  | missingName place => "Expect " ++ place.phrase ++ "."
  | missingSymbol symbol place => "Expect '" ++ symbol.spelling ++ "' " ++ place.phrase ++ "."
  | missingExpression => "Expect expression."
  | invalidAssignmentTarget => "Invalid assignment target."
  | tooManyArguments => "Can't have more than 255 arguments."
  | tooManyParameters => "Can't have more than 255 parameters."

def ScopeFault.message : ScopeFault → String
  | redeclared => "Already a variable with this name in this scope."
  | readInOwnInitializer => "Can't read local variable in its own initializer."
  | returnOutsideFunction => "Can't return from top-level code."
  | valueFromInitializer => "Can't return a value from an initializer."
  | selfInheritance => "A class can't inherit from itself."
  | thisOutsideClass => "Can't use 'this' outside of a class."
  | superOutsideClass => "Can't use 'super' outside of a class."
  | superWithoutSuperclass => "Can't use 'super' in a class with no superclass."

def RuntimeFault.message : RuntimeFault → String
  | undefinedVariable name => "Undefined variable '" ++ name ++ "'."
  | undefinedProperty name => "Undefined property '" ++ name ++ "'."
  | operandNotNumber => "Operand must be a number."
  | operandsNotNumbers => "Operands must be numbers."
  | operandsNotAddable => "Operands must be two numbers or two strings."
  | invalidUnaryOperator => "Invalid unary operator."
  | invalidBinaryOperator => "Invalid binary operator."
  | notCallable => "Can only call functions and classes."
  | wrongArgumentCount expected given =>
    "Expected " ++ toString expected ++ " arguments but got " ++ toString given ++ "."
  | propertyOfNonInstance => "Only instances have properties."
  | fieldOfNonInstance => "Only instances have fields."
  | superclassNotClass => "Superclass must be a class."
  | superOutsideMethod => "Can't use 'super' outside of a class."
  | initializerWithoutReceiver => "Initializer called without a receiver."

def OutputFault.message : OutputFault → String
  | sinkFull => "sink full"
  | flushFailed => "flush failed"

namespace Diagnostic

/-- The wording of the cause, without line or anchor. -/
def message : Diagnostic → String
  | lexical _ fault => fault.message
  | grammar _ fault => fault.message
  | scope _ fault => fault.message
  | runtime _ fault => fault.message
  | output fault => fault.message

/-- The line a diagnostic points at; a failing sink has none. -/
def line? : Diagnostic → Option Nat
  | lexical line _ => some line
  | grammar anchor _ => some anchor.line
  | scope anchor _ => some anchor.line
  | runtime line _ => some line
  | output _ => none

/-- Where a diagnostic is anchored: at the end of the input, or at the text of a token. -/
def location (anchor : Token) : String :=
  if anchor.isEnd then " at end" else " at '" ++ anchor.lexeme ++ "'"

def located (line : Nat) (location message : String) : String :=
  "[line " ++ toString line ++ "] Error" ++ location ++ ": " ++ message

/-- The full text: static faults start with their line, runtime faults end with it. -/
def text : Diagnostic → String
  | lexical line fault => located line "" fault.message
  | grammar anchor fault => located anchor.line (location anchor) fault.message
  | scope anchor fault => located anchor.line (location anchor) fault.message
  | runtime line fault => fault.message ++ "\n[line " ++ toString line ++ "]"
  | output fault => fault.message

end Diagnostic

end Treewalk
