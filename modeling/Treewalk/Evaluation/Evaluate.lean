import Treewalk.Evaluation.Operator
import Treewalk.Machine.Basic

/-!
# Evaluation

Expressions are evaluated to values and statements are executed, one after the other, by walking
the tree. A `return` travels up as the flow of a statement, and ends at the call it belongs to.

## Main definitions

* `Flow` — how a statement ends
* `Eval.evaluate`, `Eval.execute` — evaluation of an expression and of a statement
* `Eval.call`, `Eval.invoke` — calls of a value and of a closure
* `Eval.interpret` — execution of a program

## Implementation notes

Programs need not terminate, so all functions recurse on a fuel argument, which every nested
evaluation and every round of a loop has one less of. Using it up is `Halt.exhausted`, which no
program can see.
-/

namespace Treewalk

/-- How a statement ends: by reaching its end, or by a `return`. -/
inductive Flow
  | normal
  | returned (value : Value)
deriving Inhabited

/-- The value of the call whose body ended this way. -/
def Flow.result : Flow → Value
  | normal => .nil
  | returned value => value

namespace Eval

/-- Whatever its body returns, an initializer gives its receiver. -/
def receiverOf (initializer : Closure) (paren : Token) : Eval Value := do
  match (← get).store.local? initializer.frame "this" with
  | some receiver => return receiver
  | none => fail paren .initializerWithoutReceiver

/-- A method of the superclass, bound to the receiver of the method around it. The frame that binds
`this` is directly inside the one that binds `super`. -/
def superMethod (use : Use) (method : Token) : Eval Value := do
  let m ← get
  match m.depths.depth? use.id with
  | some (depth + 1) =>
    let superclass ← orFail (m.store.getAt (depth + 1) m.current use.token)
    let receiver ← orFail (m.store.getAt depth m.current ⟨.keyword .this, "this", use.token.line⟩)
    match superclass, receiver with
    | .class superclass, .instance receiver =>
      match superclass.findMethod? method.lexeme with
      | some found => newFunction (← bindReceiver found receiver)
      | none => fail method (.undefinedProperty method.lexeme)
    | _, _ => fail use.token .superOutsideMethod
  | _ => fail use.token .superOutsideMethod

/-- The superclass a class declaration names. -/
def superclassOf (use : Use) : Eval Class := do
  match ← lookUp use with
  | .class c => return c
  | _ => fail use.token .superclassNotClass

/-- The frame around the methods of a class: the current one, or one inside it that binds
`super`. -/
def methodFrame (superclass : Option Class) : Eval FrameId := do
  let current := (← get).current
  match superclass with
  | none => return current
  | some c =>
    let frame ← newFrame current
    defineIn frame "super" (.class c)
    return frame

def methodClosure (frame : FrameId) (method : Routine) : Closure :=
  ⟨method, frame, method.name.lexeme = "init"⟩

/-- Declares a class. Its name is bound before its methods are made, so that they can use it. -/
def declareClass (name : Token) (superclass : Option Use) (methods : List Routine) :
    Eval Unit := do
  let superclass ← match superclass with
    | none => pure none
    | some use => some <$> superclassOf use
  define name.lexeme .nil
  let frame ← methodFrame superclass
  let closures := methods.map fun method => (method.name.lexeme, methodClosure frame method)
  let layer : ClassLayer := ⟨← freshStamp, name.lexeme, .ofList closures⟩
  assignNearest name (.class (.extend layer superclass))

/-- Declares a function in the current frame, which it keeps. -/
def declareFunction (routine : Routine) : Eval Unit := do
  let frame := (← get).current
  define routine.name.lexeme (← newFunction ⟨routine, frame, false⟩)

/-- Faults unless a call gives as many arguments as are expected. -/
def checkArity (paren : Token) (expected given : Nat) : Eval Unit :=
  if given = expected then pure () else fail paren (.wrongArgumentCount expected given)

def orFailAt (anchor : Token) : Except RuntimeFault α → Eval α
  | .ok a => return a
  | .error cause => fail anchor cause

mutual

def evaluate : Nat → Expr → Eval Value
  | 0, _ => throw .exhausted
  | fuel + 1, expr => do
    match expr with
    | .literal value => return .ofLiteral value
    | .group inner => evaluate fuel inner
    | .unary operator operand =>
      let operand ← evaluate fuel operand
      orFailAt operator (operand.applyUnary operator.kind)
    | .binary left operator right =>
      let left ← evaluate fuel left
      let right ← evaluate fuel right
      orFailAt operator (left.applyBinary operator.kind right)
    | .logical left operator right =>
      let left ← evaluate fuel left
      if left.decides operator.kind then return left else evaluate fuel right
    | .variable use => lookUp use
    | .assign target value =>
      let value ← evaluate fuel value
      assign target value
      return value
    | .call callee paren arguments =>
      let callee ← evaluate fuel callee
      let arguments ← evaluateAll fuel arguments
      call fuel callee paren arguments
    | .property object name =>
      match ← evaluate fuel object with
      | .instance receiver => getProperty receiver name
      | _ => fail name .propertyOfNonInstance
    | .setProperty object name value =>
      match ← evaluate fuel object with
      | .instance receiver =>
        let value ← evaluate fuel value
        setProperty receiver name value
        return value
      | _ => fail name .fieldOfNonInstance
    | .this use => lookUp use
    | .super use method => superMethod use method

/-- Evaluates expressions in order. -/
def evaluateAll : Nat → List Expr → Eval (List Value)
  | 0, _ => throw .exhausted
  | fuel + 1, exprs => do
    match exprs with
    | [] => return []
    | first :: rest =>
      let value ← evaluate fuel first
      return value :: (← evaluateAll fuel rest)

/-- Calls a value. Calling a class makes an instance of it and runs the initializer on that. -/
def call : Nat → Value → Token → List Value → Eval Value
  | 0, _, _, _ => throw .exhausted
  | fuel + 1, callee, paren, arguments => do
    match callee with
    | .native .clock =>
      checkArity paren Native.clock.arity arguments.length
      readClock
    | .function _ closure =>
      checkArity paren closure.arity arguments.length
      invoke fuel closure paren arguments
    | .class c =>
      checkArity paren c.arity arguments.length
      let object ← newInstance c
      match c.initializer? with
      | none => return .instance object
      | some initializer =>
        let bound ← bindReceiver initializer object
        let _ ← invoke fuel bound paren arguments
        return .instance object
    | _ => fail paren .notCallable

/-- Runs the body of a closure in a new frame, which binds the parameters and is inside the frame
the closure keeps. -/
def invoke : Nat → Closure → Token → List Value → Eval Value
  | 0, _, _, _ => throw .exhausted
  | fuel + 1, closure, paren, arguments => do
    let frame ← newFrame closure.frame
    defineAllIn frame ((closure.routine.parameters.map Token.lexeme).zip arguments)
    let flow ← inFrame frame (executeAll fuel closure.routine.body)
    if closure.isInitializer then receiverOf closure paren else return flow.result

def execute : Nat → Stmt → Eval Flow
  | 0, _ => throw .exhausted
  | fuel + 1, stmt => do
    match stmt with
    | .expression value =>
      let _ ← evaluate fuel value
      return .normal
    | .print value =>
      let value ← evaluate fuel value
      printLine value.text
      return .normal
    | .var name none =>
      define name.lexeme .nil
      return .normal
    | .var name (some initializer) =>
      define name.lexeme (← evaluate fuel initializer)
      return .normal
    | .block body =>
      let frame ← newFrame (← get).current
      inFrame frame (executeAll fuel body)
    | .if condition thenBranch elseBranch =>
      if (← evaluate fuel condition).isTruthy then execute fuel thenBranch
      else
        match elseBranch with
        | some elseBranch => execute fuel elseBranch
        | none => return .normal
    | .while condition body => executeWhile fuel condition body
    | .function routine =>
      declareFunction routine
      return .normal
    | .return _ none => return .returned .nil
    | .return _ (some value) => return .returned (← evaluate fuel value)
    | .class name superclass methods =>
      declareClass name superclass methods
      return .normal

/-- Executes statements in order, up to the first that returns. -/
def executeAll : Nat → List Stmt → Eval Flow
  | 0, _ => throw .exhausted
  | fuel + 1, stmts => do
    match stmts with
    | [] => return .normal
    | first :: rest =>
      match ← execute fuel first with
      | .normal => executeAll fuel rest
      | .returned value => return .returned value

/-- Executes the body as long as the condition holds and the body does not return. -/
def executeWhile : Nat → Expr → Stmt → Eval Flow
  | 0, _, _ => throw .exhausted
  | fuel + 1, condition, body => do
    if (← evaluate fuel condition).isTruthy then
      match ← execute fuel body with
      | .normal => executeWhile fuel condition body
      | .returned value => return .returned value
    else return .normal

end

/-- Executes top-level statements in order. A `return` among them ends its own statement only. -/
def executeProgram (fuel : Nat) : List Stmt → Eval Unit
  | [] => return ()
  | first :: rest => do
    let _ ← execute fuel first
    executeProgram fuel rest

/-- Executes a program and flushes its output. -/
def interpret (fuel : Nat) (program : List Stmt) : Eval Unit := do
  executeProgram fuel program
  flushOutput

end Eval

end Treewalk
