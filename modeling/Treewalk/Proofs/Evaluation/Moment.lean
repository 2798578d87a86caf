import Treewalk.Evaluation.Evaluate
import Treewalk.Proofs.Scope.Twin

/-!
# What happens in a run

Everything a machine sets out to do in the course of a run, and where in the program it stands then.
A place is told as scope analysis tells it, together with the frames that were made when the scopes
around it were entered: a block adds the frame it makes, a body the frame of its call. The frames
around a body are those around the declaration it was made from, at the time when it was made. A
place inside a method also tells the instance the method was bound to, and the class that its class
declaration found as the superclass.

## Main definitions

* `Place` — a place in a program, and what was made for the scopes around it
* `Moment` — what the machine sets out to do
* `Store.Extends` — nothing is lost on the way from one store to another
* `Happens` — the moments of a run, and the place of each
* `Raises` — the faults that a moment ends with, other than those of its parts

## Implementation notes

The moments are read off the evaluator: where it evaluates a part and goes on, the next moment has
the machine that the part left. No rule tells what the frames of a store are; that they are those of
the place is a theorem.

A function is made when it is declared, and a method when it is bound to a receiver; until then a
class merely has it. A body runs at every place where its closure was made before. There is always
such a place, which is a theorem as well.
-/

namespace Treewalk

/-- A place in the `origin`-th program, reached while the `text`-th one is run. The frames are those
that were made when the scopes around it were entered, innermost first. Inside a method the
receiver is the instance the method was bound to, and inside a class the superclass is the one it
has. -/
structure Place where
  text : Nat
  origin : Nat
  site : Site
  frames : List FrameId
  method : Option Closure
  receiver : Option Instance
  superclass : Option Class

namespace Place

/-- The top level of the `text`-th program. -/
def top (text : Nat) : Place := ⟨text, text, .top, [], none, none, none⟩

def enter (place : Place) (scope : Scope) (frame : FrameId) : Place :=
  { place with site := place.site.enter scope, frames := frame :: place.frames }

/-- The place behind a statement. -/
def behind (place : Place) (s : Stmt) : Place := { place with site := (s.analyse place.site).2 }

/-- The place behind the declaration of a name. -/
def introduce (place : Place) (name : Token) : Place :=
  { place with site := (place.site.introduce name).2 }

/-- The place of a body that runs in `frame`. -/
def body (place : Place) (context : RoutineContext) (parameters : List Token) (frame : FrameId) :
    Place :=
  { place with site := place.site.body context parameters, frames := frame :: place.frames }

/-- The place around the methods of a class whose superclass clause names `c`; `frame` binds `super`
if there is a superclass. -/
def aroundMethods (place : Place) (superclass : Option Use) (c : Option Class) (frame : FrameId) :
    Place :=
  { place with
    site := place.site.aroundMethods superclass
    frames := match superclass with
      | none => place.frames
      | some _ => frame :: place.frames
    superclass := c }

/-- The place of a method that is bound to an instance in `frame`. -/
def inMethod (place : Place) (method : Closure) (receiver : Instance) (frame : FrameId) : Place :=
  { place.enter (.single "this") frame with method := some method, receiver := some receiver }

/-- The place, reached while the `text`-th program is run. -/
def during (place : Place) (text : Nat) : Place := { place with text }

end Place

/-- What the machine sets out to do, and its state at that time. -/
inductive Moment
  | evaluate (fuel : Nat) (e : Expr) (m : Machine)
  | evaluateAll (fuel : Nat) (es : List Expr) (m : Machine)
  | call (fuel : Nat) (callee : Value) (paren : Token) (arguments : List Value) (m : Machine)
  | invoke (fuel : Nat) (closure : Closure) (paren : Token) (arguments : List Value) (m : Machine)
  | execute (fuel : Nat) (s : Stmt) (m : Machine)
  | executeAll (fuel : Nat) (ss : List Stmt) (m : Machine)
  | executeWhile (fuel : Nat) (condition : Expr) (body : Stmt) (m : Machine)
  | program (fuel : Nat) (ss : List Stmt) (m : Machine)
  /-- A use is read or written. -/
  | access (kind : OccurrenceKind) (use : Use) (m : Machine)
  /-- A class has a method. -/
  | own (method : Closure) (m : Machine)
  /-- A method is bound to a receiver. -/
  | bind (method : Closure) (receiver : Instance) (m : Machine)
  /-- A closure was made. -/
  | make (closure : Closure) (context : RoutineContext) (m : Machine)

def Moment.machine : Moment → Machine
  | evaluate _ _ m | evaluateAll _ _ m | call _ _ _ _ m | invoke _ _ _ _ m | execute _ _ m
  | executeAll _ _ m | executeWhile _ _ _ m | program _ _ m | access _ _ m | own _ m | bind _ _ m
  | make _ _ m => m

/-- The names that are bound once and for all in the frames that bind them. -/
def IsReserved (name : String) : Prop := name = "this" ∨ name = "super"

/-- All frames are there as they were, what they bound is still bound, and the reserved names have
kept their values. -/
structure Store.Extends (s s' : Store) : Prop where
  size_le : s.frames.size ≤ s'.frames.size
  enclosing?_eq : ∀ frame < s.frames.size, s'.enclosing? frame = s.enclosing? frame
  isSome_local? : ∀ frame name, (s.local? frame name).isSome → (s'.local? frame name).isSome
  reserved_eq : ∀ frame name, IsReserved name → (s.local? frame name).isSome →
    s'.local? frame name = s.local? frame name

namespace Eval

/-- The class that the superclass clause of a class names. -/
def superclassClassOf (superclass : Option Use) : Eval (Option Class) :=
  match superclass with
  | none => pure none
  | some use => some <$> superclassOf use

theorem declareClass_eq (name : Token) (superclass : Option Use) (methods : List Routine) :
    declareClass name superclass methods = (do
      let superclass ← superclassClassOf superclass
      define name.lexeme .nil
      let frame ← methodFrame superclass
      let stamp ← freshStamp
      assignNearest name (.class (.extend ⟨stamp, name.lexeme, .ofList (methods.map fun method =>
        (method.name.lexeme, methodClosure frame method))⟩ superclass))) := by
  cases superclass <;> rfl

/-- The frame of a call, which binds the parameters to the arguments. -/
def callFrame (enclosing : FrameId) (parameters : List Token) (arguments : List Value) :
    Eval FrameId := do
  let frame ← newFrame enclosing
  defineAllIn frame ((parameters.map Token.lexeme).zip arguments)
  return frame

theorem invoke_succ_eq (fuel : Nat) (closure : Closure) (paren : Token) (arguments : List Value) :
    invoke (fuel + 1) closure paren arguments = (do
      let frame ← callFrame closure.frame closure.routine.parameters arguments
      let flow ← inFrame frame (executeAll fuel closure.routine.body)
      if closure.isInitializer then receiverOf closure paren else return flow.result) := by
  simp only [invoke, callFrame, bind_assoc, pure_bind]

end Eval

/-- How many arguments a value that can be called takes. -/
def Value.arity? : Value → Option Nat
  | .native f => some f.arity
  | .function _ closure => some closure.arity
  | .class c => some c.arity
  | _ => none

open Eval

/-- The moments of runs that begin with the moments of `R`. -/
inductive Happens (R : Place → Moment → Prop) : Place → Moment → Prop
  | root {place : Place} {moment : Moment} (h : R place moment) : Happens R place moment
  -- expressions
  | group {place : Place} {fuel : Nat} {inner : Expr} {m : Machine}
      (h : Happens R place (.evaluate (fuel + 1) (.group inner) m)) :
      Happens R place (.evaluate fuel inner m)
  | operand {place : Place} {fuel : Nat} {operator : Token} {operand : Expr} {m : Machine}
      (h : Happens R place (.evaluate (fuel + 1) (.unary operator operand) m)) :
      Happens R place (.evaluate fuel operand m)
  | left {place : Place} {fuel : Nat} {left right : Expr} {operator : Token} {m : Machine}
      (h : Happens R place (.evaluate (fuel + 1) (.binary left operator right) m)) :
      Happens R place (.evaluate fuel left m)
  | right {place : Place} {fuel : Nat} {left right : Expr} {operator : Token} {value : Value}
      {m m₁ : Machine} (h : Happens R place (.evaluate (fuel + 1) (.binary left operator right) m))
      (hleft : evaluate fuel left m = .ok value m₁) : Happens R place (.evaluate fuel right m₁)
  | decider {place : Place} {fuel : Nat} {left right : Expr} {operator : Token} {m : Machine}
      (h : Happens R place (.evaluate (fuel + 1) (.logical left operator right) m)) :
      Happens R place (.evaluate fuel left m)
  | alternative {place : Place} {fuel : Nat} {left right : Expr} {operator : Token} {value : Value}
      {m m₁ : Machine} (h : Happens R place (.evaluate (fuel + 1) (.logical left operator right) m))
      (hleft : evaluate fuel left m = .ok value m₁) (hvalue : value.decides operator.kind = false) :
      Happens R place (.evaluate fuel right m₁)
  | read {place : Place} {fuel : Nat} {use : Use} {m : Machine}
      (h : Happens R place (.evaluate (fuel + 1) (.variable use) m)) :
      Happens R place (.access .variable use m)
  | assigned {place : Place} {fuel : Nat} {use : Use} {value : Expr} {m : Machine}
      (h : Happens R place (.evaluate (fuel + 1) (.assign use value) m)) :
      Happens R place (.evaluate fuel value m)
  | write {place : Place} {fuel : Nat} {use : Use} {value : Expr} {v : Value} {m m₁ : Machine}
      (h : Happens R place (.evaluate (fuel + 1) (.assign use value) m))
      (hvalue : evaluate fuel value m = .ok v m₁) : Happens R place (.access .assign use m₁)
  | callee {place : Place} {fuel : Nat} {callee : Expr} {paren : Token} {arguments : List Expr}
      {m : Machine} (h : Happens R place (.evaluate (fuel + 1) (.call callee paren arguments) m)) :
      Happens R place (.evaluate fuel callee m)
  | arguments {place : Place} {fuel : Nat} {callee : Expr} {paren : Token} {arguments : List Expr}
      {value : Value} {m m₁ : Machine}
      (h : Happens R place (.evaluate (fuel + 1) (.call callee paren arguments) m))
      (hcallee : evaluate fuel callee m = .ok value m₁) :
      Happens R place (.evaluateAll fuel arguments m₁)
  | call {place : Place} {fuel : Nat} {callee : Expr} {paren : Token} {arguments : List Expr}
      {value : Value} {values : List Value} {m m₁ m₂ : Machine}
      (h : Happens R place (.evaluate (fuel + 1) (.call callee paren arguments) m))
      (hcallee : evaluate fuel callee m = .ok value m₁)
      (harguments : evaluateAll fuel arguments m₁ = .ok values m₂) :
      Happens R place (.call fuel value paren values m₂)
  | object {place : Place} {fuel : Nat} {object : Expr} {name : Token} {m : Machine}
      (h : Happens R place (.evaluate (fuel + 1) (.property object name) m)) :
      Happens R place (.evaluate fuel object m)
  | bindProperty {place : Place} {fuel : Nat} {object : Expr} {name : Token} {receiver : Instance}
      {method : Closure} {m m₁ : Machine}
      (h : Happens R place (.evaluate (fuel + 1) (.property object name) m))
      (hobject : evaluate fuel object m = .ok (.instance receiver) m₁)
      (hfield : m₁.store.field? receiver.id name.lexeme = none)
      (hmethod : receiver.class.findMethod? name.lexeme = some method) :
      Happens R place (.bind method receiver m₁)
  | target {place : Place} {fuel : Nat} {object value : Expr} {name : Token} {m : Machine}
      (h : Happens R place (.evaluate (fuel + 1) (.setProperty object name value) m)) :
      Happens R place (.evaluate fuel object m)
  | field {place : Place} {fuel : Nat} {object value : Expr} {name : Token} {receiver : Instance}
      {m m₁ : Machine}
      (h : Happens R place (.evaluate (fuel + 1) (.setProperty object name value) m))
      (hobject : evaluate fuel object m = .ok (.instance receiver) m₁) :
      Happens R place (.evaluate fuel value m₁)
  | this {place : Place} {fuel : Nat} {use : Use} {m : Machine}
      (h : Happens R place (.evaluate (fuel + 1) (.this use) m)) :
      Happens R place (.access .this use m)
  | super {place : Place} {fuel : Nat} {use : Use} {name : Token} {m : Machine}
      (h : Happens R place (.evaluate (fuel + 1) (.super use name) m)) :
      Happens R place (.access .super use m)
  | bindSuper {place : Place} {fuel depth : Nat} {use : Use} {name this : Token} {c : Class}
      {receiver : Instance} {method : Closure} {m : Machine}
      (h : Happens R place (.evaluate (fuel + 1) (.super use name) m))
      (hdepth : m.depths.depth? use.id = some (depth + 1))
      (hc : m.store.getAt (depth + 1) m.current use.token = .ok (.class c))
      (hreceiver : m.store.getAt depth m.current this = .ok (.instance receiver))
      (hthis : this.lexeme = "this") (hmethod : c.findMethod? name.lexeme = some method) :
      Happens R place (.bind method receiver m)
  | first {place : Place} {fuel : Nat} {e : Expr} {rest : List Expr} {m : Machine}
      (h : Happens R place (.evaluateAll (fuel + 1) (e :: rest) m)) :
      Happens R place (.evaluate fuel e m)
  | others {place : Place} {fuel : Nat} {e : Expr} {rest : List Expr} {value : Value}
      {m m₁ : Machine} (h : Happens R place (.evaluateAll (fuel + 1) (e :: rest) m))
      (he : evaluate fuel e m = .ok value m₁) : Happens R place (.evaluateAll fuel rest m₁)
  -- calls
  | invoke {place : Place} {fuel : Nat} {stamp : Stamp} {closure : Closure} {paren : Token}
      {values : List Value} {m : Machine}
      (h : Happens R place (.call (fuel + 1) (.function stamp closure) paren values m))
      (harity : values.length = closure.arity) :
      Happens R place (.invoke fuel closure paren values m)
  | bindInitializer {place : Place} {fuel : Nat} {c : Class} {paren : Token} {values : List Value}
      {object : Instance} {initializer : Closure} {m m₁ : Machine}
      (h : Happens R place (.call (fuel + 1) (.class c) paren values m))
      (harity : values.length = c.arity) (hobject : newInstance c m = .ok object m₁)
      (hinitializer : c.initializer? = some initializer) :
      Happens R place (.bind initializer object m₁)
  | invokeInitializer {place : Place} {fuel : Nat} {c : Class} {paren : Token} {values : List Value}
      {object : Instance} {initializer bound : Closure} {m m₁ m₂ : Machine}
      (h : Happens R place (.call (fuel + 1) (.class c) paren values m))
      (harity : values.length = c.arity) (hobject : newInstance c m = .ok object m₁)
      (hinitializer : c.initializer? = some initializer)
      (hbound : bindReceiver initializer object m₁ = .ok bound m₂) :
      Happens R place (.invoke fuel bound paren values m₂)
  | body {caller place : Place} {fuel : Nat} {closure : Closure} {context : RoutineContext}
      {paren : Token} {values : List Value} {frame : FrameId} {m₀ m m₁ : Machine}
      (h : Happens R caller (.invoke (fuel + 1) closure paren values m))
      (hmake : Happens R place (.make closure context m₀)) (htext : place.text ≤ caller.text)
      (hbefore : m₀.store.Extends m.store)
      (hframe : callFrame closure.frame closure.routine.parameters values m = .ok frame m₁) :
      Happens R ((place.body context closure.routine.parameters frame).during caller.text)
        (.executeAll fuel closure.routine.body { m₁ with current := frame })
  | bound {user place : Place} {method bound : Closure} {receiver : Instance} {m₀ m m₁ : Machine}
      (h : Happens R user (.bind method receiver m)) (hown : Happens R place (.own method m₀))
      (htext : place.text ≤ user.text) (hbefore : m₀.store.Extends m.store)
      (hbound : bindReceiver method receiver m = .ok bound m₁) :
      Happens R ((place.inMethod method receiver bound.frame).during user.text)
        (.make bound (methodContext method.routine.name) m₁)
  -- statements
  | expression {place : Place} {fuel : Nat} {value : Expr} {m : Machine}
      (h : Happens R place (.execute (fuel + 1) (.expression value) m)) :
      Happens R place (.evaluate fuel value m)
  | print {place : Place} {fuel : Nat} {value : Expr} {m : Machine}
      (h : Happens R place (.execute (fuel + 1) (.print value) m)) :
      Happens R place (.evaluate fuel value m)
  | definition {place : Place} {fuel : Nat} {name : Token} {value : Expr} {m : Machine}
      (h : Happens R place (.execute (fuel + 1) (.var name (some value)) m)) :
      Happens R { place with site := (place.site.declare name).2 } (.evaluate fuel value m)
  | block {place : Place} {fuel : Nat} {body : List Stmt} {frame : FrameId} {m m₁ : Machine}
      (h : Happens R place (.execute (fuel + 1) (.block body) m))
      (hframe : newFrame m.current m = .ok frame m₁) :
      Happens R (place.enter .empty frame) (.executeAll fuel body { m₁ with current := frame })
  | condition {place : Place} {fuel : Nat} {condition : Expr} {branch : Stmt} {other : Option Stmt}
      {m : Machine} (h : Happens R place (.execute (fuel + 1) (.if condition branch other) m)) :
      Happens R place (.evaluate fuel condition m)
  | thenBranch {place : Place} {fuel : Nat} {condition : Expr} {branch : Stmt} {other : Option Stmt}
      {value : Value} {m m₁ : Machine}
      (h : Happens R place (.execute (fuel + 1) (.if condition branch other) m))
      (hcondition : evaluate fuel condition m = .ok value m₁) (hvalue : value.isTruthy) :
      Happens R place (.execute fuel branch m₁)
  | elseBranch {place : Place} {fuel : Nat} {condition : Expr} {branch other : Stmt} {value : Value}
      {m m₁ : Machine}
      (h : Happens R place (.execute (fuel + 1) (.if condition branch (some other)) m))
      (hcondition : evaluate fuel condition m = .ok value m₁) (hvalue : value.isTruthy = false) :
      Happens R place (.execute fuel other m₁)
  | loop {place : Place} {fuel : Nat} {condition : Expr} {body : Stmt} {m : Machine}
      (h : Happens R place (.execute (fuel + 1) (.while condition body) m)) :
      Happens R place (.executeWhile fuel condition body m)
  | function {place : Place} {fuel : Nat} {routine : Routine} {m m₁ : Machine}
      (h : Happens R place (.execute (fuel + 1) (.function routine) m))
      (hdeclare : declareFunction routine m = .ok () m₁) :
      Happens R (place.introduce routine.name) (.make ⟨routine, m.current, false⟩ .function m₁)
  | returned {place : Place} {fuel : Nat} {keyword : Token} {value : Expr} {m : Machine}
      (h : Happens R place (.execute (fuel + 1) (.return keyword (some value)) m)) :
      Happens R place (.evaluate fuel value m)
  | superclass {place : Place} {fuel : Nat} {name : Token} {use : Use} {methods : List Routine}
      {m : Machine} (h : Happens R place (.execute (fuel + 1) (.class name (some use) methods) m)) :
      Happens R place (.access .variable use m)
  | own {place : Place} {fuel : Nat} {name : Token} {superclass : Option Use}
      {methods : List Routine} {method : Routine} {c : Option Class} {frame : FrameId}
      {m m₁ m₂ m₃ : Machine}
      (h : Happens R place (.execute (fuel + 1) (.class name superclass methods) m))
      (hsuperclass : superclassClassOf superclass m = .ok c m₁)
      (hdefine : Eval.define name.lexeme .nil m₁ = .ok () m₂)
      (hframe : methodFrame c m₂ = .ok frame m₃) (hmethod : method ∈ methods) :
      Happens R ((place.introduce name).aroundMethods superclass c frame)
        (.own (methodClosure frame method) m₃)
  | statement {place : Place} {fuel : Nat} {s : Stmt} {rest : List Stmt} {m : Machine}
      (h : Happens R place (.executeAll (fuel + 1) (s :: rest) m)) :
      Happens R place (.execute fuel s m)
  | statements {place : Place} {fuel : Nat} {s : Stmt} {rest : List Stmt} {m m₁ : Machine}
      (h : Happens R place (.executeAll (fuel + 1) (s :: rest) m))
      (hs : execute fuel s m = .ok .normal m₁) :
      Happens R (place.behind s) (.executeAll fuel rest m₁)
  | check {place : Place} {fuel : Nat} {condition : Expr} {body : Stmt} {m : Machine}
      (h : Happens R place (.executeWhile (fuel + 1) condition body m)) :
      Happens R place (.evaluate fuel condition m)
  | round {place : Place} {fuel : Nat} {condition : Expr} {body : Stmt} {value : Value}
      {m m₁ : Machine} (h : Happens R place (.executeWhile (fuel + 1) condition body m))
      (hcondition : evaluate fuel condition m = .ok value m₁) (hvalue : value.isTruthy) :
      Happens R place (.execute fuel body m₁)
  | again {place : Place} {fuel : Nat} {condition : Expr} {body : Stmt} {value : Value}
      {m m₁ m₂ : Machine} (h : Happens R place (.executeWhile (fuel + 1) condition body m))
      (hcondition : evaluate fuel condition m = .ok value m₁) (hvalue : value.isTruthy)
      (hbody : execute fuel body m₁ = .ok .normal m₂) :
      Happens R place (.executeWhile fuel condition body m₂)
  -- programs
  | top {place : Place} {fuel : Nat} {s : Stmt} {rest : List Stmt} {m : Machine}
      (h : Happens R place (.program fuel (s :: rest) m)) : Happens R place (.execute fuel s m)
  | topRest {place : Place} {fuel : Nat} {s : Stmt} {rest : List Stmt} {flow : Flow}
      {m m₁ : Machine} (h : Happens R place (.program fuel (s :: rest) m))
      (hs : execute fuel s m = .ok flow m₁) :
      Happens R (place.behind s) (.program fuel rest m₁)

/-- The runtime faults that a moment ends with, other than those of its parts: the token at which
the fault is reported, and its cause. -/
inductive Raises : Moment → Token → RuntimeFault → Prop
  | operand {fuel : Nat} {operator : Token} {operand : Expr} {v : Value} {m m₁ : Machine}
      {cause : RuntimeFault} (hoperand : evaluate fuel operand m = .ok v m₁)
      (h : v.applyUnary operator.kind = .error cause) :
      Raises (.evaluate (fuel + 1) (.unary operator operand) m) operator cause
  | operands {fuel : Nat} {left right : Expr} {operator : Token} {v w : Value} {m m₁ m₂ : Machine}
      {cause : RuntimeFault} (hleft : evaluate fuel left m = .ok v m₁)
      (hright : evaluate fuel right m₁ = .ok w m₂)
      (h : v.applyBinary operator.kind w = .error cause) :
      Raises (.evaluate (fuel + 1) (.binary left operator right) m) operator cause
  /-- A name without a depth, which the globals do not bind. -/
  | access {kind : OccurrenceKind} {use : Use} {m : Machine}
      (hdepth : m.depths.depth? use.id = none) (h : m.store.local? globals use.name = none) :
      Raises (.access kind use m) use.token (.undefinedVariable use.name)
  | property {fuel : Nat} {object : Expr} {name : Token} {v : Value} {m m₁ : Machine}
      (hobject : evaluate fuel object m = .ok v m₁) (h : ∀ receiver, v ≠ .instance receiver) :
      Raises (.evaluate (fuel + 1) (.property object name) m) name .propertyOfNonInstance
  | undefinedProperty {fuel : Nat} {object : Expr} {name : Token} {receiver : Instance}
      {m m₁ : Machine} (hobject : evaluate fuel object m = .ok (.instance receiver) m₁)
      (hfield : m₁.store.field? receiver.id name.lexeme = none)
      (h : receiver.class.findMethod? name.lexeme = none) :
      Raises (.evaluate (fuel + 1) (.property object name) m) name (.undefinedProperty name.lexeme)
  | field {fuel : Nat} {object value : Expr} {name : Token} {v : Value} {m m₁ : Machine}
      (hobject : evaluate fuel object m = .ok v m₁) (h : ∀ receiver, v ≠ .instance receiver) :
      Raises (.evaluate (fuel + 1) (.setProperty object name value) m) name .fieldOfNonInstance
  | undefinedMethod {fuel depth : Nat} {use : Use} {name : Token} {c : Class} {m : Machine}
      (hdepth : m.depths.depth? use.id = some (depth + 1))
      (hc : m.store.getAt (depth + 1) m.current use.token = .ok (.class c))
      (h : c.findMethod? name.lexeme = none) :
      Raises (.evaluate (fuel + 1) (.super use name) m) name (.undefinedProperty name.lexeme)
  | super {fuel : Nat} {use : Use} {name : Token} {m m₁ : Machine}
      (h : superMethod use name m =
        .error (.fault (.runtime use.token.line .superOutsideMethod)) m₁) :
      Raises (.evaluate (fuel + 1) (.super use name) m) use.token .superOutsideMethod
  | notCallable {fuel : Nat} {v : Value} {paren : Token} {values : List Value} {m : Machine}
      (h : v.arity? = none) : Raises (.call (fuel + 1) v paren values m) paren .notCallable
  | arity {fuel expected : Nat} {v : Value} {paren : Token} {values : List Value} {m : Machine}
      (hv : v.arity? = some expected) (h : values.length ≠ expected) :
      Raises (.call (fuel + 1) v paren values m) paren (.wrongArgumentCount expected values.length)
  | initializer {fuel : Nat} {closure : Closure} {paren : Token} {values : List Value} {m : Machine}
      (hinitializer : closure.isInitializer = true)
      (h : m.store.local? closure.frame "this" = none) :
      Raises (.invoke (fuel + 1) closure paren values m) paren .initializerWithoutReceiver
  | superclass {fuel : Nat} {name : Token} {use : Use} {methods : List Routine} {v : Value}
      {m m₁ : Machine} (hv : lookUp use m = .ok v m₁) (h : ∀ c, v ≠ .class c) :
      Raises (.execute (fuel + 1) (.class name (some use) methods) m) use.token .superclassNotClass

end Treewalk
