import Treewalk.NameMap
import Treewalk.Number.Layout
import Treewalk.Tree.Basic

/-!
# Values

Numbers, strings, booleans and `nil` are plain data. Functions, classes and instances have an
identity: two of them are equal only if one and the same evaluation step made them. A function made
twice from one declaration is two functions, and so is a method looked up twice.

## Main definitions

* `Closure`, `Class`, `Instance`, `Value`
* `Class.findMethod?` — the method a class has under a name, own or inherited
* `Value.equals`, `Value.isTruthy`, `Value.text`

## Implementation notes

A class does not change once it is made, so it is a plain value: its own layer of methods, and the
layers it inherits, nearest first. An instance is the number of its fields in the store, and its
class. Stamps tell values with an identity apart; each is given out once.
-/

namespace Treewalk

abbrev FrameId := Nat

abbrev ObjectId := Nat

/-- Identity of a function or class. -/
abbrev Stamp := Nat

/-- A function or method together with the frame around its declaration, or around its receiver. -/
structure Closure where
  routine : Routine
  frame : FrameId
  isInitializer : Bool
deriving Inhabited

def Closure.name (c : Closure) : String := c.routine.name.lexeme

def Closure.arity (c : Closure) : Nat := c.routine.parameters.length

/-- What one class declaration contributes to a class. -/
structure ClassLayer where
  stamp : Stamp
  name : String
  methods : NameMap Closure
deriving Inhabited

/-- A class: its own layer and the layers of its superclasses, nearest first. -/
structure Class where
  own : ClassLayer
  inherited : List ClassLayer
deriving Inhabited

namespace Class

def name (c : Class) : String := c.own.name

def layers (c : Class) : List ClassLayer := c.own :: c.inherited

/-- The class a layer on top of `superclass` makes. -/
def extend (layer : ClassLayer) (superclass : Option Class) : Class :=
  ⟨layer, (superclass.map layers).getD []⟩

def superclass? (c : Class) : Option Class :=
  match c.inherited with
  | [] => none
  | own :: inherited => some ⟨own, inherited⟩

/-- The method of the nearest layer that has one under `name`. -/
def findMethod? (c : Class) (name : String) : Option Closure :=
  c.layers.findSome? (·.methods.get? name)

/-- The method that runs when an instance is made. -/
def initializer? (c : Class) : Option Closure := c.findMethod? "init"

/-- A class takes the arguments of its initializer. -/
def arity (c : Class) : Nat := (c.initializer?.map Closure.arity).getD 0

theorem superclass?_extend (layer : ClassLayer) (superclass : Option Class) :
    (extend layer superclass).superclass? = superclass := by
  cases superclass <;> rfl

/-- A method is looked up in the class itself first and in its superclass otherwise. -/
theorem findMethod?_eq (c : Class) (name : String) :
    c.findMethod? name =
      (c.own.methods.get? name).or (c.superclass?.bind (·.findMethod? name)) := by
  obtain ⟨own, inherited⟩ := c
  cases inherited <;> cases h : own.methods.get? name <;>
    simp [findMethod?, layers, superclass?, List.findSome?_cons, h]

end Class

structure Instance where
  id : ObjectId
  «class» : Class
deriving Inhabited

/-- Functions that no program declares. -/
inductive Native
  | clock
deriving DecidableEq, Repr, Inhabited

def Native.arity : Native → Nat
  | clock => 0

inductive Value
  | native (function : Native)
  | function (stamp : Stamp) (closure : Closure)
  | «class» (value : Class)
  | instance (object : Instance)
  | number (value : Float)
  | string (text : String)
  | boolean (value : Bool)
  | nil
deriving Inhabited

namespace Value

def ofLiteral : Literal → Value
  | .number value => number value
  | .string text => string text
  | .boolean value => boolean value
  | .nil => nil

/-- Everything but `nil` and `false` counts as true. -/
def isTruthy : Value → Bool
  | nil => false
  | boolean value => value
  | _ => true

/-- Equality: of plain data by value, of all else by identity. Numbers are compared as numbers, so
that the two zeros are equal and NaN differs from itself. -/
def equals : Value → Value → Bool
  | native a, native b => a = b
  | function a _, function b _ => a == b
  | .class a, .class b => a.own.stamp == b.own.stamp
  | .instance a, .instance b => a.id == b.id
  | number a, number b => a == b
  | string a, string b => a == b
  | boolean a, boolean b => a == b
  | nil, nil => true
  | _, _ => false

/-- What `print` writes for a value. -/
def text : Value → String
  | native _ => "<native fn>"
  | function _ closure => "<fn " ++ closure.name ++ ">"
  | .class c => c.name
  | .instance object => object.class.name ++ " instance"
  | number value => Number.printed value
  | string text => text
  | boolean value => if value then "true" else "false"
  | nil => "nil"

end Value

end Treewalk
