import Treewalk.Proofs.Evaluation.Founded

/-!
# Class declarations

A class declaration binds the name of the class twice. While its methods are made, the name is bound
to `nil`, so that it is there for them, and afterwards to the class. Only its superclass clause can
fail, and this comes first. Seen from outside, a declaration binds one name, to a class made from
all that was there before.

## Main definitions

* `Store.MethodFrame` — the frame around the methods of a class
* `Machine.withClass` — the machine after the declaration of a class
* `Machine.Declares` — what has changed after the declaration of a class, and what has not

## Main results

* `Eval.machine_of_superclassClassOf` — looking the superclass up changes nothing
* `Eval.declareClass_eq_withClass` — once its superclass is found, a class is declared
-/

namespace Treewalk

open Eval

/-- The last declaration of a name among the methods of a class. -/
def lastNamed? (key : String) (methods : List Routine) : Option Routine :=
  methods.reverse.find? (·.name.lexeme = key)

/-! ### The frame around the methods -/

namespace Store

/-- The frame around the methods of a class, and the store with this frame. -/
def enterClass (s : Store) (current : FrameId) : Option Class → FrameId × Store
  | none => (current, s)
  | some c => (s.frames.size,
      (s.newFrame (some current)).2.define s.frames.size "super" (.class c))

/-- The same, after the name of the class is bound for its methods. -/
def beginClass (s : Store) (current : FrameId) (name : String) (superclass : Option Class) :
    FrameId × Store :=
  (s.define current name .nil).enterClass current superclass

/-- The frame around the methods of a class, in a store that comes from `s`: the frame that was
current, or a new one inside it that binds `super` to the superclass, and nothing else. -/
inductive MethodFrame (s : Store) (current : FrameId) (s' : Store) :
    Option Class → FrameId → Prop
  | current (hsize : s'.frames.size = s.frames.size) : MethodFrame s current s' none current
  | inside {c : Class} (hsize : s'.frames.size = s.frames.size + 1)
      (houter : s'.enclosing? s.frames.size = some current)
      (hsuper : ∀ key, s'.local? s.frames.size key =
        if key = "super" then some (.class c) else none) :
      MethodFrame s current s' (some c) s.frames.size

variable {s s' : Store} {current other : FrameId}

theorem enclosing?_enterClass (superclass : Option Class) (h : other < s.frames.size) :
    (s.enterClass current superclass).2.enclosing? other = s.enclosing? other := by
  cases superclass with
  | none => rfl
  | some c =>
    show ((s.newFrame _).2.define _ _ _).enclosing? other = _
    rw [enclosing?_define, enclosing?_newFrame, if_neg h.ne]

theorem local?_enterClass (superclass : Option Class) (h : other < s.frames.size) (key : String) :
    (s.enterClass current superclass).2.local? other key = s.local? other key := by
  cases superclass with
  | none => rfl
  | some c =>
    show ((s.newFrame _).2.define _ _ _).local? other key = _
    rw [local?_define, if_neg fun hother => h.ne hother.1, local?_newFrame]

theorem methodFrame_enterClass (s : Store) (current : FrameId) (superclass : Option Class) :
    s.MethodFrame current (s.enterClass current superclass).2 superclass
      (s.enterClass current superclass).1 := by
  cases superclass with
  | none => exact .current rfl
  | some c =>
    have hlt : s.frames.size < (s.newFrame (some current)).2.frames.size := by
      rw [size_newFrame]
      exact Nat.lt_succ_self _
    refine .inside ?_ ?_ fun key => ?_
    · exact (size_define _ _ _ _).trans (size_newFrame _ _)
    · show ((s.newFrame _).2.define _ _ _).enclosing? _ = _
      rw [enclosing?_define, enclosing?_newFrame, if_pos rfl]
    · show ((s.newFrame _).2.define _ _ _).local? _ key = _
      rw [local?_define, local?_newFrame, local?_of_size_le s le_rfl]
      simp [hlt]

namespace MethodFrame

variable {superclass : Option Class} {frame : FrameId}

/-- Binding a name in an older frame leaves it as it is. -/
theorem define (h : s.MethodFrame current s' superclass frame) (hlt : other < s.frames.size)
    (name : String) (v : Value) :
    s.MethodFrame current (s'.define other name v) superclass frame := by
  cases h with
  | current hsize => exact .current ((size_define _ _ _ _).trans hsize)
  | inside hsize houter hsuper =>
    refine .inside ((size_define _ _ _ _).trans hsize) ((enclosing?_define ..).trans houter)
      fun key => ?_
    rw [local?_define, if_neg fun hother => hlt.ne' hother.1]
    exact hsuper key

theorem of_size_eq {s₁ : Store} (h : s₁.MethodFrame current s' superclass frame)
    (hsize : s₁.frames.size = s.frames.size) : s.MethodFrame current s' superclass frame := by
  cases h with
  | current h => exact .current (h.trans hsize)
  | inside h houter hsuper =>
    rw [hsize] at h houter hsuper ⊢
    exact .inside h houter hsuper

theorem size_le (h : s.MethodFrame current s' superclass frame) :
    s.frames.size ≤ s'.frames.size := by
  cases h with
  | current h => exact h.ge
  | inside h => exact h ▸ Nat.le_succ _

end MethodFrame

section Begin

variable {name : String} {superclass : Option Class}

theorem methodFrame_beginClass (s : Store) (current : FrameId) (name : String)
    (superclass : Option Class) :
    s.MethodFrame current (s.beginClass current name superclass).2 superclass
      (s.beginClass current name superclass).1 :=
  ((s.define current name .nil).methodFrame_enterClass current superclass).of_size_eq
    (size_define ..)

theorem enclosing?_beginClass (h : other < s.frames.size) :
    (s.beginClass current name superclass).2.enclosing? other = s.enclosing? other := by
  rw [beginClass, enclosing?_enterClass superclass (by rwa [size_define]), enclosing?_define]

theorem local?_beginClass (h : other < s.frames.size) {key : String}
    (hkey : other = current → key ≠ name) :
    (s.beginClass current name superclass).2.local? other key = s.local? other key := by
  rw [beginClass, local?_enterClass superclass (by rwa [size_define]), local?_define,
    if_neg fun h => hkey h.1 h.2.1]

theorem isSome_local?_beginClass (h : current < s.frames.size) :
    ((s.beginClass current name superclass).2.local? current name).isSome := by
  rw [beginClass, local?_enterClass superclass (by rwa [size_define])]
  exact isSome_local?_define s h name .nil

theorem objects_beginClass : (s.beginClass current name superclass).2.objects = s.objects := by
  cases superclass <;> rfl

end Begin

end Store

/-! ### The declaration -/

namespace Machine

variable (m : Machine) (name : Token) (superclass : Option Class) (methods : List Routine)

/-- The frame around the methods of a class that is declared. -/
def classFrame : FrameId := (m.store.beginClass m.current name.lexeme superclass).1

/-- The class that a declaration makes. -/
def declaredClass : Class :=
  .extend ⟨m.nextStamp, name.lexeme, .ofList (methods.map fun method =>
    (method.name.lexeme, methodClosure (m.classFrame name superclass) method))⟩ superclass

/-- The machine after the declaration. -/
def withClass : Machine :=
  { m with
    store := (m.store.beginClass m.current name.lexeme superclass).2.define m.current name.lexeme
      (.class (m.declaredClass name superclass methods))
    nextStamp := m.nextStamp + 1 }

/-- The second machine is the first one after the declaration of a class, which is `made`. Its
methods keep `frame`. -/
structure Declares (m : Machine) (name : Token) (superclass : Option Class)
    (methods : List Routine) (made : Class) (frame : FrameId) (m' : Machine) : Prop where
  bound : m'.store.local? m.current name.lexeme = some (.class made)
  name_eq : made.name = name.lexeme
  stamp_eq : made.own.stamp = m.nextStamp
  superclass?_eq : made.superclass? = superclass
  /-- A method is the last one of its name. -/
  methods_eq : ∀ key, made.own.methods.get? key =
    (lastNamed? key methods).map (methodClosure frame)
  methodFrame : m.store.MethodFrame m.current m'.store superclass frame
  /-- No other binding has changed. -/
  local?_eq : ∀ other < m.store.frames.size, ∀ key, (other = m.current → key ≠ name.lexeme) →
    m'.store.local? other key = m.store.local? other key
  enclosing?_eq : ∀ other < m.store.frames.size,
    m'.store.enclosing? other = m.store.enclosing? other
  objects_eq : m'.store.objects = m.store.objects
  /-- Beside the frames nothing has changed, and one stamp was given out. -/
  rest_eq : m' = { m with store := m'.store, nextStamp := m.nextStamp + 1 }

theorem get?_methods_declaredClass (key : String) :
    (m.declaredClass name superclass methods).own.methods.get? key =
      (lastNamed? key methods).map (methodClosure (m.classFrame name superclass)) := by
  rw [declaredClass, Class.extend, NameMap.get?_ofList, ← List.map_reverse, List.find?_map,
    Option.map_map]
  rfl

variable {m}

theorem declares_withClass (hlt : m.current < m.store.frames.size) :
    m.Declares name superclass methods (m.declaredClass name superclass methods)
      (m.classFrame name superclass) (m.withClass name superclass methods) where
  bound := by
    have hle := (m.store.methodFrame_beginClass m.current name.lexeme superclass).size_le
    exact (Store.local?_define ..).trans (if_pos ⟨rfl, rfl, hlt.trans_le hle⟩)
  name_eq := rfl
  stamp_eq := rfl
  superclass?_eq := Class.superclass?_extend _ _
  methods_eq := m.get?_methods_declaredClass name superclass methods
  methodFrame := (m.store.methodFrame_beginClass m.current name.lexeme superclass).define hlt _ _
  local?_eq other hother key hkey := by
    rw [withClass, Store.local?_define, if_neg fun h => hkey h.1 h.2.1,
      Store.local?_beginClass hother hkey]
  enclosing?_eq other hother := by
    rw [withClass, Store.enclosing?_define, Store.enclosing?_beginClass hother]
  objects_eq := Store.objects_beginClass
  rest_eq := rfl

end Machine

namespace Eval

variable {c : Option Class} {m m₁ : Machine}

theorem machine_of_orFail {α : Type} {e : Except Diagnostic α} {a : α} (h : orFail e m = .ok a m₁) :
    m₁ = m := by
  cases e <;> cases h
  rfl

theorem machine_of_lookUp {use : Use} {v : Value} (h : lookUp use m = .ok v m₁) : m₁ = m := by
  rw [lookUp, get_bind_apply] at h
  cases hdepth : m.depths.depth? use.id <;> rw [hdepth] at h <;> exact machine_of_orFail h

/-- Looking a superclass up leaves the machine as it is. -/
theorem machine_of_superclassClassOf {superclass : Option Use}
    (h : superclassClassOf superclass m = .ok c m₁) : m₁ = m := by
  cases superclass with
  | none =>
    cases h
    rfl
  | some use =>
    simp only [superclassClassOf, superclassOf, Functor.map, EStateM.map, bind, EStateM.bind] at h
    cases hv : lookUp use m with
    | error halt m' => rw [hv] at h; cases h
    | ok v m' =>
      obtain rfl := machine_of_lookUp hv
      rw [hv] at h
      cases v with
      | «class» c =>
        cases h
        rfl
      | _ => cases h

/-- A name that the current frame binds is assigned to there. -/
theorem assignNearest_eq {name : Token} (hlt : m.current < m.store.frames.size)
    (h : (m.store.local? m.current name.lexeme).isSome) (v : Value) :
    assignNearest name v m = defineIn m.current name.lexeme v m := by
  rw [assignNearest, get_bind_apply, Store.target, Store.holder?_self _ hlt h]
  rfl

theorem methodFrame_apply (superclass : Option Class) (m : Machine) :
    methodFrame superclass m = .ok (m.store.enterClass m.current superclass).1
      { m with store := (m.store.enterClass m.current superclass).2 } := by
  cases superclass <;> rfl

/-- Once its superclass is found, a class is declared. -/
theorem declareClass_eq_withClass {superclass : Option Use} (name : Token)
    (methods : List Routine) (hlt : m.current < m.store.frames.size)
    (h : superclassClassOf superclass m = .ok c m₁) :
    declareClass name superclass methods m = .ok () (m.withClass name c methods) := by
  obtain rfl := machine_of_superclassClassOf h
  have hdefine : define name.lexeme .nil m₁ =
      .ok () { m₁ with store := m₁.store.define m₁.current name.lexeme .nil } := rfl
  have hframe := methodFrame_apply c
    { m₁ with store := m₁.store.define m₁.current name.lexeme .nil }
  -- the name is still bound in the current frame when the class is made
  have hle := (m₁.store.methodFrame_beginClass m₁.current name.lexeme c).size_le
  have hassign : assignNearest name (.class (m₁.declaredClass name c methods))
      { m₁ with
        store := (m₁.store.beginClass m₁.current name.lexeme c).2
        nextStamp := m₁.nextStamp + 1 } = .ok () (m₁.withClass name c methods) := by
    refine assignNearest_eq ?_ ?_ _
    · exact hlt.trans_le hle
    · exact Store.isSome_local?_beginClass hlt
  rw [declareClass_eq, bind_eq_of_ok h, bind_eq_of_ok hdefine, bind_eq_of_ok hframe]
  exact hassign

end Eval

end Treewalk
