import Mathlib
import Treewalk.Proofs.Session.Moments

/-!
# Receivers

Inside a method, `this` is the instance that the method was bound to, wherever the method is called
from and whatever became of it in between; and `super` starts at the class that the superclass
clause of the class around it named when this class was declared, and binds what it finds there to
the same instance.

## Main definitions

* `Session.ReceiversLexical` — what `this` and `super` are at a place

## Main results

* `Session.receivers_lexical` — so they are at all places of a session
-/

namespace Treewalk

open Eval

/-! ### Where receivers and superclasses come from -/

section Origins

variable {R : Place → Moment → Prop} {place : Place} {moment : Moment}

/-- The instance of a place inside a method is one that the method was bound to. -/
theorem Happens.exists_bind (h : Happens R place moment)
    (hroot : ∀ place moment, R place moment → place.receiver = none) {receiver : Instance}
    (hreceiver : place.receiver = some receiver) :
    ∃ method user m, place.method = some method ∧ Happens R user (.bind method receiver m) := by
  induction h with
  | root h =>
    rw [hroot _ _ h] at hreceiver
    cases hreceiver
  | body h hmake htext hbefore hframe ih ihMake => exact ihMake hreceiver
  | bound h hown htext hbefore hbound ih ihOwn =>
    obtain rfl := Option.some.inj hreceiver
    exact ⟨_, _, _, rfl, h⟩
  | _ => next ih => exact ih hreceiver

theorem Eval.lookUp_of_superclassClassOf {use : Use} {c : Class} {m m₁ : Machine}
    (h : superclassClassOf (some use) m = .ok (some c) m₁) : lookUp use m = .ok (.class c) m₁ := by
  simp only [superclassClassOf, superclassOf, Functor.map, EStateM.map, bind, EStateM.bind] at h
  cases hv : lookUp use m with
  | error halt m' =>
    rw [hv] at h
    cases h
  | ok v m' =>
    rw [hv] at h
    cases v with
    | «class» c' =>
      cases h
      rfl
    | _ => cases h

/-- The superclass of a place inside a subclass is what its superclass clause named when it was
declared. -/
theorem Happens.exists_declaration (h : Happens R place moment)
    (hroot : ∀ place moment, R place moment → place.superclass = none) {c : Class}
    (hc : place.superclass = some c) : ∃ declared fuel name use methods m m₁,
      Happens R declared (.execute (fuel + 1) (.class name (some use) methods) m) ∧
        lookUp use m = .ok (.class c) m₁ := by
  induction h with
  | root h =>
    rw [hroot _ _ h] at hc
    cases hc
  | body h hmake htext hbefore hframe ih ihMake => exact ihMake hc
  | bound h hown htext hbefore hbound ih ihOwn => exact ihOwn hc
  | @own _ fuel name superclass methods _ _ _ m m₁ _ _ h hsuperclass =>
    obtain rfl := hc
    cases superclass with
    | none => cases hsuperclass
    | some use =>
      exact ⟨_, fuel, name, use, methods, m, m₁, h, lookUp_of_superclassClassOf hsuperclass⟩
  | _ => next ih => exact ih hc

end Origins

/-! ### What is found at a place -/

section Visits

variable {R : Place → Moment → Prop} {ids : Nat → Numbering} {place : Place} {m : Machine}
  {use : Use} {depth : Nat}

/-- Inside a method, the frame of `this` binds the receiver. -/
theorem Visit.lookUp_this (h : Visit R ids place (.access .this use m)) :
    ∃ receiver, place.receiver = some receiver ∧ lookUp use m = .ok (.instance receiver) m := by
  obtain ⟨marks, hat, hlinked⟩ := h.visited
  have hname : use.name = "this" := hlinked.names.this_eq rfl
  obtain ⟨depth, hdepth⟩ := Option.isSome_iff_exists.1 (hlinked.this rfl)
  have htable : m.depths.depth? use.id = some depth := hlinked.left.2.trans hdepth
  obtain ⟨target, htarget, -, houtward, -⟩ := hlinked.target hat htable
  rw [hname] at hdepth
  obtain ⟨frame, receiver, hframe, hreceiver, hthis⟩ := h.grounded.receiver depth hdepth
  obtain rfl : target = frame := Option.some.inj (htarget.symm.trans hframe)
  refine ⟨receiver, hreceiver, ?_⟩
  have hget : m.store.getAt depth m.current use.token = .ok (.instance receiver) := by
    have hname : use.token.lexeme = "this" := hname
    have hthis : m.store.local? target "this" = some (.instance receiver) := hthis
    have houtward : m.store.outward? depth m.current = some target := houtward
    rw [Store.getAt, houtward, Option.bind_some, hname, hthis]
  rw [lookUp, get_bind_apply, htable]
  dsimp only
  rw [hget]
  rfl

/-- Inside a subclass, the frame of `super` binds the superclass, and the one directly inside it
binds the receiver. -/
theorem Visit.getAt_super (h : Visit R ids place (.access .super use m)) :
    ∃ depth c receiver, place.superclass = some c ∧ place.receiver = some receiver ∧
      m.depths.depth? use.id = some (depth + 1) ∧
      m.store.getAt (depth + 1) m.current use.token = .ok (.class c) ∧
      ∀ line, m.store.getAt depth m.current ⟨.keyword .this, "this", line⟩ =
        .ok (.instance receiver) := by
  obtain ⟨marks, hat, hlinked⟩ := h.visited
  have hname : use.name = "super" := hlinked.names.super_eq rfl
  obtain ⟨hsubclass, depth, scope, hsuper, hthis, hscope, -⟩ := hlinked.receiver rfl
  have htable : m.depths.depth? use.id = some (depth + 1) := hlinked.left.2.trans hsuper
  -- the superclass
  obtain ⟨target, htarget, -, houtward, -⟩ := hlinked.target hat htable
  rw [hname] at hsuper
  obtain ⟨frame, c, hframe, hc, hlocal⟩ := h.grounded.superclass hsubclass (depth + 1) hsuper
  obtain rfl : target = frame := Option.some.inj (htarget.symm.trans hframe)
  -- the receiver
  obtain ⟨inner, hinner, hinnerOutward, -⟩ := hat.mirrors.at_depth hscope
  obtain ⟨frame', receiver, hframe', hreceiver, hlocal'⟩ := h.grounded.receiver depth hthis
  obtain rfl : inner = frame' := Option.some.inj (hinner.symm.trans hframe')
  refine ⟨depth, c, receiver, hc, hreceiver, htable, ?_, fun line => ?_⟩
  · have hname : use.token.lexeme = "super" := hname
    have hlocal : m.store.local? target "super" = some (.class c) := hlocal
    have houtward : m.store.outward? (depth + 1) m.current = some target := houtward
    rw [Store.getAt, houtward, Option.bind_some, hname, hlocal]
  · have hlocal' : m.store.local? inner "this" = some (.instance receiver) := hlocal'
    have hinnerOutward : m.store.outward? depth m.current = some inner := hinnerOutward
    rw [Store.getAt, hinnerOutward, Option.bind_some, hlocal']

/-- A use of `super` looks a method up in the superclass and binds it to the receiver. -/
theorem Visit.superMethod_eq {name : Token} (h : Visit R ids place (.access .super use m)) :
    ∃ c receiver, place.superclass = some c ∧ place.receiver = some receiver ∧
      superMethod use name m = (match c.findMethod? name.lexeme with
        | some method => bindReceiver method receiver >>= newFunction
        | none => fail name (.undefinedProperty name.lexeme)) m := by
  obtain ⟨depth, c, receiver, hc, hreceiver, htable, hgetc, hgetr⟩ := h.getAt_super
  refine ⟨c, receiver, hc, hreceiver, ?_⟩
  rw [superMethod, get_bind_apply, htable]
  dsimp only
  rw [hgetc, hgetr]
  rfl

end Visits

namespace Session

/-- What `this` and `super` are at a place. `Here` tells the moments of the run. -/
structure ReceiversLexical (Here : Place → Moment → Prop) : Prop where
  /-- A use of `this` gives the receiver of the method around it. -/
  this_eq : ∀ place fuel use m, Here place (.evaluate (fuel + 1) (.this use) m) →
    ∃ receiver, place.receiver = some receiver ∧
      evaluate (fuel + 1) (.this use) m = .ok (.instance receiver) m
  /-- A use of `super` looks a method up from the superclass of the class around it, and binds it to
  the same receiver. -/
  super_eq : ∀ place fuel use name m, Here place (.evaluate (fuel + 1) (.super use name) m) →
    ∃ c receiver, place.superclass = some c ∧ place.receiver = some receiver ∧
      evaluate (fuel + 1) (.super use name) m = (match c.findMethod? name.lexeme with
        | some method => bindReceiver method receiver >>= newFunction
        | none => fail name (.undefinedProperty name.lexeme)) m
  /-- The receiver is the instance that the method was bound to when it was looked up. -/
  exists_bind : ∀ place moment receiver, Here place moment → place.receiver = some receiver →
    ∃ method user m, place.method = some method ∧ Here user (.bind method receiver m)
  /-- The superclass is what the superclass clause named when the class was declared. -/
  exists_declaration : ∀ place moment c, Here place moment → place.superclass = some c →
    ∃ declared fuel name use methods m m₁,
      Here declared (.execute (fuel + 1) (.class name (some use) methods) m) ∧
        lookUp use m = .ok (.class c) m₁

/-- **Receivers are lexical.** In all that happens in a session, `this` is the instance that the
method around it was bound to, and `super` starts at the class that the class around it was declared
with, for this same instance. -/
theorem receivers_lexical (sink : Sink) (reading : Nat → Float) (fuel : Nat)
    (sources : List String) :
    ReceiversLexical (Happens (Begins (initial sink reading) fuel sources)) where
  this_eq _ _ _ _ h := (visit sink reading h.this).lookUp_this
  super_eq _ _ _ _ _ h := (visit sink reading h.super).superMethod_eq
  exists_bind _ _ _ h hreceiver := h.exists_bind (by rintro _ _ ⟨⟩; rfl) hreceiver
  exists_declaration _ _ _ h hc := h.exists_declaration (by rintro _ _ ⟨⟩; rfl) hc

/-- The initializer of a subclass, which calls a method of the superclass. -/
def subclassText : String :=
  "class A \x7b m() \x7b\x7d \x7d class B < A \x7b init() \x7b super.m(); \x7d \x7d B();"

def subclassInitializer : Routine :=
  ⟨⟨.identifier, "init", 1⟩, [], [.expression (.call
    (.super ⟨1, ⟨.keyword .super, "super", 1⟩⟩ ⟨.identifier, "m", 1⟩)
    ⟨.symbol .rightParen, ")", 1⟩ [])]⟩

def subclassProgram : List Stmt :=
  [.class ⟨.identifier, "A", 1⟩ none [⟨⟨.identifier, "m", 1⟩, [], []⟩],
    .class ⟨.identifier, "B", 1⟩ (some ⟨0, ⟨.identifier, "A", 1⟩⟩) [subclassInitializer],
    .expression (.call (.variable ⟨2, ⟨.identifier, "B", 1⟩⟩) ⟨.symbol .rightParen, ")", 1⟩ [])]

set_option maxRecDepth 100000 in
theorem parse_subclassText : Source.parse subclassText 0 = ⟨subclassProgram, [], 3, true⟩ := by
  cbv

theorem accept_subclassText : (initial .unbounded fun _ => 0).accept subclassText =
    (.ok subclassProgram,
      ⟨(Machine.initial .unbounded fun _ => 0).record (analyse subclassProgram), 3⟩) :=
  accept_of_parse parse_subclassText rfl

/-- The method is looked up in the superclass, and bound to the instance that is initialized. -/
theorem receivers_lexical_subclassText : ∃ place fuel use name m c receiver,
    Happens (Begins (initial .unbounded fun _ => 0) 20 [subclassText]) place
        (.evaluate (fuel + 1) (.super use name) m) ∧
      place.superclass = some c ∧ place.receiver = some receiver ∧
      evaluate (fuel + 1) (.super use name) m = (match c.findMethod? name.lexeme with
        | some method => bindReceiver method receiver >>= newFunction
        | none => fail name (.undefinedProperty name.lexeme)) m := by
  have hrun := Happens.root (Begins.first accept_subclassText 20 [])
  have hown := (hrun.topRest rfl).top.own rfl rfl rfl (.head _)
  have hcall := ((hrun.topRest rfl).topRest rfl).top.expression.call rfl rfl
  have hbind := hcall.bindInitializer rfl rfl rfl
  -- the class and an instance of it are made between the two moments
  have hdefine (s : Store) (v : Value) : s.Extends (s.define globals "B" v) :=
    s.extends_define (by simp [IsReserved]) v
  have hmake := hbind.bound hown le_rfl ((hdefine _ _).trans (Store.extends_of_frames_eq rfl)) rfl
  have hinvoke := hcall.invokeInitializer rfl rfl rfl rfl
  have hbody := hinvoke.body hmake le_rfl (.refl _) rfl
  have hsuper := hbody.statement.expression.callee
  obtain ⟨c, receiver, hc, hreceiver, heq⟩ :=
    (receivers_lexical .unbounded (fun _ => 0) 20 [subclassText]).super_eq _ _ _ _ _ hsuper
  exact ⟨_, _, _, _, _, c, receiver, hsuper, hc, hreceiver, heq⟩

end Session

end Treewalk
