import Mathlib
import Treewalk.Proofs.Scope.Settled
import Treewalk.Proofs.Session.Moments
import Treewalk.Proofs.Store.Search

/-!
# Assignments to local variables

An assignment writes to the frame of the scope that its name belongs to, whether or not the frame
binds the name. It does bind it if the declaration of the variable was executed before, and scope
analysis sees to that, with one exception: it does not mind an assignment to a variable in the
initializer of this variable, where the variable must not be read.

## Main definitions

* `Moment.IsPartOf` — the moment is about a part of an expression
* `Place.Initializes` — the place of the initializer of a variable whose declaration is executed

## Main results

* `Happens.situated` — a name is being initialized only in the initializer of its variable
* `Session.assigned_unbound` — an assignment to a name that its frame does not bind
* `Session.assignments_sound` — all other assignments are to a name that the frame binds
-/

namespace Treewalk

open Eval

variable {R : Place → Moment → Prop} {place : Place} {moment moment' : Moment}

/-- The moment is about a part of an expression. While this is evaluated, functions may be called as
well, but their bodies are no part of it. -/
def Moment.IsPartOf (value : Expr) : Moment → Prop
  | evaluate _ e _ => e.occurrences ⊆ value.occurrences
  | evaluateAll _ es _ => Expr.occurrencesAll es ⊆ value.occurrences
  | access kind use _ => ∃ label, ⟨kind, use, label⟩ ∈ value.occurrences
  | call _ _ _ _ _ | invoke _ _ _ _ _ | bind _ _ _ => True
  | _ => False

/-- The place is that of the initializer `value` of the variable `name`, whose declaration is being
executed in the scope and the frame of the place. -/
def Place.Initializes (R : Place → Moment → Prop) (name : Token) (value : Expr) (place : Place) :
    Prop :=
  ∃ declaring fuel m, Happens R declaring (.execute (fuel + 1) (.var name (some value)) m) ∧
    place = { declaring with site := (declaring.site.declare name).2 }

/-- All names around the place are defined, or the moment is about a part of the initializer of the
one that is not. -/
inductive Situated (R : Place → Moment → Prop) : Place → Moment → Prop
  | settled {place : Place} {moment : Moment} (h : place.site.Settled) : Situated R place moment
  | initializing {place : Place} {moment : Moment} {name : Token} {value : Expr} {fuel : Nat}
      {m : Machine} (h : place.site.Settled)
      (hdeclare : Happens R place (.execute (fuel + 1) (.var name (some value)) m))
      (hpart : moment.IsPartOf value) :
      Situated R { place with site := (place.site.declare name).2 } moment

namespace Situated

theorem part (h : Situated R place moment)
    (hpart : ∀ value, moment.IsPartOf value → moment'.IsPartOf value) :
    Situated R place moment' := by
  cases h with
  | settled h => exact .settled h
  | initializing h hdeclare hmoment => exact .initializing h hdeclare (hpart _ hmoment)

/-- Only expressions are parts of an initializer. -/
theorem isSettled (h : Situated R place moment) (hno : ∀ value, ¬moment.IsPartOf value) :
    place.site.Settled := by
  cases h with
  | settled h => exact h
  | initializing h hdeclare hmoment => exact absurd hmoment (hno _)

end Situated

/-- A name is being initialized only in the initializer of its variable. -/
theorem Happens.situated (hroot : ∀ place moment, R place moment → place.site.Settled)
    (h : Happens R place moment) : Situated R place moment := by
  induction h with
  | root h => exact .settled (hroot _ _ h)
  -- expressions: a part of a part of the initializer is a part of it
  | group h ih | operand h ih | object h ih => exact ih.part fun _ hpart => hpart
  | left h ih | decider h ih | callee h ih | target h ih | first h ih =>
    exact ih.part fun _ hpart => (List.append_subset.1 hpart).1
  | right h _ ih | alternative h _ _ ih | arguments h _ ih | field h _ ih | others h _ ih =>
    exact ih.part fun _ hpart => (List.append_subset.1 hpart).2
  | read h ih | write h _ ih | this h ih | super h ih =>
    exact ih.part fun _ hpart => ⟨_, hpart List.mem_cons_self⟩
  | assigned h ih => exact ih.part fun _ hpart => (List.cons_subset.1 hpart).2
  | call h _ _ ih | bindProperty h _ _ _ ih | bindSuper h _ _ _ _ _ ih | invoke h _ ih
  | bindInitializer h _ _ _ ih | invokeInitializer h _ _ _ _ ih =>
    exact ih.part fun _ _ => trivial
  -- bodies: the closure was made, and the method declared, by a statement
  | body h hmake _ _ _ ih ihmake =>
    exact .settled ((ihmake.isSettled fun _ => id).body _ _)
  | bound h hown _ _ _ ih ihown =>
    exact .settled ((ihown.isSettled fun _ => id).enter_single "this")
  -- statements
  | definition h ih => exact .initializing (ih.isSettled fun _ => id) h (List.Subset.refl _)
  | expression h ih | print h ih | condition h ih | returned h ih | check h ih | loop h ih
  | thenBranch h _ _ ih | elseBranch h _ _ ih | statement h ih | round h _ _ ih
  | again h _ _ _ ih | top h ih | superclass h ih => exact .settled (ih.isSettled fun _ => id)
  | block h _ ih => exact .settled (ih.isSettled fun _ => id).enter_empty
  | function h _ ih => exact .settled ((ih.isSettled fun _ => id).introduce _)
  | own h _ _ _ _ ih => exact .settled (((ih.isSettled fun _ => id).introduce _).aroundMethods _)
  | statements h _ ih | topRest h _ ih => exact .settled ((ih.isSettled fun _ => id).analyse _)

/-- An assignment writes to the frame that the recorded depth leads to, whether or not the frame
binds the name. -/
theorem Eval.assign_of_depth? {use : Use} {depth : Nat} {frame : FrameId} {m : Machine}
    (hdepth : m.depths.depth? use.id = some depth)
    (hframe : m.store.outward? depth m.current = some frame) (v : Value) :
    Eval.assign use v m = .ok () { m with store := m.store.define frame use.name v } := by
  have hassign : m.store.assignAt depth m.current use.token v =
      .ok (m.store.define frame use.name v) :=
    Store.assignAt_eq_ok_iff.2 ⟨frame, hframe, rfl⟩
  rw [Eval.assign_eq_ending, hdepth]
  simp only [hassign]
  rfl

namespace Session

variable {sink : Sink} {reading : Nat → Float} {fuel : Nat} {sources : List String} {use : Use}
  {depth : Nat} {m : Machine}

theorem settled_of_begins (h : Begins (initial sink reading) fuel sources place moment) :
    place.site.Settled := by
  cases h
  exact .top

/-- **Assignments to local variables.** An assignment with a recorded depth writes to the frame so
many hops out, which is that of the scope the name belongs to. The frame binds the name, unless the
assignment is part of the initializer of the variable, whose declaration is being executed in the
innermost scope. -/
theorem assignments_sound
    (h : Happens (Begins (initial sink reading) fuel sources) place (.access .assign use m))
    (hdepth : m.depths.depth? use.id = some depth) :
    ∃ frame, place.frames[depth]? = some frame ∧
      (∀ v, Eval.assign use v m = .ok () { m with store := m.store.define frame use.name v }) ∧
      ((m.store.local? frame use.name).isSome ∨ depth = 0 ∧ ∃ name value,
        name.lexeme = use.name ∧ (∃ label, ⟨.assign, use, label⟩ ∈ value.occurrences) ∧
        place.Initializes (Begins (initial sink reading) fuel sources) name value) := by
  obtain ⟨marks, hat, hlinked⟩ := (visit sink reading h).visited
  have hsite : place.site.depth? use.name = some depth := hlinked.left.2.symm.trans hdepth
  obtain ⟨scope, defined, hscope, hdefined⟩ := Site.exists_get?_of_depth? hsite
  obtain ⟨frame, hframe, houtward, -, -, hbound⟩ := hat.mirrors.at_depth hscope
  refine ⟨frame, hframe, Eval.assign_of_depth? hdepth houtward, ?_⟩
  cases defined with
  | true => exact .inl (hbound _ hdefined)
  | false =>
    have hsituated := h.situated fun _ _ => settled_of_begins
    generalize hmoment : Moment.access .assign use m = moment at hsituated
    cases hsituated with
    | settled h => exact absurd hdefined (h scope (List.mem_of_getElem? hscope) _)
    | initializing hsettled hdeclare hpart =>
      subst hmoment
      obtain ⟨hzero, hname⟩ := hsettled.declare hscope hdefined
      exact .inr ⟨hzero, _, _, hname, hpart, _, _, _, hdeclare, rfl⟩

/-- A variable that is assigned to in its own initializer. -/
def ownInitializerText : String := "\x7b var a = a = nil; \x7d"

def ownInitializerProgram : List Stmt :=
  [.block [.var ⟨.identifier, "a", 1⟩
    (some (.assign ⟨1, ⟨.identifier, "a", 1⟩⟩ (.literal .nil)))]]

theorem parse_ownInitializerText :
    Source.parse ownInitializerText 0 = ⟨ownInitializerProgram, [], 2, true⟩ := by
  cbv

theorem accept_ownInitializerText : (initial .unbounded fun _ => 0).accept ownInitializerText =
    (.ok ownInitializerProgram,
      ⟨(Machine.initial .unbounded fun _ => 0).record (analyse ownInitializerProgram), 2⟩) :=
  accept_of_parse parse_ownInitializerText rfl

/-- The text is accepted, although its variable is assigned to before the frame binds it. -/
theorem assigned_unbound : ∃ place use m frame,
    Happens (Begins (initial .unbounded fun _ => 0) 20 [ownInitializerText]) place
        (.access .assign use m) ∧
      m.depths.depth? use.id = some 0 ∧ place.frames[0]? = some frame ∧
      m.store.outward? 0 m.current = some frame ∧ m.store.local? frame use.name = none := by
  have hrun := Happens.root (Begins.first accept_ownInitializerText 20 [])
  have hblock := hrun.top.block rfl
  have hwrite := hblock.statement.definition.write rfl
  exact ⟨_, _, _, _, hwrite, rfl, rfl, rfl, rfl⟩

/-- This assignment is the excepted one: it is part of an initializer that is being executed. -/
theorem assignments_sound_ownInitializer : ∃ place use m frame name value,
    Happens (Begins (initial .unbounded fun _ => 0) 20 [ownInitializerText]) place
        (.access .assign use m) ∧
      m.depths.depth? use.id = some 0 ∧ place.frames[0]? = some frame ∧
      m.store.local? frame use.name = none ∧ name.lexeme = use.name ∧
      place.Initializes (Begins (initial .unbounded fun _ => 0) 20 [ownInitializerText])
        name value := by
  have hrun := Happens.root (Begins.first accept_ownInitializerText 20 [])
  have hblock := hrun.top.block rfl
  have hwrite := hblock.statement.definition.write rfl
  obtain ⟨frame, hframe, -, hexcept⟩ := assignments_sound hwrite rfl
  cases hframe
  obtain hbound | ⟨-, name, value, hname, -, hinitializes⟩ := hexcept
  · cases hbound
  · exact ⟨_, _, _, _, name, value, hwrite, rfl, rfl, rfl, hname, hinitializes⟩

end Session

end Treewalk
