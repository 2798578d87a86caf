import Mathlib
import Treewalk.Proofs.Evaluation.InternalFaults
import Treewalk.Proofs.Session.Depths
import Treewalk.Proofs.Session.Receivers

/-!
# Internal faults are out of reach

The evaluator has branches for states that a program should never bring about. Reading, checking and
running rule them out together: reading gives operators to the tree that are operators, checking
lets `this` and `super` stand only where their frames will be, and running binds an initializer
before it is called.

## Main definitions

* `Session.InternalsUnreachable` — no internal fault is raised, and no chain of frames is too short

## Main results

* `Session.internals_unreachable` — so it is in all that happens in a session
-/

namespace Treewalk.Session

open Eval

/-- What the evaluator guards against does not come about. `Here` tells the moments of the run. -/
structure InternalsUnreachable (Here : Place → Moment → Prop) : Prop where
  /-- No moment raises an internal fault. -/
  not_raises : ∀ place moment token cause, Here place moment → Raises moment token cause →
    ¬cause.IsInternal
  /-- No evaluation, call or execution that is set out to ends with one. -/
  not_fails : ∀ place moment line cause, Here place moment → moment.Fails (.runtime line cause) →
    ¬cause.IsInternal
  /-- The frame at which a use is read or written is there, and for a `super` the frame of the
  receiver as well. -/
  exists_outward : ∀ place kind use m depth hops, Here place (.access kind use m) →
    m.depths.depth? use.id = some depth → hops = depth ∨ kind = .super ∧ hops + 1 = depth →
    ∃ frame, m.store.outward? hops m.current = some frame
  /-- Nothing goes wrong in a class declaration once its superclass is found. -/
  declares : ∀ place fuel name superclass methods m c m₁,
    Here place (.execute (fuel + 1) (.class name superclass methods) m) →
    superclassClassOf superclass m = .ok c m₁ →
    ∃ m₂, declareClass name superclass methods m = .ok () m₂

section Initial

variable (sink : Sink) (reading : Nat → Float) {fuel : Nat} {sources : List String} {place : Place}
  {moment : Moment}

/-- The operators of all code that runs in a session fit. -/
theorem operatorsFit (h : Happens (Begins (initial sink reading) fuel sources) place moment) :
    moment.Each Expr.OperatorFits := by
  refine h.each fun place moment hbegins => ?_
  cases hbegins with
  | mk hsources haccept =>
    have hready := (inStep_runAll sink reading fuel hsources).left
    have hparse := (takes_of_accept hready haccept).parse_eq
    exact (Grammar.derives_of_parse (Source.parse_result_eq_ok_iff.1 hparse).2).operatorsFit

theorem not_internal_of_raises {token : Token} {cause : RuntimeFault}
    (h : Happens (Begins (initial sink reading) fuel sources) place moment)
    (hraises : Raises moment token cause) : ¬cause.IsInternal := by
  cases hraises with
  | operand hoperand hcause =>
    exact Value.applyUnary_not_internal (operatorsFit sink reading h).self hcause
  | operands hleft hright hcause =>
    obtain ⟨level, hlevel, hdisjunction, hconjunction⟩ := (operatorsFit sink reading h).self
    exact Value.applyBinary_not_internal hlevel hdisjunction hconjunction hcause
  | @super fuel use name m m₁ hsuper =>
    obtain ⟨c, receiver, -, -, heq⟩ :=
      @Visit.superMethod_eq _ _ _ _ _ name (visit sink reading h.super)
    rw [heq] at hsuper
    cases hmethod : c.findMethod? name.lexeme with
    | some method =>
      rw [hmethod] at hsuper
      cases hsuper
    | none =>
      rw [hmethod] at hsuper
      have hcause := (EStateM.Result.error.inj hsuper).1
      simp at hcause
  | initializer hinitializer hnone =>
    obtain ⟨marks, hat, hclosure, -⟩ := (visit sink reading h).visited
    obtain ⟨made, -, context, m₀, hmake, -, hext, -⟩ := hclosure.made
    have hthis := hext.isSome_local? _ _
      (isSome_receiver_of_make (by rintro _ _ ⟨⟩ _ _ _ ⟨⟩) hmake hinitializer)
    exact absurd hnone (Option.ne_none_iff_isSome.2 hthis)
  | access | property | undefinedProperty | field | undefinedMethod | notCallable | arity
  | superclass => exact id

end Initial

/-- **Internal faults are out of reach.** In all that happens in a session no internal fault is
raised, and no evaluation ends with one; where a name is read or written at a depth, there are as
many frames outwards; and a class whose superclass is found is declared. So no text ends with an
internal fault. -/
theorem internals_unreachable (sink : Sink) (reading : Nat → Float) (fuel : Nat)
    (sources : List String) :
    InternalsUnreachable (Happens (Begins (initial sink reading) fuel sources)) ∧
      ∀ before source after line cause, sources = before ++ source :: after →
        (((initial sink reading).runAll fuel before).2.run fuel source).1 =
          .failed (.runtime line cause) → ¬cause.IsInternal := by
  refine ⟨⟨?_, ?_, ?_, ?_⟩, ?_⟩
  · exact fun place moment token cause h hraises =>
      not_internal_of_raises sink reading h hraises
  · intro place moment line cause h hfails
    obtain ⟨place, moment, token, h', hraises, -⟩ :=
      exists_raises_of_fails h (visit sink reading h) hfails
    exact not_internal_of_raises sink reading h' hraises
  · rintro place kind use m depth hops h hdepth (rfl | ⟨rfl, rfl⟩)
    · obtain ⟨frame, -, houtward, -⟩ := exists_frame_of_visit (visit sink reading h) hdepth
      exact ⟨frame, houtward⟩
    · obtain ⟨inner, frame, hinner, -, -, houtward, -⟩ :=
        exists_receiver_of_visit (visit sink reading h) hdepth
      obtain rfl := Nat.succ.inj hinner
      exact ⟨frame, houtward⟩
  · intro place fuel name superclass methods m c m₁ h hsuperclass
    obtain ⟨marks, hat, -⟩ := (visit sink reading h).visited
    exact declareClass_of_superclass hat.current_lt hsuperclass
  · intro before source after line cause hsources hfailed
    obtain ⟨place, moment, token, h, hraises, -⟩ :=
      raises_of_failed sink reading hsources hfailed
    exact not_internal_of_raises sink reading h hraises

/-- In the initializer of a subclass, the frames of the superclass and of the receiver are there,
and its call does not fail for want of a receiver. -/
theorem internals_unreachable_subclassText :
    ∃ place use m frame frame' caller fuel closure paren m',
      Happens (Begins (initial .unbounded fun _ => 0) 20 [subclassText]) place
          (.access .super use m) ∧
        m.depths.depth? use.id = some 2 ∧ m.store.outward? 2 m.current = some frame ∧
        m.store.outward? 1 m.current = some frame' ∧
        Happens (Begins (initial .unbounded fun _ => 0) 20 [subclassText]) caller
          (.invoke fuel closure paren [] m') ∧
        closure.isInitializer = true ∧
        ∀ line, ¬(Moment.invoke fuel closure paren [] m').Fails
          (.runtime line .initializerWithoutReceiver) := by
  have hrun := Happens.root (Begins.first accept_subclassText 20 [])
  have hown := (hrun.topRest rfl).top.own rfl rfl rfl (.head _)
  have hcall := ((hrun.topRest rfl).topRest rfl).top.expression.call rfl rfl
  have hbind := hcall.bindInitializer rfl rfl rfl
  -- the class and an instance of it are made between the two moments
  have hdefine (s : Store) (v : Value) : s.Extends (s.define globals "B" v) :=
    s.extends_define (by simp [IsReserved]) v
  have hmake := hbind.bound hown le_rfl ((hdefine _ _).trans (Store.extends_of_frames_eq rfl)) rfl
  have hinvoke := hcall.invokeInitializer rfl rfl rfl rfl
  have haccess := (hinvoke.body hmake le_rfl (.refl _) rfl).statement.expression.callee.super
  have hunreachable := (internals_unreachable .unbounded (fun _ => 0) 20 [subclassText]).1
  obtain ⟨frame, hframe⟩ := hunreachable.exists_outward _ _ _ _ 2 2 haccess rfl (.inl rfl)
  obtain ⟨frame', hframe'⟩ := hunreachable.exists_outward _ _ _ _ 2 1 haccess rfl (.inr ⟨rfl, rfl⟩)
  refine ⟨_, _, _, frame, frame', _, _, _, _, _, haccess, rfl, hframe, hframe', hinvoke, rfl, ?_⟩
  exact fun line hfails => hunreachable.not_fails _ _ _ _ hinvoke hfails trivial

end Treewalk.Session
