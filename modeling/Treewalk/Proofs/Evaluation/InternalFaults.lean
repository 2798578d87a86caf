import Treewalk.Proofs.Evaluation.ClassDeclaration
import Treewalk.Proofs.Evaluation.Visits
import Treewalk.Proofs.Grammar.Operators

/-!
# Faults of the evaluator itself

Four runtime faults tell of a state that no program should reach: an operator that is none, a
`super` without a class or a receiver, and an initializer without one. Each is ruled out for a
reason of its own. The operators of a program are those its grammar gives to it, and stay so
wherever a part of the program runs. An initializer is made by binding it, and the frame it gets
then binds `this` as long as there is one.

## Main definitions

* `RuntimeFault.IsInternal` — the four faults
* `Moment.Fails` — the fault with which the evaluator ends what a moment sets out to do
* `Moment.Each` — a property of the expressions of the code a moment is about

## Main results

* `Happens.each` — the code that runs is that of the programs
* `isSome_receiver_of_make` — an initializer has a receiver
* `exists_raises_of_fails` — a runtime fault is raised at a moment
* `Eval.declareClass_of_superclass` — a class is declared once its superclass is found
-/

namespace Treewalk

open Eval

/-- The faults that tell of a mistake of the evaluator and not of the program. -/
def RuntimeFault.IsInternal : RuntimeFault → Prop
  | invalidUnaryOperator | invalidBinaryOperator | superOutsideMethod
  | initializerWithoutReceiver => True
  | _ => False

/-! ### Operators -/

theorem Value.applyUnary_not_internal {operator : Token}
    (hoperator : Grammar.isUnaryOperator operator)
    {v : Value} {cause : RuntimeFault} (h : v.applyUnary operator.kind = .error cause) :
    ¬cause.IsInternal := by
  obtain hkind | hkind := Grammar.isUnaryOperator_iff.1 hoperator
  · rw [hkind] at h
    cases h
  · rw [hkind] at h
    cases v <;> cases h <;> exact id

/-- The operators of the tighter levels are symbols that stand for a function of two values. -/
theorem Grammar.Level.kind_of_holds {operator : Token} {level : Level} (h : level.holds operator)
    (hdisjunction : level ≠ .disjunction) (hconjunction : level ≠ .conjunction) :
    ∃ s ∈ [Symbol.bangEqual, .equalEqual, .greater, .greaterEqual, .less, .lessEqual, .minus, .plus,
      .slash, .star], operator.kind = .symbol s := by
  have hkind := holds_iff.1 h
  cases level with
  | disjunction => exact absurd rfl hdisjunction
  | conjunction => exact absurd rfl hconjunction
  | equality | term | factor =>
    obtain hkind | hkind := hkind <;> exact ⟨_, by decide, hkind⟩
  | comparison =>
    obtain hkind | hkind | hkind | hkind := hkind <;> exact ⟨_, by decide, hkind⟩

theorem Value.applyBinary_not_internal {operator : Token} {level : Grammar.Level}
    (hlevel : level.holds operator) (hdisjunction : level ≠ .disjunction)
    (hconjunction : level ≠ .conjunction) {v w : Value} {cause : RuntimeFault}
    (h : v.applyBinary operator.kind w = .error cause) : ¬cause.IsInternal := by
  obtain ⟨s, hs, hkind⟩ := Grammar.Level.kind_of_holds hlevel hdisjunction hconjunction
  rw [hkind] at h
  simp only [List.mem_cons, List.not_mem_nil, or_false] at hs
  rcases hs with rfl | rfl | rfl | rfl | rfl | rfl | rfl | rfl | rfl | rfl
  -- equality is defined for all values, the others are for values of some kinds
  · cases h
  · cases h
  all_goals cases v <;> cases w <;> cases h <;> exact id

/-! ### The code that runs -/

section Code

variable {R : Place → Moment → Prop} {place : Place} {moment : Moment} {P : Expr → Prop}

/-- The expressions of the code that a moment is about have the property. Where a closure is called
or bound, its code is that of another place. -/
def Moment.Each (P : Expr → Prop) : Moment → Prop
  | evaluate _ e _ => e.Each P
  | evaluateAll _ es _ => Expr.EachAll P es
  | execute _ s _ => s.Each P
  | executeAll _ ss _ | program _ ss _ => Stmt.EachAll P ss
  | executeWhile _ condition body _ => condition.Each P ∧ body.Each P
  | own method _ => method.routine.Each P
  | make closure _ _ => closure.routine.Each P
  | call _ _ _ _ _ | invoke _ _ _ _ _ | access _ _ _ | bind _ _ _ => True

/-- What holds of the expressions of the programs with which runs begin holds of the code that
runs. -/
theorem Happens.each (hroot : ∀ place moment, R place moment → moment.Each P)
    (h : Happens R place moment) : moment.Each P := by
  induction h with
  | root h => exact hroot _ _ h
  | group h ih | operand h ih | assigned h ih => exact ih.2
  | left h ih | decider h ih | callee h ih | target h ih => exact ih.2.1
  | right h hleft ih => exact ih.2.2
  | alternative h hleft hvalue ih => exact ih.2.2
  | arguments h hcallee ih => exact ih.2.2
  | object h ih => exact ih.2
  | field h hobject ih => exact ih.2.2
  | first h ih | statement h ih | top h ih | check h ih => exact ih.1
  | others h he ih => exact ih.2
  | read | write | call | bindProperty | this | super | bindSuper | invoke | bindInitializer
  | invokeInitializer | superclass => trivial
  | body h hmake htext hbefore hframe ih ih' => exact Routine.each_iff.1 ih'
  | bound h hown htext hbefore hbound ih ih' =>
    show Routine.Each _ _
    rw [routine_bindReceiver hbound]
    exact ih'
  | expression h ih | print h ih | definition h ih | loop h ih | returned h ih => exact ih
  | block h hframe ih | function h hdeclare ih | again h hcondition hvalue hbody ih => exact ih
  | @condition place fuel condition branch other m h ih =>
    cases other with
    | none => exact ih.1
    | some other => exact ih.1
  | @thenBranch place fuel condition branch other value m m₁ h hcondition hvalue ih =>
    cases other with
    | none => exact ih.2
    | some other => exact ih.2.1
  | elseBranch h hcondition hvalue ih => exact ih.2.2
  | own h hsuperclass hdefine hframe hmethod ih => exact Routine.EachAll.of_mem ih hmethod
  | statements h hs ih | topRest h hs ih => exact ih.2
  | round h hcondition hvalue ih => exact ih.2

/-- An initializer is made by binding it to a receiver. -/
theorem isSome_receiver_of_make (hroot : ∀ place moment, R place moment →
      ∀ closure context m, moment ≠ .make closure context m)
    {closure : Closure} {context : RoutineContext} {m : Machine}
    (h : Happens R place (.make closure context m)) (hinitializer : closure.isInitializer = true) :
    (m.store.local? closure.frame "this").isSome := by
  generalize hmoment : Moment.make closure context m = moment at h
  cases h with
  | root h => exact absurd hmoment.symm (hroot _ _ h _ _ _)
  | @bound user place method bound receiver m₀ m m₁ h hown htext hbefore hbound =>
    cases hmoment
    cases hbound
    refine Store.isSome_local?_define _ ?_ _ _
    show m.store.frames.size < (m.store.frames.push _).size
    rw [Array.size_push]
    exact Nat.lt_succ_self _
  | function h hdeclare =>
    cases hmoment
    cases hinitializer
  | _ => cases hmoment

end Code

/-! ### How moments fail -/

/-- The evaluator ends what the moment sets out to do with this fault. What is done to variables,
methods and closures is part of other moments. -/
def Moment.Fails : Moment → Diagnostic → Prop
  | evaluate fuel e m, d => ∃ m', Eval.evaluate fuel e m = .error (.fault d) m'
  | evaluateAll fuel es m, d => ∃ m', Eval.evaluateAll fuel es m = .error (.fault d) m'
  | call fuel callee paren values m, d =>
    ∃ m', Eval.call fuel callee paren values m = .error (.fault d) m'
  | invoke fuel closure paren values m, d =>
    ∃ m', Eval.invoke fuel closure paren values m = .error (.fault d) m'
  | execute fuel s m, d => ∃ m', Eval.execute fuel s m = .error (.fault d) m'
  | executeAll fuel ss m, d => ∃ m', Eval.executeAll fuel ss m = .error (.fault d) m'
  | executeWhile fuel condition body m, d =>
    ∃ m', Eval.executeWhile fuel condition body m = .error (.fault d) m'
  | program fuel ss m, d => ∃ m', executeProgram fuel ss m = .error (.fault d) m'
  | access _ _ _, _ | own _ _, _ | bind _ _ _, _ | make _ _ _, _ => False

section Fails

variable {R : Place → Moment → Prop} {ids : Nat → Numbering} {place : Place} {moment : Moment}
  {line : Nat} {cause : RuntimeFault}

theorem Runs.exists_raises {α β : Type} {p : Pair} {c : Eval α} {c' : Eval β}
    {Q : Pair → α → β → Prop} (h : Runs R .plain p c c' Q) {m : Machine}
    (hc : c p.left = .error (.fault (.runtime line cause)) m) :
    ∃ place moment token, Happens R place moment ∧ Raises moment token cause ∧
      token.line = line := by
  obtain ⟨halt', p', -, -, -, hhalt⟩ := h.exists_of_error hc nofun
  cases hhalt with
  | fault hh hraises => exact ⟨_, _, _, hh, hraises, rfl⟩

/-- A moment that fails does so at a moment of the run, with a fault of its own. -/
theorem exists_raises_of_fails (hh : Happens R place moment) (hvisit : Visit R ids place moment)
    (hfails : moment.Fails (.runtime line cause)) :
    ∃ place moment token, Happens R place moment ∧ Raises moment token cause ∧
      token.line = line := by
  have hvisited := hvisit.visited
  have step := lockstep R .plain
  cases moment with
  | evaluate fuel e m =>
    obtain ⟨⟨marks, hat, he⟩, m', hm'⟩ := hvisited, hfails
    exact ((step fuel).evaluate hat he hh).exists_raises hm'
  | evaluateAll fuel es m =>
    obtain ⟨⟨marks, hat, hes⟩, m', hm'⟩ := hvisited, hfails
    exact ((step fuel).evaluateAll hat hes hh).exists_raises hm'
  | call fuel callee paren values m =>
    obtain ⟨⟨marks, hat, hcallee, hvalues⟩, m', hm'⟩ := hvisited, hfails
    exact ((step fuel).call hat.sound hat.text_eq hcallee hvalues hh).exists_raises hm'
  | invoke fuel closure paren values m =>
    obtain ⟨⟨marks, hat, hclosure, hvalues, harity⟩, m', hm'⟩ := hvisited, hfails
    exact ((step fuel).invoke hat.sound hat.text_eq hclosure hvalues harity hh).exists_raises hm'
  | execute fuel s m =>
    obtain ⟨⟨marks, hat, hs⟩, m', hm'⟩ := hvisited, hfails
    exact ((step fuel).execute hat hs hh).exists_raises hm'
  | executeAll fuel ss m =>
    obtain ⟨⟨marks, hat, hss⟩, m', hm'⟩ := hvisited, hfails
    exact ((step fuel).executeAll hat hss hh).exists_raises hm'
  | executeWhile fuel condition body m =>
    obtain ⟨⟨marks, hat, hcondition, hbody, hb⟩, m', hm'⟩ := hvisited, hfails
    exact ((step fuel).executeWhile hat hcondition hbody hb hh).exists_raises hm'
  | program fuel ss m =>
    obtain ⟨⟨marks, hat, hss⟩, m', hm'⟩ := hvisited, hfails
    exact (Runs.executeProgram hat hss hh).exists_raises hm'
  | access | own | bind | make => exact hfails.elim

end Fails

/-! ### Class declarations -/

/-- Once its superclass is found, a class is declared. -/
theorem Eval.declareClass_of_superclass {c : Option Class} {m m₁ : Machine} {name : Token}
    {superclass : Option Use} {methods : List Routine} (hlt : m.current < m.store.frames.size)
    (h : superclassClassOf superclass m = .ok c m₁) :
    ∃ m₂, declareClass name superclass methods m = .ok () m₂ :=
  ⟨_, declareClass_eq_withClass name methods hlt h⟩

end Treewalk
