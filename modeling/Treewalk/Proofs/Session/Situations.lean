import Treewalk.Proofs.Session.Chains

/-!
# Situations of a session

All that happens in a session is told in two ways: with the place in the program text where it
happens, and with the values and closures that are in use meanwhile. Both tell of the same runs, so
that what is known of all that a machine comes to is known of the session.

## Main definitions

* `Moment.IsStep` — something that the evaluator sets out to do as a whole
* `Situation.IsReached` — a situation that some machine comes to

## Main results

* `Happens.exists_situation` — what happens in a run is a situation of it
* `Session.isReached_of_happens` — what happens in a session is reached
-/

namespace Treewalk

open Eval

/-- Something that the evaluator sets out to do as a whole. What is done to variables, methods and
closures is part of that. -/
def Moment.IsStep : Moment → Prop
  | access _ _ _ | own _ _ | bind _ _ _ | make _ _ _ => False
  | _ => True

/-- What the evaluator sets out to do in the course of a run is a situation of it. -/
theorem Happens.exists_situation {R : Place → Moment → Prop} {place : Place} {moment : Moment}
    {P : Situation → Prop}
    (hroot : ∀ place moment, R place moment → ∃ held, P ⟨held, moment⟩)
    (hleads : ∀ s s' : Situation, s.Leads s' → P s → P s') (h : Happens R place moment)
    (hstep : moment.IsStep) : ∃ held, P ⟨held, moment⟩ := by
  have next {held held' : Held} {moment moment' : Moment}
      (hs : Situation.Leads ⟨held, moment⟩ ⟨held', moment'⟩) (hheld : P ⟨held, moment⟩) :
      ∃ held, P ⟨held, moment'⟩ := ⟨held', hleads _ _ hs hheld⟩
  induction h with
  | root h => exact hroot _ _ h
  | read | write | this | super | superclass => exact hstep.elim
  | bindProperty | bindSuper | bindInitializer | bound | function | own => exact hstep.elim
  | group h ih => exact (ih trivial).elim fun _ => next .group
  | operand h ih => exact (ih trivial).elim fun _ => next .operand
  | left h ih => exact (ih trivial).elim fun _ => next .left
  | right h hleft ih => exact (ih trivial).elim fun _ => next (.right hleft)
  | decider h ih => exact (ih trivial).elim fun _ => next .leftLogical
  | alternative h hleft hvalue ih =>
    exact (ih trivial).elim fun _ => next (.rightLogical hleft hvalue)
  | assigned h ih => exact (ih trivial).elim fun _ => next .assigned
  | callee h ih => exact (ih trivial).elim fun _ => next .callee
  | arguments h hcallee ih => exact (ih trivial).elim fun _ => next (.arguments hcallee)
  | call h hcallee harguments ih =>
    exact (ih trivial).elim fun _ => next (.call hcallee harguments)
  | object h ih => exact (ih trivial).elim fun _ => next .object
  | target h ih => exact (ih trivial).elim fun _ => next .target
  | field h hobject ih => exact (ih trivial).elim fun _ => next (.field hobject)
  | first h ih => exact (ih trivial).elim fun _ => next .first
  | others h he ih => exact (ih trivial).elim fun _ => next (.others he)
  | invoke h harity ih => exact (ih trivial).elim fun _ => next (.invoke harity)
  | invokeInitializer h harity hobject hinitializer hbound ih =>
    exact (ih trivial).elim fun _ => next (.construct harity hobject hinitializer hbound)
  | body h hmake htext hbefore hframe ih => exact (ih trivial).elim fun _ => next (.body hframe)
  | expression h ih => exact (ih trivial).elim fun _ => next .expression
  | print h ih => exact (ih trivial).elim fun _ => next .print
  | definition h ih => exact (ih trivial).elim fun _ => next .definition
  | block h hframe ih => exact (ih trivial).elim fun _ => next (.block hframe)
  | condition h ih => exact (ih trivial).elim fun _ => next .condition
  | thenBranch h hcondition hvalue ih =>
    exact (ih trivial).elim fun _ => next (.thenBranch hcondition hvalue)
  | elseBranch h hcondition hvalue ih =>
    exact (ih trivial).elim fun _ => next (.elseBranch hcondition hvalue)
  | loop h ih => exact (ih trivial).elim fun _ => next .loop
  | returned h ih => exact (ih trivial).elim fun _ => next .returned
  | statement h ih => exact (ih trivial).elim fun _ => next .statement
  | statements h hs ih => exact (ih trivial).elim fun _ => next (.statements hs)
  | check h ih => exact (ih trivial).elim fun _ => next .check
  | round h hcondition hvalue ih =>
    exact (ih trivial).elim fun _ => next (.round hcondition hvalue)
  | again h hcondition hvalue hbody ih =>
    exact (ih trivial).elim fun _ => next (.again hcondition hvalue hbody)
  | top h ih => exact (ih trivial).elim fun _ => next .top
  | topRest h hs ih => exact (ih trivial).elim fun _ => next (.topRest hs)

/-- The situation is one of the run of a program, on a machine that is between two programs. -/
def Situation.IsReached (s : Situation) : Prop :=
  ∃ fuel program m, m.Idle ∧ s.OfRun fuel program m

theorem Situation.IsReached.before {s : Situation} (h : s.IsReached) : s.before.Reachable := by
  obtain ⟨fuel, program, m, hidle, hs⟩ := h
  exact .before hidle hs

namespace Session

variable {sink : Sink} {reading : Nat → Float} {fuel : Nat} {sources : List String} {place : Place}
  {moment : Moment}

/-- What happens in a session is reached, with something held meanwhile. -/
theorem isReached_of_happens (h : Happens (Begins (initial sink reading) fuel sources) place moment)
    (hstep : moment.IsStep) : ∃ held, Situation.IsReached ⟨held, moment⟩ := by
  refine h.exists_situation ?_ ?_ hstep
  · rintro _ _ (@⟨before, after, source, program, s₁, hsources, haccept⟩)
    have hinitial : (initial sink reading).machine.Idle := .initial sink reading
    have hidle := idle_accept (idle_runAll hinitial fuel before) source
    rw [haccept] at hidle
    exact ⟨.none, _, _, _, hidle, .refl⟩
  · rintro s s' hleads ⟨fuel, program, m, hidle, hs⟩
    exact ⟨fuel, program, m, hidle, hs.tail hleads⟩

end Session

end Treewalk
