import Treewalk.Proofs.Evaluation.Steps
import Treewalk.Proofs.Grammar.Anchors

/-!
# Where the tokens of a run come from

Everything that happens at a place of a program is about the tokens of this program: the code that
runs there is a part of it, or of a function or method that was declared in it. So a fault is raised
at a token of the program that its place belongs to, whichever program is running.

## Main definitions

* `Moment.Anchored` — a moment that fails at tokens with a property

## Main results

* `Happens.anchored` — the tokens of a moment are those of the program of its place
* `Raises.anchored` — a fault is raised at one of them
-/

namespace Treewalk

open Eval

/-- The tokens at which a moment may fail, or one in the code it is about, have the property. Where
a closure is called or bound, its code is that of another place. -/
def Moment.Anchored (P : Token → Prop) : Moment → Prop
  | evaluate _ e _ => e.Anchored P
  | evaluateAll _ es _ => Expr.AnchoredAll P es
  | call _ _ paren _ _ | invoke _ _ paren _ _ => P paren
  | execute _ s _ => s.Anchored P
  | executeAll _ ss _ | program _ ss _ => Stmt.AnchoredAll P ss
  | executeWhile _ condition body _ => condition.Anchored P ∧ body.Anchored P
  | access _ use _ => P use.token
  | own method _ => method.routine.Anchored P
  | bind _ _ _ => True
  | make closure _ _ => closure.routine.Anchored P

variable {R : Place → Moment → Prop} {place : Place} {moment : Moment} {P : Nat → Token → Prop}

/-- What holds of the tokens of the programs with which runs begin holds of all that happens. -/
theorem Happens.anchored (hroot : ∀ place moment, R place moment → moment.Anchored (P place.origin))
    (h : Happens R place moment) : moment.Anchored (P place.origin) := by
  induction h with
  | root h => exact hroot _ _ h
  | group h ih | read h ih | this h ih | returned h ih => exact ih
  | expression h ih | print h ih | definition h ih | block h hframe ih | loop h ih => exact ih
  | operand h ih => exact ih.2
  | left h ih | decider h ih | callee h ih | object h ih | target h ih | first h ih => exact ih.1
  | right h hleft ih => exact ih.2.2
  | alternative h hleft hvalue ih => exact ih.2
  | assigned h ih => exact ih.2
  | write h hvalue ih => exact ih.1
  | arguments h hcallee ih => exact ih.2.2
  | call h hcallee harguments ih => exact ih.2.1
  | field h hobject ih => exact ih.2.2
  | super h ih => exact ih.1
  | others h he ih => exact ih.2
  | bindProperty | bindSuper | bindInitializer => trivial
  | invoke h harity ih => exact ih
  | invokeInitializer h harity hobject hinitializer hbound ih => exact ih
  | body h hmake htext hbefore hframe ih ih' => exact Routine.anchored_iff.1 ih'
  | bound h hown htext hbefore hbound ih ih' =>
    show Routine.Anchored _ _
    rw [routine_bindReceiver hbound]
    exact ih'
  | @condition place fuel condition branch other m h ih =>
    cases other with
    | none => exact ih.1
    | some other => exact ih.1
  | @thenBranch place fuel condition branch other value m m₁ h hcondition hvalue ih =>
    cases other with
    | none => exact ih.2
    | some other => exact ih.2.1
  | elseBranch h hcondition hvalue ih => exact ih.2.2
  | function h hdeclare ih => exact ih
  | superclass h ih => exact ih.1 _ rfl
  | own h hsuperclass hdefine hframe hmethod ih => exact ih.2.of_mem hmethod
  | statement h ih | top h ih => exact ih.1
  | statements h hs ih | topRest h hs ih => exact ih.2
  | check h ih => exact ih.1
  | round h hcondition hvalue ih => exact ih.2
  | again h hcondition hvalue hbody ih => exact ih

/-- A fault is raised at one of the tokens of the moment. -/
theorem Raises.anchored {P : Token → Prop} {token : Token} {cause : RuntimeFault}
    (h : Raises moment token cause) (hmoment : moment.Anchored P) : P token := by
  cases h with
  | operand hoperand h => exact hmoment.1
  | operands hleft hright h => exact hmoment.2.1
  | access hdepth h => exact hmoment
  | property hobject h => exact hmoment.2
  | undefinedProperty hobject hfield h => exact hmoment.2
  | field hobject h => exact hmoment.2.1
  | undefinedMethod hdepth hc h => exact hmoment.2
  | super h => exact hmoment.1
  | notCallable h => exact hmoment
  | arity hv h => exact hmoment
  | initializer hinitializer h => exact hmoment
  | superclass hv h => exact hmoment.1 _ rfl

end Treewalk
