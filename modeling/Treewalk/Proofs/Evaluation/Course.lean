import Mathlib.Logic.Relation
import Treewalk.Proofs.Evaluation.Secured

/-!
# The course of a run

What a run comes to, one thing after the other, for any program on any machine. What the evaluator
sets out to do is told together with the values that the evaluations begun before hold meanwhile:
the left operand while the right one is evaluated, the arguments evaluated so far, the values of a
call while its body runs.

## Main definitions

* `Situation` — what the machine sets out to do, and the values that wait for it
* `Situation.Leads` — from a situation to the next one
* `Machine.Idle` — a machine between two programs
* `State.Reachable` — all that a machine comes to

* `Discipline.Holds` — a discipline holds in a situation

## Main results

* `Situation.OfRun.keeps` — a lawful discipline holds in all situations of a run
* `State.Reachable.founded` — all that a machine comes to is founded

## Implementation notes

Unlike a `Place`, a situation says nothing about the program text, and a body runs whatever its
closure was made from. So nothing is asked of the program or of the depth table.
-/

namespace Treewalk

open Eval

variable {α : Type}

/-! ### Situations -/

/-- The values that evaluations begun before hold, and the closures whose bodies are running. -/
structure Held where
  values : List Value
  closures : List Closure

namespace Held

def none : Held := ⟨[], []⟩

/-- Holds a value more. -/
def add (held : Held) (v : Value) : Held := { held with values := v :: held.values }

/-- Runs the body of a closure more. -/
def run (held : Held) (closure : Closure) : Held :=
  { held with closures := closure :: held.closures }

end Held

/-- What the machine sets out to do, and what is held meanwhile. -/
structure Situation where
  held : Held
  moment : Moment

/-- From what the machine sets out to do, to what it sets out to do on the way there. -/
inductive Situation.Leads : Situation → Situation → Prop
  -- expressions
  | group {held : Held} {fuel : Nat} {inner : Expr} {m : Machine} :
      Leads ⟨held, .evaluate (fuel + 1) (.group inner) m⟩ ⟨held, .evaluate fuel inner m⟩
  | operand {held : Held} {fuel : Nat} {operator : Token} {operand : Expr} {m : Machine} :
      Leads ⟨held, .evaluate (fuel + 1) (.unary operator operand) m⟩
        ⟨held, .evaluate fuel operand m⟩
  | left {held : Held} {fuel : Nat} {left right : Expr} {operator : Token} {m : Machine} :
      Leads ⟨held, .evaluate (fuel + 1) (.binary left operator right) m⟩
        ⟨held, .evaluate fuel left m⟩
  | right {held : Held} {fuel : Nat} {left right : Expr} {operator : Token} {v : Value}
      {m m₁ : Machine} (hleft : evaluate fuel left m = .ok v m₁) :
      Leads ⟨held, .evaluate (fuel + 1) (.binary left operator right) m⟩
        ⟨held.add v, .evaluate fuel right m₁⟩
  | leftLogical {held : Held} {fuel : Nat} {left right : Expr} {operator : Token}
      {m : Machine} :
      Leads ⟨held, .evaluate (fuel + 1) (.logical left operator right) m⟩
        ⟨held, .evaluate fuel left m⟩
  | rightLogical {held : Held} {fuel : Nat} {left right : Expr} {operator : Token} {v : Value}
      {m m₁ : Machine} (hleft : evaluate fuel left m = .ok v m₁)
      (hdecides : v.decides operator.kind = false) :
      Leads ⟨held, .evaluate (fuel + 1) (.logical left operator right) m⟩
        ⟨held.add v, .evaluate fuel right m₁⟩
  | assigned {held : Held} {fuel : Nat} {target : Use} {value : Expr} {m : Machine} :
      Leads ⟨held, .evaluate (fuel + 1) (.assign target value) m⟩ ⟨held, .evaluate fuel value m⟩
  | callee {held : Held} {fuel : Nat} {callee : Expr} {paren : Token} {arguments : List Expr}
      {m : Machine} :
      Leads ⟨held, .evaluate (fuel + 1) (.call callee paren arguments) m⟩
        ⟨held, .evaluate fuel callee m⟩
  | arguments {held : Held} {fuel : Nat} {callee : Expr} {paren : Token}
      {arguments : List Expr} {v : Value} {m m₁ : Machine}
      (hcallee : evaluate fuel callee m = .ok v m₁) :
      Leads ⟨held, .evaluate (fuel + 1) (.call callee paren arguments) m⟩
        ⟨held.add v, .evaluateAll fuel arguments m₁⟩
  | call {held : Held} {fuel : Nat} {callee : Expr} {paren : Token} {arguments : List Expr}
      {v : Value} {values : List Value} {m m₁ m₂ : Machine}
      (hcallee : evaluate fuel callee m = .ok v m₁)
      (harguments : evaluateAll fuel arguments m₁ = .ok values m₂) :
      Leads ⟨held, .evaluate (fuel + 1) (.call callee paren arguments) m⟩
        ⟨held, .call fuel v paren values m₂⟩
  | object {held : Held} {fuel : Nat} {object : Expr} {name : Token} {m : Machine} :
      Leads ⟨held, .evaluate (fuel + 1) (.property object name) m⟩ ⟨held, .evaluate fuel object m⟩
  | target {held : Held} {fuel : Nat} {object value : Expr} {name : Token} {m : Machine} :
      Leads ⟨held, .evaluate (fuel + 1) (.setProperty object name value) m⟩
        ⟨held, .evaluate fuel object m⟩
  | field {held : Held} {fuel : Nat} {object value : Expr} {name : Token}
      {receiver : Instance} {m m₁ : Machine}
      (hobject : evaluate fuel object m = .ok (.instance receiver) m₁) :
      Leads ⟨held, .evaluate (fuel + 1) (.setProperty object name value) m⟩
        ⟨held.add (.instance receiver), .evaluate fuel value m₁⟩
  | first {held : Held} {fuel : Nat} {e : Expr} {rest : List Expr} {m : Machine} :
      Leads ⟨held, .evaluateAll (fuel + 1) (e :: rest) m⟩ ⟨held, .evaluate fuel e m⟩
  | others {held : Held} {fuel : Nat} {e : Expr} {rest : List Expr} {v : Value}
      {m m₁ : Machine} (he : evaluate fuel e m = .ok v m₁) :
      Leads ⟨held, .evaluateAll (fuel + 1) (e :: rest) m⟩ ⟨held.add v, .evaluateAll fuel rest m₁⟩
  -- calls
  | invoke {held : Held} {fuel : Nat} {stamp : Stamp} {closure : Closure} {paren : Token}
      {values : List Value} {m : Machine} (harity : values.length = closure.arity) :
      Leads ⟨held, .call (fuel + 1) (.function stamp closure) paren values m⟩
        ⟨held.add (.function stamp closure), .invoke fuel closure paren values m⟩
  | construct {held : Held} {fuel : Nat} {c : Class} {paren : Token} {values : List Value}
      {object : Instance} {initializer bound : Closure} {m m₁ m₂ : Machine}
      (harity : values.length = c.arity) (hobject : newInstance c m = .ok object m₁)
      (hinitializer : c.initializer? = some initializer)
      (hbound : bindReceiver initializer object m₁ = .ok bound m₂) :
      Leads ⟨held, .call (fuel + 1) (.class c) paren values m⟩
        ⟨(held.add (.class c)).add (.instance object), .invoke fuel bound paren values m₂⟩
  | body {held : Held} {fuel : Nat} {closure : Closure} {paren : Token} {values : List Value}
      {frame : FrameId} {m m₁ : Machine}
      (hframe : callFrame closure.frame closure.routine.parameters values m = .ok frame m₁) :
      Leads ⟨held, .invoke (fuel + 1) closure paren values m⟩
        ⟨held.run closure, .executeAll fuel closure.routine.body { m₁ with current := frame }⟩
  -- statements
  | expression {held : Held} {fuel : Nat} {value : Expr} {m : Machine} :
      Leads ⟨held, .execute (fuel + 1) (.expression value) m⟩ ⟨held, .evaluate fuel value m⟩
  | print {held : Held} {fuel : Nat} {value : Expr} {m : Machine} :
      Leads ⟨held, .execute (fuel + 1) (.print value) m⟩ ⟨held, .evaluate fuel value m⟩
  | definition {held : Held} {fuel : Nat} {name : Token} {value : Expr} {m : Machine} :
      Leads ⟨held, .execute (fuel + 1) (.var name (some value)) m⟩ ⟨held, .evaluate fuel value m⟩
  | block {held : Held} {fuel : Nat} {body : List Stmt} {frame : FrameId} {m m₁ : Machine}
      (hframe : newFrame m.current m = .ok frame m₁) :
      Leads ⟨held, .execute (fuel + 1) (.block body) m⟩
        ⟨held, .executeAll fuel body { m₁ with current := frame }⟩
  | condition {held : Held} {fuel : Nat} {condition : Expr} {branch : Stmt}
      {other : Option Stmt} {m : Machine} :
      Leads ⟨held, .execute (fuel + 1) (.if condition branch other) m⟩
        ⟨held, .evaluate fuel condition m⟩
  | thenBranch {held : Held} {fuel : Nat} {condition : Expr} {branch : Stmt}
      {other : Option Stmt} {v : Value} {m m₁ : Machine}
      (hcondition : evaluate fuel condition m = .ok v m₁) (hv : v.isTruthy) :
      Leads ⟨held, .execute (fuel + 1) (.if condition branch other) m⟩
        ⟨held, .execute fuel branch m₁⟩
  | elseBranch {held : Held} {fuel : Nat} {condition : Expr} {branch other : Stmt} {v : Value}
      {m m₁ : Machine} (hcondition : evaluate fuel condition m = .ok v m₁)
      (hv : v.isTruthy = false) :
      Leads ⟨held, .execute (fuel + 1) (.if condition branch (some other)) m⟩
        ⟨held, .execute fuel other m₁⟩
  | loop {held : Held} {fuel : Nat} {condition : Expr} {body : Stmt} {m : Machine} :
      Leads ⟨held, .execute (fuel + 1) (.while condition body) m⟩
        ⟨held, .executeWhile fuel condition body m⟩
  | returned {held : Held} {fuel : Nat} {keyword : Token} {value : Expr} {m : Machine} :
      Leads ⟨held, .execute (fuel + 1) (.return keyword (some value)) m⟩
        ⟨held, .evaluate fuel value m⟩
  | statement {held : Held} {fuel : Nat} {s : Stmt} {rest : List Stmt} {m : Machine} :
      Leads ⟨held, .executeAll (fuel + 1) (s :: rest) m⟩ ⟨held, .execute fuel s m⟩
  | statements {held : Held} {fuel : Nat} {s : Stmt} {rest : List Stmt} {m m₁ : Machine}
      (hs : execute fuel s m = .ok .normal m₁) :
      Leads ⟨held, .executeAll (fuel + 1) (s :: rest) m⟩ ⟨held, .executeAll fuel rest m₁⟩
  | check {held : Held} {fuel : Nat} {condition : Expr} {body : Stmt} {m : Machine} :
      Leads ⟨held, .executeWhile (fuel + 1) condition body m⟩ ⟨held, .evaluate fuel condition m⟩
  | round {held : Held} {fuel : Nat} {condition : Expr} {body : Stmt} {v : Value}
      {m m₁ : Machine} (hcondition : evaluate fuel condition m = .ok v m₁) (hv : v.isTruthy) :
      Leads ⟨held, .executeWhile (fuel + 1) condition body m⟩ ⟨held, .execute fuel body m₁⟩
  | again {held : Held} {fuel : Nat} {condition : Expr} {body : Stmt} {v : Value}
      {m m₁ m₂ : Machine} (hcondition : evaluate fuel condition m = .ok v m₁) (hv : v.isTruthy)
      (hbody : execute fuel body m₁ = .ok .normal m₂) :
      Leads ⟨held, .executeWhile (fuel + 1) condition body m⟩
        ⟨held, .executeWhile fuel condition body m₂⟩
  -- programs
  | top {held : Held} {fuel : Nat} {s : Stmt} {rest : List Stmt} {m : Machine} :
      Leads ⟨held, .program fuel (s :: rest) m⟩ ⟨held, .execute fuel s m⟩
  | topRest {held : Held} {fuel : Nat} {s : Stmt} {rest : List Stmt} {flow : Flow}
      {m m₁ : Machine} (hs : execute fuel s m = .ok flow m₁) :
      Leads ⟨held, .program fuel (s :: rest) m⟩ ⟨held, .program fuel rest m₁⟩

/-- A situation of the run of a program. -/
def Situation.OfRun (fuel : Nat) (program : List Stmt) (m : Machine) (s : Situation) : Prop :=
  Relation.ReflTransGen Situation.Leads ⟨.none, .program fuel program m⟩ s

/-! ### States -/

/-- The values that a moment works on. -/
def Moment.values : Moment → List Value
  | call _ callee _ arguments _ => callee :: arguments
  | invoke _ _ _ arguments _ => arguments
  | _ => []

/-- The closure that a moment runs. -/
def Moment.closures : Moment → List Closure
  | invoke _ closure _ _ _ => [closure]
  | _ => []

/-- The values that a computation gives, and the machine it leaves. -/
def Ended.outcome (values : α → List Value) : Ended α → List Value × Machine
  | .ok a m => (values a, m)
  | .error _ m => ([], m)

def Flow.values : Flow → List Value
  | normal => []
  | returned v => [v]

/-- The values that a moment ends with, and the machine it leaves. -/
def Moment.outcome : Moment → List Value × Machine
  | evaluate fuel e m => Ended.outcome (fun v => [v]) (Eval.evaluate fuel e m)
  | evaluateAll fuel es m => Ended.outcome id (Eval.evaluateAll fuel es m)
  | call fuel callee paren arguments m =>
    Ended.outcome (fun v => [v]) (Eval.call fuel callee paren arguments m)
  | invoke fuel closure paren arguments m =>
    Ended.outcome (fun v => [v]) (Eval.invoke fuel closure paren arguments m)
  | execute fuel s m => Ended.outcome Flow.values (Eval.execute fuel s m)
  | executeAll fuel ss m => Ended.outcome Flow.values (Eval.executeAll fuel ss m)
  | executeWhile fuel condition body m =>
    Ended.outcome Flow.values (Eval.executeWhile fuel condition body m)
  | program fuel ss m => Ended.outcome (fun _ => []) (Eval.executeProgram fuel ss m)
  | access _ _ m | own _ m | bind _ _ m | make _ _ m => ([], m)

/-- A machine, with the values and closures that are in use on it beside those in its store. -/
structure State where
  machine : Machine
  values : List Value
  closures : List Closure

/-- The state in which the machine sets out. -/
def Situation.before (s : Situation) : State :=
  ⟨s.moment.machine, s.moment.values ++ s.held.values, s.moment.closures ++ s.held.closures⟩

/-- The state in which the machine arrives. -/
def Situation.after (s : Situation) : State :=
  ⟨s.moment.outcome.2, s.moment.outcome.1 ++ s.held.values, s.held.closures⟩

/-- A machine between two programs, which may get any depth table. -/
inductive Machine.Idle : Machine → Prop
  | initial (sink : Sink) (reading : Nat → Float) : Idle (.initial sink reading)
  | withDepths {m : Machine} (h : Idle m) (depths : DepthTable) : Idle { m with depths }
  | interpret {m : Machine} (h : Idle m) (fuel : Nat) (program : List Stmt) :
      Idle (Ended.machine (interpret fuel program m))

/-- All that a machine comes to: between programs, and wherever a moment of the run of a program
begins or ends. -/
inductive State.Reachable : State → Prop
  | idle {m : Machine} (h : m.Idle) : Reachable ⟨m, [], []⟩
  | before {fuel : Nat} {program : List Stmt} {m : Machine} {s : Situation} (h : m.Idle)
      (hs : s.OfRun fuel program m) : Reachable s.before
  | after {fuel : Nat} {program : List Stmt} {m : Machine} {s : Situation} (h : m.Idle)
      (hs : s.OfRun fuel program m) : Reachable s.after

/-! ### Disciplines over situations -/

/-- The code that a moment is about writes only names with the property. -/
def Moment.Writes (P : String → Prop) : Moment → Prop
  | evaluate _ e _ => e.Writes P
  | evaluateAll _ es _ => Expr.WritesAll P es
  | execute _ s _ => s.Writes P
  | executeAll _ ss _ | program _ ss _ => Stmt.WritesAll P ss
  | executeWhile _ condition body _ => condition.Writes P ∧ body.Writes P
  | call _ _ _ _ _ | invoke _ _ _ _ _ | access _ _ _ | own _ _ | bind _ _ _ | make _ _ _ => True

namespace Discipline

variable {D : Discipline}

/-- The discipline holds of a machine, and of what is in use on it. -/
structure HoldsIn (D : Discipline) (s : State) : Prop where
  machine : D.IsSound s.machine
  values : ∀ v ∈ s.values, D.HasValue s.machine v
  closures : ∀ c ∈ s.closures, D.HasClosure s.machine c

/-- What is held may be around on the machine. -/
structure MayHold (D : Discipline) (m : Machine) (held : Held) : Prop where
  values : ∀ v ∈ held.values, D.HasValue m v
  closures : ∀ c ∈ held.closures, D.HasClosure m c

/-- The discipline holds of the machine, of what is held and of what the moment works on. -/
structure Holds (D : Discipline) (s : Situation) : Prop where
  machine : D.IsSound s.moment.machine
  held : D.MayHold s.moment.machine s.held
  values : ∀ v ∈ s.moment.values, D.HasValue s.moment.machine v
  closures : ∀ c ∈ s.moment.closures, D.HasClosure s.moment.machine c
  writes : s.moment.Writes D.MayWrite

theorem MayHold.none (D : Discipline) (m : Machine) : D.MayHold m .none :=
  ⟨List.forall_mem_nil _, List.forall_mem_nil _⟩

/-- A moment that works on nothing but code. -/
theorem Holds.code {held : Held} {moment : Moment} (hmachine : D.IsSound moment.machine)
    (hheld : D.MayHold moment.machine held) (hvalues : moment.values = [])
    (hclosures : moment.closures = []) (hwrites : moment.Writes D.MayWrite) :
    D.Holds ⟨held, moment⟩ := by
  refine ⟨hmachine, hheld, ?_, ?_, hwrites⟩
  · rw [hvalues]
    exact List.forall_mem_nil _
  · rw [hclosures]
    exact List.forall_mem_nil _

theorem Holds.before {s : Situation} (h : D.Holds s) : D.HoldsIn s.before :=
  ⟨h.machine, List.forall_mem_append.2 ⟨h.values, h.held.values⟩,
    List.forall_mem_append.2 ⟨h.closures, h.held.closures⟩⟩

section Held

variable {m m' : Machine} {held : Held}

theorem MayHold.add (h : D.MayHold m held) {v : Value} (hv : D.HasValue m v) :
    D.MayHold m (held.add v) :=
  ⟨List.forall_mem_cons.2 ⟨hv, h.values⟩, h.closures⟩

theorem MayHold.run (h : D.MayHold m held) {closure : Closure} (hclosure : D.HasClosure m closure) :
    D.MayHold m (held.run closure) :=
  ⟨h.values, List.forall_mem_cons.2 ⟨hclosure, h.closures⟩⟩

theorem MayHold.mono [D.Lawful] (h : D.MayHold m held) (hm : D.Grows m m') : D.MayHold m' held :=
  ⟨fun v hv => Lawful.value_mono (h.values v hv) hm,
    fun c hc => Lawful.closure_mono (h.closures c hc) hm⟩

end Held

/-- However a computation ends, the machine it leaves has grown, and the values may be around on
it. -/
theorem Kept.outcome {m : Machine} {ended : Ended α} {Q : Machine → α → Prop}
    (h : D.Kept m ended Q) {values : α → List Value}
    (hvalues : ∀ m' a, Q m' a → ∀ v ∈ values a, D.HasValue m' v) :
    D.Leads m (ended.outcome values).2 ∧
      ∀ v ∈ (ended.outcome values).1, D.HasValue (ended.outcome values).2 v := by
  obtain ⟨hleads, hresult⟩ := h
  cases ended with
  | ok a m' => exact ⟨hleads, hvalues m' a (hresult a m' rfl)⟩
  | error halt m' => exact ⟨hleads, List.forall_mem_nil _⟩

theorem HasFlow.values {m : Machine} {flow : Flow} (h : D.HasFlow m flow) :
    ∀ v ∈ flow.values, D.HasValue m v := by
  cases flow with
  | normal => exact List.forall_mem_nil _
  | returned v => exact List.forall_mem_singleton.2 h

variable [D.Lawful]

/-- A body that is executed in a frame that is there. -/
theorem Holds.inFrame {held : Held} {fuel : Nat} {body : List Stmt} {frame : FrameId}
    {m : Machine} (hm : D.IsSound m) (hframe : D.HasFrame m frame) (hheld : D.MayHold m held)
    (hbody : Stmt.WritesAll D.MayWrite body) :
    D.Holds ⟨held, .executeAll fuel body { m with current := frame }⟩ :=
  .code (Lawful.of_eq hm rfl rfl hframe) (hheld.mono (Lawful.grows_of_eq rfl rfl)) rfl rfl hbody

/-- What is known when the evaluation of a part of a moment has come to an end. -/
theorem evaluated {fuel : Nat} {e : Expr} {v : Value} {m m₁ : Machine} (hm : D.IsSound m)
    (he : e.Writes D.MayWrite) (h : evaluate fuel e m = .ok v m₁) :
    D.IsSound m₁ ∧ D.Grows m m₁ ∧ D.HasValue m₁ v :=
  ((D.keepsAll fuel).evaluate m e he).of_ok hm h

theorem evaluatedAll {fuel : Nat} {es : List Expr} {values : List Value} {m m₁ : Machine}
    (hm : D.IsSound m) (hes : Expr.WritesAll D.MayWrite es)
    (h : evaluateAll fuel es m = .ok values m₁) :
    D.IsSound m₁ ∧ D.Grows m m₁ ∧ ∀ v ∈ values, D.HasValue m₁ v :=
  ((D.keepsAll fuel).evaluateAll m es hes).of_ok hm h

theorem executed {fuel : Nat} {s : Stmt} {flow : Flow} {m m₁ : Machine} (hm : D.IsSound m)
    (hs : s.Writes D.MayWrite) (h : execute fuel s m = .ok flow m₁) :
    D.IsSound m₁ ∧ D.Grows m m₁ ∧ D.HasFlow m₁ flow :=
  ((D.keepsAll fuel).execute m s hs).of_ok hm h

end Discipline

section Situations

open Discipline

variable {D : Discipline} [D.Lawful] {s s' : Situation}

/-- One thing leads to another on a machine that has grown, and the discipline still holds. -/
theorem Situation.Leads.keeps (h : s.Leads s') (hs : D.Holds s) :
    D.Holds s' ∧ D.Grows s.moment.machine s'.moment.machine := by
  have hm := hs.machine
  have hwrites := hs.writes
  cases h with
  -- nothing was done yet
  | group | operand | assigned | object | definition =>
    exact ⟨.code hm hs.held rfl rfl hwrites.2, Lawful.refl _⟩
  | left | leftLogical | callee | target =>
    exact ⟨.code hm hs.held rfl rfl hwrites.2.1, Lawful.refl _⟩
  | first | statement | check | top => exact ⟨.code hm hs.held rfl rfl hwrites.1, Lawful.refl _⟩
  | expression | print | loop | returned =>
    exact ⟨.code hm hs.held rfl rfl hwrites, Lawful.refl _⟩
  | condition =>
    exact ⟨.code hm hs.held rfl rfl (Stmt.writes_if_iff.1 hwrites).1, Lawful.refl _⟩
  -- the value of another expression is held
  | right hvalue | rightLogical hvalue _ | field hvalue | arguments hvalue =>
    obtain ⟨hm₁, hgrows, hv⟩ := evaluated hm hwrites.2.1 hvalue
    exact ⟨.code hm₁ ((hs.held.mono hgrows).add hv) rfl rfl hwrites.2.2, hgrows⟩
  | others hvalue =>
    obtain ⟨hm₁, hgrows, hv⟩ := evaluated hm hwrites.1 hvalue
    exact ⟨.code hm₁ ((hs.held.mono hgrows).add hv) rfl rfl hwrites.2, hgrows⟩
  | call hcallee harguments =>
    obtain ⟨hm₁, hgrows₁, hv⟩ := evaluated hm hwrites.2.1 hcallee
    obtain ⟨hm₂, hgrows₂, hvalues⟩ := evaluatedAll hm₁ hwrites.2.2 harguments
    have hgrows := Lawful.trans hgrows₁ hgrows₂
    have hall := List.forall_mem_cons.2 ⟨Lawful.value_mono hv hgrows₂, hvalues⟩
    exact ⟨⟨hm₂, hs.held.mono hgrows, hall, List.forall_mem_nil _, trivial⟩, hgrows⟩
  | invoke =>
    obtain ⟨hfunction, hvalues⟩ := List.forall_mem_cons.1 hs.values
    have hclosure := List.forall_mem_singleton.2 (Lawful.function_closure hfunction)
    exact ⟨⟨hm, hs.held.add hfunction, hvalues, hclosure, trivial⟩, Lawful.refl _⟩
  | construct _ hobject hinitializer hbound =>
    obtain ⟨hc, hvalues⟩ := List.forall_mem_cons.1 hs.values
    obtain ⟨hm₁, hgrows₁, hobject⟩ := (Keeps.newInstance hc).of_ok hm hobject
    have hc₁ := Lawful.value_mono hc hgrows₁
    obtain ⟨hm₂, hgrows₂, hbound⟩ :=
      (Keeps.bindReceiver hc₁ hinitializer hobject).of_ok hm₁ hbound
    have hgrows := Lawful.trans hgrows₁ hgrows₂
    have hheld := ((hs.held.mono hgrows).add (Lawful.value_mono hc hgrows)).add
      (Lawful.value_mono hobject hgrows₂)
    exact ⟨⟨hm₂, hheld, fun v hv => Lawful.value_mono (hvalues v hv) hgrows,
      List.forall_mem_singleton.2 hbound, trivial⟩, hgrows⟩
  | body hframe =>
    have hclosure := hs.closures _ (.head _)
    obtain ⟨hm₁, hgrows, hlt⟩ := (Keeps.callFrame hclosure hs.values).of_ok hm hframe
    have hheld := (hs.held.mono hgrows).run (Lawful.closure_mono hclosure hgrows)
    have hbody := (Routine.writes_iff.1 (Lawful.closure_writes hclosure)).2
    exact ⟨.inFrame hm₁ hlt hheld hbody, Lawful.trans hgrows (Lawful.grows_of_eq rfl rfl)⟩
  | block hframe =>
    obtain ⟨hm₁, hgrows, hlt⟩ := (Keeps.newFrame (Lawful.current hm)).of_ok hm hframe
    exact ⟨.inFrame hm₁ hlt (hs.held.mono hgrows) hwrites,
      Lawful.trans hgrows (Lawful.grows_of_eq rfl rfl)⟩
  -- what was done before gives nothing to hold
  | thenBranch hcondition _ =>
    obtain ⟨hcode, hbranch, -⟩ := Stmt.writes_if_iff.1 hwrites
    obtain ⟨hm₁, hgrows, -⟩ := evaluated hm hcode hcondition
    exact ⟨.code hm₁ (hs.held.mono hgrows) rfl rfl hbranch, hgrows⟩
  | elseBranch hcondition _ =>
    obtain ⟨hm₁, hgrows, -⟩ := evaluated hm hwrites.1 hcondition
    exact ⟨.code hm₁ (hs.held.mono hgrows) rfl rfl hwrites.2.2, hgrows⟩
  | round hcondition _ =>
    obtain ⟨hm₁, hgrows, -⟩ := evaluated hm hwrites.1 hcondition
    exact ⟨.code hm₁ (hs.held.mono hgrows) rfl rfl hwrites.2, hgrows⟩
  | statements hfirst | topRest hfirst =>
    obtain ⟨hm₁, hgrows, -⟩ := executed hm hwrites.1 hfirst
    exact ⟨.code hm₁ (hs.held.mono hgrows) rfl rfl hwrites.2, hgrows⟩
  | again hcondition _ hbody =>
    obtain ⟨hm₁, hgrows₁, -⟩ := evaluated hm hwrites.1 hcondition
    obtain ⟨hm₂, hgrows₂, -⟩ := executed hm₁ hwrites.2 hbody
    have hgrows := Lawful.trans hgrows₁ hgrows₂
    exact ⟨.code hm₂ (hs.held.mono hgrows) rfl rfl hwrites, hgrows⟩

/-- A program begins with nothing in use. -/
theorem Situation.OfRun.keeps {fuel : Nat} {program : List Stmt} {m : Machine}
    (h : s.OfRun fuel program m) (hm : D.IsSound m)
    (hprogram : Stmt.WritesAll D.MayWrite program) : D.Holds s ∧ D.Grows m s.moment.machine := by
  induction h with
  | refl => exact ⟨.code hm (.none D m) rfl rfl hprogram, Lawful.refl m⟩
  | tail _ hleads ih =>
    obtain ⟨hholds, hgrows⟩ := hleads.keeps ih.1
    exact ⟨hholds, Lawful.trans ih.2 hgrows⟩

namespace Discipline

/-- What a moment ends with. -/
theorem Holds.outcome (h : D.Holds s) : D.Leads s.moment.machine s.moment.outcome.2 ∧
    ∀ v ∈ s.moment.outcome.1, D.HasValue s.moment.outcome.2 v := by
  have hvalue (m' : Machine) (v : Value) (hv : D.HasValue m' v) : ∀ w ∈ [v], D.HasValue m' w :=
    List.forall_mem_singleton.2 hv
  obtain ⟨held, moment⟩ := s
  have hm := h.machine
  cases moment with
  | evaluate fuel e m => exact ((D.keepsAll fuel).evaluate m e h.writes hm).outcome hvalue
  | evaluateAll fuel es m =>
    exact ((D.keepsAll fuel).evaluateAll m es h.writes hm).outcome fun _ _ hvalues => hvalues
  | call fuel callee paren arguments m =>
    obtain ⟨hcallee, harguments⟩ := List.forall_mem_cons.1 h.values
    exact ((D.keepsAll fuel).call m callee paren arguments hcallee harguments hm).outcome hvalue
  | invoke fuel closure paren arguments m =>
    have hclosure := h.closures closure (.head _)
    exact ((D.keepsAll fuel).invoke m closure paren arguments hclosure h.values hm).outcome hvalue
  | execute fuel stmt m =>
    exact ((D.keepsAll fuel).execute m stmt h.writes hm).outcome fun _ _ => HasFlow.values
  | executeAll fuel ss m =>
    exact ((D.keepsAll fuel).executeAll m ss h.writes hm).outcome fun _ _ => HasFlow.values
  | executeWhile fuel condition body m =>
    exact ((D.keepsAll fuel).executeWhile m condition body h.writes.1 h.writes.2 hm).outcome
      fun _ _ => HasFlow.values
  | program fuel ss m =>
    exact (Keeps.executeProgram fuel m h.writes hm).outcome fun _ _ _ => List.forall_mem_nil _
  | access _ _ m | own _ m | bind _ _ m | make _ _ m =>
    exact ⟨⟨hm, Lawful.refl m⟩, List.forall_mem_nil _⟩

theorem Holds.after (h : D.Holds s) : D.HoldsIn s.after := by
  obtain ⟨hleads, hvalues⟩ := h.outcome
  have hheld := h.held.mono hleads.grows
  exact ⟨hleads.sound, List.forall_mem_append.2 ⟨hvalues, hheld.values⟩, hheld.closures⟩

end Discipline

end Situations

/-! ### All that is reached is founded -/

/-- The machine is founded, and what is in use on it refers to nothing but what it has made. -/
structure State.Founded (s : State) : Prop where
  machine : s.machine.Founded
  values : ∀ v ∈ s.values, v.Within s.machine
  closures : ∀ c ∈ s.closures, c.frame < s.machine.store.frames.size

theorem State.Founded.of_holdsIn {s : State} (h : Discipline.founding.HoldsIn s) : s.Founded :=
  ⟨h.machine, h.values, h.closures⟩

/-- To be founded, nothing is asked of a program. -/
theorem Stmt.writesAll_founding (ss : List Stmt) :
    Stmt.WritesAll Discipline.founding.MayWrite ss :=
  Stmt.writesAll_of_forall (fun _ => trivial) ss

theorem Machine.Idle.founded {m : Machine} (h : m.Idle) : m.Founded := by
  induction h with
  | initial sink reading => exact .initial sink reading
  | withDepths _ depths ih => exact ih.of_eq rfl rfl ih.current_lt
  | interpret _ fuel program ih =>
    exact (Discipline.Keeps.interpret fuel _ (Stmt.writesAll_founding program) ih).leads.sound

/-- Everything a machine comes to is founded, with any programs and any depth tables. -/
theorem State.Reachable.founded {s : State} (h : s.Reachable) : s.Founded := by
  have holds {fuel : Nat} {program : List Stmt} {m : Machine} {s : Situation} (hm : m.Idle)
      (hs : s.OfRun fuel program m) : Discipline.founding.Holds s :=
    (hs.keeps hm.founded (Stmt.writesAll_founding program)).1
  cases h with
  | idle h => exact ⟨h.founded, List.forall_mem_nil _, List.forall_mem_nil _⟩
  | before h hs => exact .of_holdsIn (holds h hs).before
  | after h hs => exact .of_holdsIn (holds h hs).after

end Treewalk
