import Treewalk.Proofs.Evaluation.Arguments
import Treewalk.Proofs.Session.Moments
import Treewalk.Proofs.Session.Returns

/-!
# No argument is lost

Parameters and arguments are paired without a look at their numbers, and a class checks its
arguments long before the initializer is run with them, which may be that of any of its
superclasses. Still the numbers agree whenever a closure is run, whatever the program is and
whatever its depth table says. In an accepted program the parameters also have distinct names, so
that each of them is bound to its own argument.

## Main results

* `Session.arguments_bound` — the numbers agree in every run, and in a session each parameter is
  bound to its argument and nothing else is when a body begins
-/

namespace Treewalk.Session

open Eval

theorem distinct_of_begins {s : Session} {fuel : Nat} {sources : List String} {place : Place}
    {moment : Moment} (h : Begins s fuel sources place moment) : moment.Distinct := by
  cases h with
  | mk hsources haccept => exact Stmt.distinctAll_of_scopeFaults (faults_of_accept haccept)

/-- **No argument is lost.** Whenever a closure is run, by a call of a function or of a class, in
the run of any program on any machine, there are as many arguments as parameters; and calls would be
the same if running a closure with any other number meant something else. In a session the frame of
the call then binds every parameter to the argument in its position, and nothing else, and this is
where the body begins. -/
theorem arguments_bound :
    (∀ fuel program m (s : Situation), s.OfRun fuel program m →
      ∀ fuel' closure paren arguments m', s.moment = .invoke fuel' closure paren arguments m' →
        arguments.length = closure.routine.parameters.length) ∧
    (∀ fuel (run : Closure → Token → List Value → Eval Value),
      (∀ closure paren arguments, arguments.length = closure.routine.parameters.length →
        run closure paren arguments = invoke fuel closure paren arguments) →
      ∀ callee paren arguments,
        call (fuel + 1) callee paren arguments = callBy run callee paren arguments) ∧
    ∀ sink reading fuel sources place fuel' closure paren arguments m,
      Happens (Begins (initial sink reading) fuel sources) place
        (.invoke (fuel' + 1) closure paren arguments m) →
      ∃ inside frame m', callFrame closure.frame closure.routine.parameters arguments m =
          .ok frame m' ∧ m.Binds closure arguments frame m' ∧
        Happens (Begins (initial sink reading) fuel sources) inside
          (.executeAll fuel' closure.routine.body { m' with current := frame }) := by
  refine ⟨?_, ?_, ?_⟩
  · intro fuel program m s hs fuel' closure paren arguments m' hmoment
    have hfits := hs.fits
    rw [hmoment] at hfits
    exact hfits
  · intro fuel run hrun callee paren arguments
    rw [call_succ_eq]
    exact (callBy_congr hrun callee paren arguments).symm
  · intro sink reading fuel sources place fuel' closure paren arguments m h
    obtain ⟨marks, hat, hclosure, -, harity⟩ := (visit sink reading h).visited
    obtain ⟨made, -, context, m₀, hmake, htext, hbefore, -⟩ := hclosure.made
    have hdistinct := hmake.distinct fun _ _ => distinct_of_begins
    obtain ⟨frame, m', hframe, hbinds⟩ :=
      binds_callFrame (m := m) (Routine.distinct_iff.1 hdistinct).1 harity
    exact ⟨_, frame, m', hframe, hbinds, h.body hmake (hat.text_eq ▸ htext) hbefore hframe⟩

/-- A class that inherits its initializer, with two parameters. -/
def inheritedText : String :=
  "class A \x7b init(a, b) \x7b\x7d \x7d class B < A \x7b\x7d B(true, nil);"

def inheritedInitializer : Routine :=
  ⟨⟨.identifier, "init", 1⟩, [⟨.identifier, "a", 1⟩, ⟨.identifier, "b", 1⟩], []⟩

def inheritedProgram : List Stmt :=
  [.class ⟨.identifier, "A", 1⟩ none [inheritedInitializer],
    .class ⟨.identifier, "B", 1⟩ (some ⟨0, ⟨.identifier, "A", 1⟩⟩) [],
    .expression (.call (.variable ⟨1, ⟨.identifier, "B", 1⟩⟩) ⟨.symbol .rightParen, ")", 1⟩
      [.literal (.boolean true), .literal .nil])]

set_option maxRecDepth 100000 in
theorem parse_inheritedText : Source.parse inheritedText 0 = ⟨inheritedProgram, [], 2, true⟩ := by
  cbv

theorem accept_inheritedText : (initial .unbounded fun _ => 0).accept inheritedText =
    (.ok inheritedProgram,
      ⟨(Machine.initial .unbounded fun _ => 0).record (analyse inheritedProgram), 2⟩) :=
  accept_of_parse parse_inheritedText rfl

/-- The arguments for the class are those of the initializer that it inherits. -/
theorem arguments_bound_inheritedText : ∃ place fuel closure paren m frame m',
    Happens (Begins (initial .unbounded fun _ => 0) 20 [inheritedText]) place
        (.invoke (fuel + 1) closure paren [.boolean true, .nil] m) ∧
      closure.routine = inheritedInitializer ∧
      callFrame closure.frame closure.routine.parameters [.boolean true, .nil] m = .ok frame m' ∧
      m'.store.local? frame "a" = some (.boolean true) ∧ m'.store.local? frame "b" = some .nil := by
  have hrun := Happens.root (Begins.first accept_inheritedText 20 [])
  have hcall := ((hrun.topRest rfl).topRest rfl).top.expression.call rfl rfl
  have hinvoke := hcall.invokeInitializer rfl rfl rfl rfl
  obtain ⟨-, frame, m', hframe, hbinds, -⟩ :=
    arguments_bound.2.2 .unbounded (fun _ => 0) 20 [inheritedText] _ _ _ _ _ _ hinvoke
  refine ⟨_, _, _, _, _, frame, m', hinvoke, rfl, hframe, ?_, ?_⟩
  · exact (hbinds.local?_iff "a" _).2 ⟨0, _, rfl, rfl, rfl⟩
  · exact (hbinds.local?_iff "b" _).2 ⟨1, _, rfl, rfl, rfl⟩

end Treewalk.Session
