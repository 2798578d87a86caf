import Mathlib
import Treewalk.Proofs.Evaluation.Returns
import Treewalk.Proofs.Session.Acceptance

/-!
# A return stays in its call

Scope analysis accepts a `return` in functions and methods only, so that none is executed at the top
level. In a body the `return` that is executed ends the call of that body: it is the last thing done
in the activation, whatever blocks, branches and loops it stands in.

## Main results

* `Session.returns_end_call` — no statement of an accepted text returns, and in a call nothing
  follows a `return`
-/

namespace Treewalk.Session

open Eval

/-- A text that is accepted has no scope faults. -/
theorem faults_of_accept {s s₁ : Session} {source : String} {program : List Stmt}
    (h : s.accept source = (.ok program, s₁)) : scopeFaults (analyse program) = [] := by
  unfold accept at h
  split at h
  · cases h
  · next program' s' hread =>
    split at h
    · next s'' hcheck =>
      cases h
      exact congrArg Prod.fst hcheck
    · cases h

/-- **A return stays in its call.** A top-level statement of a text that is accepted never returns,
whatever machine executes it. A call, of any closure on any machine, executes the body in a new
frame; of all the statements that are begun and the conditions that are evaluated in this
activation, a `return` that is executed is the last one, and the call ends with its value, or with
the receiver if it is one of an initializer, and goes back to the frame of the caller. Unless such a
`return` is executed in this very activation, its body does not return. -/
theorem returns_end_call :
    (∀ (s s₁ : Session) source program, s.accept source = (.ok program, s₁) → ∀ stmt ∈ program,
      ∀ fuel m flow m', execute fuel stmt m = .ok flow m' → flow = .normal) ∧
    ∀ fuel (closure : Closure) paren arguments m, ∃ frame m₁ entries,
      callFrame closure.frame closure.routine.parameters arguments m = .ok frame m₁ ∧
      Logging.executeAll fuel closure.routine.body ({ m₁ with current := frame }, []) =
        Ended.withLog entries (executeAll fuel closure.routine.body { m₁ with current := frame }) ∧
      (∀ before x after v m₂, entries = before ++ x :: after → x.Returns v m₂ → after = [] ∧
        invoke (fuel + 1) closure paren arguments m =
          (if closure.isInitializer then receiverOf closure paren else pure v)
            { m₂ with current := m.current }) ∧
      ∀ v m₂, executeAll fuel closure.routine.body { m₁ with current := frame } =
          .ok (.returned v) m₂ → ∃ before x m₃, entries = before ++ [x] ∧ x.Returns v m₃ := by
  constructor
  · intro s s₁ source program haccept stmt hstmt fuel m flow m' hexecute
    have hfree := Stmt.returnFree_of_mem (faults_of_accept haccept) hstmt
    exact hfree.endsNormally fuel m flow m' hexecute
  · intro fuel closure paren arguments m
    obtain ⟨frame, m₁, hframe, hcurrent⟩ :=
      exists_callFrame closure.frame closure.routine.parameters arguments m
    obtain ⟨entries, hlog, hends⟩ :=
      (logsReturns fuel).executeAll closure.routine.body { m₁ with current := frame } []
    refine ⟨frame, m₁, entries, hframe, hlog, ?_, ?_⟩
    · intro before x after v m₂ heq hx
      obtain ⟨hafter, inner, hbody⟩ := hends.last before x after v m₂ heq hx
      have hinvoke := @invoke_of_returned fuel closure paren arguments m m₁ _ frame v hframe hbody
      rw [hcurrent] at hinvoke
      exact ⟨hafter, hinvoke⟩
    · intro v m₂ hbody
      obtain ⟨before, x, m₃, heq, hx, -⟩ := hends.exists_return v m₂ hbody
      exact ⟨before, x, m₃, heq, hx⟩

/-- A function that returns from inside a loop, when the increment was executed once. -/
def loopText : String :=
  "fun f(a) \x7b for (;; a = true) if (a) return a; print a; \x7d f(false);"

def loopRoutine : Routine :=
  ⟨⟨.identifier, "f", 1⟩, [⟨.identifier, "a", 1⟩],
    [.while (.literal (.boolean true)) (.block
      [.if (.variable ⟨2, ⟨.identifier, "a", 1⟩⟩) (.return ⟨.keyword .return, "return", 1⟩
          (some (.variable ⟨3, ⟨.identifier, "a", 1⟩⟩))) none,
        .expression (.assign ⟨1, ⟨.identifier, "a", 1⟩⟩ (.literal (.boolean true)))]),
      .print (.variable ⟨4, ⟨.identifier, "a", 1⟩⟩)]⟩

def loopProgram : List Stmt :=
  [.function loopRoutine,
    .expression (.call (.variable ⟨5, ⟨.identifier, "f", 1⟩⟩) ⟨.symbol .rightParen, ")", 1⟩
      [.literal (.boolean false)])]

set_option maxRecDepth 100000 in
theorem parse_loopText : Source.parse loopText 0 = ⟨loopProgram, [], 6, true⟩ := by
  cbv

theorem accept_loopText : (initial .unbounded fun _ => 0).accept loopText =
    (.ok loopProgram,
      ⟨(Machine.initial .unbounded fun _ => 0).record (analyse loopProgram), 6⟩) :=
  accept_of_parse parse_loopText rfl

/-- The call of the function in this text ends at the `return`, in the second round of the loop. -/
theorem returns_end_call_loopText : ∃ s s₁ stmt m m' paren frame m₁ before x m₂,
    accept s loopText = (.ok loopProgram, s₁) ∧ stmt ∈ loopProgram ∧
      execute 10 stmt m = .ok .normal m' ∧
      callFrame globals loopRoutine.parameters [.boolean false] m = .ok frame m₁ ∧
      Logging.executeAll 10 loopRoutine.body ({ m₁ with current := frame }, []) =
        Ended.withLog (before ++ [x])
          (executeAll 10 loopRoutine.body { m₁ with current := frame }) ∧
      x.Returns (.boolean true) m₂ ∧
      invoke 11 ⟨loopRoutine, globals, false⟩ paren [.boolean false] m =
        .ok (.boolean true) { m₂ with current := m.current } := by
  obtain ⟨hnormal, hcalls⟩ := returns_end_call
  have hstmt : .function loopRoutine ∈ loopProgram := .head _
  have hexecute : ∃ flow m', execute 10 (.function loopRoutine)
      ((Machine.initial .unbounded fun _ => 0).record (analyse loopProgram)) = .ok flow m' :=
    ⟨_, _, rfl⟩
  obtain ⟨flow, m', hexecute⟩ := hexecute
  obtain rfl := hnormal _ _ _ _ accept_loopText _ hstmt _ _ _ _ hexecute
  obtain ⟨frame, m₁, entries, hframe, hlog, hlast, hreturn⟩ :=
    hcalls 10 ⟨loopRoutine, globals, false⟩ ⟨.symbol .rightParen, ")", 1⟩ [.boolean false]
      ((Machine.initial .unbounded fun _ => 0).record (analyse loopProgram))
  have hbody : ∃ m₂, executeAll 10 loopRoutine.body { m₁ with current := frame } =
      .ok (.returned (.boolean true)) m₂ := by
    cases hframe
    exact ⟨_, rfl⟩
  obtain ⟨m₂, hbody⟩ := hbody
  obtain ⟨before, x, m₃, rfl, hx⟩ := hreturn _ _ hbody
  obtain ⟨-, hinvoke⟩ := hlast before x [] _ _ rfl hx
  exact ⟨_, _, _, _, m', _, frame, m₁, before, x, m₃, accept_loopText, hstmt, hexecute, hframe,
    hlog, hx, hinvoke⟩

end Treewalk.Session
