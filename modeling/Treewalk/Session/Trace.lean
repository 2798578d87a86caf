import Treewalk.Session.Basic

/-!
# Traces

A trace runs a program one top-level statement after the other and tells how each of them ended. Of
an expression statement it tells the value.

## Main definitions

* `Step` — how one statement ended, and what it wrote
* `Session.trace`
-/

namespace Treewalk

/-- How a traced statement ended. -/
inductive StepResult
  | value (value : Value)
  | flow (flow : Flow)
  | fault (diagnostic : Diagnostic)
  | exhausted

def StepResult.isHalt : StepResult → Bool
  | fault _ | exhausted => true
  | _ => false

structure Step where
  result : StepResult
  output : ByteArray

/-- Evaluates an expression statement, and executes any other. -/
def stepOf (fuel : Nat) : Stmt → Eval StepResult
  | .expression value => .value <$> Eval.evaluate fuel value
  | stmt => .flow <$> Eval.execute fuel stmt

/-- Runs one statement and tells how it ended. -/
def Machine.step (m : Machine) (fuel : Nat) (stmt : Stmt) : Step × Machine :=
  let start := m.sink.written.size
  match stepOf fuel stmt m with
  | .ok result m => (⟨result, m.outputFrom start⟩, m)
  | .error (.fault diagnostic) m => (⟨.fault diagnostic, m.outputFrom start⟩, m)
  | .error .exhausted m => (⟨.exhausted, m.outputFrom start⟩, m)

/-- Runs statements in order, up to the first that halts unless `keepGoing` is set. -/
def Machine.trace (m : Machine) (fuel : Nat) (keepGoing : Bool) : List Stmt → List Step
  | [] => []
  | stmt :: rest =>
    let (step, m) := m.step fuel stmt
    if step.result.isHalt && !keepGoing then [step] else step :: m.trace fuel keepGoing rest

end Treewalk
