import Treewalk.Evaluation.Evaluate
import Treewalk.Grammar.Source
import Treewalk.Scope.Analysis

/-!
# Sessions

A session runs source texts one after the other on one machine, so that the globals a text defines
are there for the texts after it. A text is run only if nothing is wrong with it: a text with
lexical, grammar or scope faults is rejected as a whole.

## Main definitions

* `Session`, `Session.initial`
* `Outcome` — how running a text ends
* `Session.accept` — reads and checks a text
* `Session.run` — runs a text

## Implementation notes

Node numbers go on from text to text, whether a text is rejected or not. A number therefore never
stands for two uses, and what a rejected text left in the depth table is of no use to any other.
-/

namespace Treewalk

structure Session where
  machine : Machine
  nextId : NodeId

/-- How running a source text ends. -/
inductive Outcome
  | success
  | rejected (faults : List Diagnostic)
  | failed (fault : Diagnostic)
  | exhausted

namespace Outcome

def diagnostics : Outcome → List Diagnostic
  | rejected faults => faults
  | failed fault => [fault]
  | _ => []

/-- The exit status a run of a script ends with. -/
def exitCode : Outcome → Nat
  | success => 0
  | rejected _ => 65
  | failed _ => 70
  | exhausted => 70

/-- The texts of the diagnostics, one below the other. -/
def report (o : Outcome) : String := "\n".intercalate (o.diagnostics.map Diagnostic.text)

end Outcome

/-- The bytes a machine wrote after the first `start` ones. -/
def Machine.outputFrom (m : Machine) (start : Nat) : ByteArray :=
  m.sink.written.extract start m.sink.written.size

/-- How an evaluation ended, and the machine it left. -/
def outcomeOf : EStateM.Result Halt Machine α → Outcome × Machine
  | .ok _ m => (.success, m)
  | .error (.fault fault) m => (.failed fault, m)
  | .error .exhausted m => (.exhausted, m)

/-- Runs a checked program. -/
def Machine.run (m : Machine) (fuel : Nat) (program : List Stmt) : Outcome × Machine :=
  outcomeOf (Eval.interpret fuel program m)

/-- Takes over the depths that scope analysis found. -/
def Machine.record (m : Machine) (findings : List Finding) : Machine :=
  { m with depths := m.depths.recordAll findings }

namespace Session

def initial (sink : Sink) (reading : Nat → Float) : Session :=
  ⟨.initial sink reading, 0⟩

/-- Reads a source text, using up node numbers. -/
def read (s : Session) (source : String) : Except (List Diagnostic) (List Stmt) × Session :=
  let parsed := Source.parse source s.nextId
  (parsed.result, { s with nextId := parsed.nextId })

/-- Checks a program that was read, and records the depths of its uses. -/
def check (s : Session) (program : List Stmt) : List Diagnostic × Session :=
  let findings := analyse program
  (scopeFaults findings, { s with machine := s.machine.record findings })

/-- Reads and checks a source text: the program, or all that is wrong with it. -/
def accept (s : Session) (source : String) : Except (List Diagnostic) (List Stmt) × Session :=
  match s.read source with
  | (.error faults, s) => (.error faults, s)
  | (.ok program, s) =>
    match s.check program with
    | ([], s) => (.ok program, s)
    | (faults, s) => (.error faults, s)

/-- Runs a source text, unless something is wrong with it. -/
def run (s : Session) (fuel : Nat) (source : String) : Outcome × Session :=
  match s.accept source with
  | (.error faults, s) => (.rejected faults, s)
  | (.ok program, s) =>
    let (outcome, machine) := s.machine.run fuel program
    (outcome, { s with machine })

/-- Runs source texts in turn. -/
def runAll (s : Session) (fuel : Nat) : List String → List Outcome × Session
  | [] => ([], s)
  | source :: rest =>
    let (first, s) := s.run fuel source
    let (others, s) := s.runAll fuel rest
    (first :: others, s)

/-- The bytes written so far. -/
def output (s : Session) : ByteArray := s.machine.sink.written

end Session

end Treewalk
