import Treewalk.Session.Basic
import Treewalk.Tree.Uses

/-!
# Running past the checks

A program can be run although scope analysis rejects it, or was left out, and with depths that scope
analysis did not record. What such a run shows is how the machine behaves on depth tables that no
accepted program has.

## Main definitions

* `Override` — a depth for one use of a program
* `Session.overrideDepths`
* `Machine.runRepeatedly` — several runs of one program on one machine
-/

namespace Treewalk

/-- A depth for the use that is `index`-th among the occurrences of a program. -/
structure Override where
  index : Nat
  depth : Nat

/-- Records an overriding depth; an index beyond the occurrences has no effect. -/
def DepthTable.override (occurrences : Array Occurrence) (table : DepthTable) (o : Override) :
    DepthTable :=
  match occurrences[o.index]? with
  | some occurrence => table.record occurrence.use.id o.depth
  | none => table

/-- Replaces recorded depths, one override after the other. -/
def Session.overrideDepths (s : Session) (program : List Stmt) (overrides : List Override) :
    Session :=
  let occurrences := (Stmt.occurrencesAll program).toArray
  let depths := overrides.foldl (DepthTable.override occurrences) s.machine.depths
  { s with machine := { s.machine with depths } }

/-- Runs a program `times` times: how each run ended, and what it wrote. -/
def Machine.runRepeatedly (m : Machine) (fuel : Nat) (program : List Stmt) :
    (times : Nat) → List (Outcome × ByteArray)
  | 0 => []
  | times + 1 =>
    let start := m.sink.written.size
    let (outcome, m) := m.run fuel program
    (outcome, m.outputFrom start) :: m.runRepeatedly fuel program times

end Treewalk
