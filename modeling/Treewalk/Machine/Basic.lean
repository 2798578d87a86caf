import Treewalk.Machine.Sink
import Treewalk.Scope.Depths
import Treewalk.Value.Store

/-!
# The machine

The state of evaluation and the computations on it. A computation either gives a result or halts,
at a fault or because its fuel is used up; the state it leaves is known in both cases.

## Main definitions

* `Machine`, `Machine.initial`
* `Halt`, `Eval`
* `Eval.inFrame` — evaluates in another frame and comes back, whatever happens
* `Eval.lookUp`, `Eval.assign`, `Eval.printLine`, `Eval.newInstance`, … — the steps of evaluation

## Implementation notes

The clock is a sequence of readings, fixed before evaluation starts, of which each call of `clock`
takes the next one. Evaluation is then a function of the machine alone.
-/

namespace Treewalk

/-- Readings of a clock in seconds, and how many were taken. -/
structure Clock where
  reading : Nat → Float
  taken : Nat

structure Machine where
  store : Store
  current : FrameId
  depths : DepthTable
  sink : Sink
  clock : Clock
  nextStamp : Stamp

/-- The frame of the globals. -/
def globals : FrameId := 0

/-- The machine before any program ran: the globals hold `clock` and nothing else. -/
def Machine.initial (sink : Sink) (reading : Nat → Float) : Machine :=
  let (frame, store) := Store.empty.newFrame none
  { store := store.define frame "clock" (.native .clock)
    current := frame
    depths := .empty
    sink := sink
    clock := ⟨reading, 0⟩
    nextStamp := 0 }

theorem Machine.local?_initial (sink : Sink) (reading : Nat → Float) (frame : FrameId)
    (name : String) : (initial sink reading).store.local? frame name =
      if frame = globals ∧ name = "clock" then some (.native .clock) else none := by
  show ((Store.empty.newFrame none).2.define globals "clock" (.native .clock)).local? frame name = _
  rw [Store.local?_define, Store.local?_newFrame]
  by_cases h : frame = globals ∧ name = "clock"
  · have hlt : globals < (Store.empty.newFrame none).2.frames.size := Nat.one_pos
    rw [if_pos h, if_pos ⟨h.1, h.2, hlt⟩]
  · rw [if_neg h, if_neg fun h' => h ⟨h'.1, h'.2.1⟩]
    rfl

/-- Why an evaluation gives no result. -/
inductive Halt
  | fault (diagnostic : Diagnostic)
  | exhausted

abbrev Eval := EStateM Halt Machine

namespace Eval

/-! ### Faults -/

/-- Halts at a fault reported at the line of a token. -/
def fail (anchor : Token) (cause : RuntimeFault) : Eval α :=
  throw (.fault (.runtime anchor.line cause))

def orFail : Except Diagnostic α → Eval α
  | .ok a => return a
  | .error diagnostic => throw (.fault diagnostic)

/-! ### Frames and variables -/

/-- Evaluates in `frame`. The frame that was current before is current again afterwards, also when
the evaluation halts. -/
def inFrame (frame : FrameId) (body : Eval α) : Eval α := fun m =>
  let caller := m.current
  match body { m with current := frame } with
  | .ok a m => .ok a { m with current := caller }
  | .error halt m => .error halt { m with current := caller }

/-- Adds an empty frame inside `enclosing`. -/
def newFrame (enclosing : FrameId) : Eval FrameId :=
  modifyGet fun m =>
    let (frame, store) := m.store.newFrame (some enclosing)
    (frame, { m with store })

def defineIn (frame : FrameId) (name : String) (value : Value) : Eval Unit :=
  modify fun m => { m with store := m.store.define frame name value }

/-- Binds names in a frame, in order. -/
def defineAllIn (frame : FrameId) (bindings : List (String × Value)) : Eval Unit :=
  modify fun m => { m with store := m.store.defineAll frame bindings }

/-- Binds a name in the current frame. -/
def define (name : String) (value : Value) : Eval Unit := do
  defineIn (← get).current name value

/-- The value of a name: in the frame its recorded depth tells, or among the globals. -/
def lookUp (use : Use) : Eval Value := do
  let m ← get
  match m.depths.depth? use.id with
  | some depth => orFail (m.store.getAt depth m.current use.token)
  | none => orFail (m.store.get globals use.token)

/-- The frame an assignment to a name writes to: the one `lookUp` reads it in. -/
def targetOf (use : Use) : Eval FrameId := do
  let m ← get
  match m.depths.depth? use.id with
  | some depth => orFail (m.store.targetAt depth m.current use.token)
  | none => orFail (m.store.target globals use.token)

def assign (use : Use) (value : Value) : Eval Unit := do
  defineIn (← targetOf use) use.name value

/-- Assigns to a name in the nearest frame, from the current one outwards, that binds it. -/
def assignNearest (name : Token) (value : Value) : Eval Unit := do
  let m ← get
  let target ← orFail (m.store.target m.current name)
  defineIn target name.lexeme value

/-! ### Values with an identity -/

def freshStamp : Eval Stamp :=
  modifyGet fun m => (m.nextStamp, { m with nextStamp := m.nextStamp + 1 })

def newFunction (closure : Closure) : Eval Value := do
  return .function (← freshStamp) closure

def newInstance (c : Class) : Eval Instance :=
  modifyGet fun m =>
    let (id, store) := m.store.newObject
    (⟨id, c⟩, { m with store })

/-- A method with `this` bound to an instance, in a frame of its own around the method. -/
def bindReceiver (method : Closure) (receiver : Instance) : Eval Closure := do
  let frame ← newFrame method.frame
  defineIn frame "this" (.instance receiver)
  return { method with frame }

/-- A field of an instance, or else a method of its class, bound to it. -/
def getProperty (receiver : Instance) (name : Token) : Eval Value := do
  match (← get).store.field? receiver.id name.lexeme with
  | some value => return value
  | none =>
    match receiver.class.findMethod? name.lexeme with
    | some method => newFunction (← bindReceiver method receiver)
    | none => fail name (.undefinedProperty name.lexeme)

def setProperty (receiver : Instance) (name : Token) (value : Value) : Eval Unit :=
  modify fun m => { m with store := m.store.setField receiver.id name.lexeme value }

/-! ### Clock and output -/

def readClock : Eval Value :=
  modifyGet fun m =>
    (.number (m.clock.reading m.clock.taken),
      { m with clock := { m.clock with taken := m.clock.taken + 1 } })

/-- Writes a line of output. What the sink has room for is written even if that is not all. -/
def printLine (text : String) : Eval Unit := do
  let fault? ← modifyGet fun m =>
    let (fault?, sink) := m.sink.write (text ++ "\n")
    (fault?, { m with sink })
  match fault? with
  | none => return ()
  | some fault => throw (.fault (.output fault))

def flushOutput : Eval Unit := do
  match (← get).sink.flush with
  | none => return ()
  | some fault => throw (.fault (.output fault))

end Eval

end Treewalk
