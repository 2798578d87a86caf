import Mathlib
import Treewalk.Proofs.Session.InStep
import Treewalk.Session.Override

/-!
# Running a program again

A program that does not read the clock does the same whenever it is run again on the machine that
its last run left. The frames, objects and stamps of the runs before are beside those of the new
run, and what these runs left among the globals is not seen: the new run defines a global again
before it uses it, or else the first run failed at this use.

## Main definitions

* `Respelling.clockless`, `Setting.again` — a first run and a later one
* `Session.Spent` — a machine on which the program has run before

## Main results

* `Session.Spent.run` — a run on such a machine ends and writes as the first one
* `Session.runRepeatedly_eq_replicate` — the runs of a program are all alike
-/

namespace Treewalk

/-- No name is replaced, and any name but that of the clock may be used. -/
def Respelling.clockless : Respelling := ⟨"", "", (· = "clock"), by decide, by decide⟩

theorem Respelling.fair_clockless : clockless.Fair :=
  ⟨by decide, by decide, fun h => absurd rfl h, fun h => absurd rfl h⟩

/-- A run on a fresh machine, and one on a machine `m` whose globals hold the names `stale`. -/
def Setting.again (fresh m : Machine) (stale : String → Prop) : Setting where
  toRespelling := .clockless
  lines := fun _ => 0
  frames := m.store.frames.size - 1
  objects := m.store.objects.size
  stamps := m.nextStamp
  stale := stale
  before := fresh.sink.written
  before' := m.sink.written

namespace Session

/-- The machine `m` is one on which the program of the session has run before. Its globals hold
nothing but the clock and the given names. -/
structure Spent (s : Session) (names : String → Prop) (m : Machine) : Prop where
  current_eq : m.current = globals
  depths_eq : m.depths = s.machine.depths
  limit_eq : m.sink.limit = s.machine.sink.limit
  flushFails_eq : m.sink.flushFails = s.machine.sink.flushFails
  globals_lt : globals < m.store.frames.size
  enclosing?_globals : m.store.enclosing? globals = none
  bound : ∀ name, (m.store.local? globals name).isSome → name = "clock" ∨ names name

variable {s : Session} {source : String} {program : List Stmt} {fuel : Nat} {sink : Sink}
  {reading : Nat → Float} {m : Machine} {names : String → Prop}

theorem admits_clockless {name : String} (hclock : "clock" ∉ Source.identifiers source)
    (h : name ∈ Source.identifiers source) : Respelling.clockless.Admits name :=
  ⟨Source.ne_spelling_of_mem_identifiers h .this, Source.ne_spelling_of_mem_identifiers h .super,
    fun hne => absurd rfl hne, fun hused => hclock (hused ▸ h)⟩

/-- Before the first run nothing but the clock is among the globals. -/
theorem Takes.spent (h : (initial sink reading).Takes source program s) (names : String → Prop) :
    s.Spent names s.machine := by
  have hmachine := h.machine_eq
  refine ⟨h.ready.current_eq, rfl, rfl, rfl, ?_, ?_, fun name hname => .inl ?_⟩
  · rw [hmachine]
    exact Nat.one_pos
  · rw [hmachine]
    rfl
  · rw [hmachine] at hname
    have hname : ((Machine.initial sink reading).store.local? globals name).isSome := hname
    rw [Machine.local?_initial] at hname
    by_contra hne
    rw [if_neg fun h => hne h.2] at hname
    cases hname

/-- A fresh session and one whose machine the program has run on before. -/
theorem Takes.inStep {R : Place → Moment → Prop} (h : (initial sink reading).Takes source program s)
    (hlimit : sink.limit = none) (hm : s.Spent names m) :
    InStep R (.again s.machine m names) 0 s { s with machine := m } := by
  have hmachine := h.machine_eq
  have hstore : s.machine.store = (Machine.initial sink reading).store := by
    rw [hmachine]
    rfl
  have hstamp : s.machine.nextStamp = 0 := by
    rw [hmachine]
    rfl
  have hroom : s.machine.sink.limit = none := by
    rw [hmachine]
    exact hlimit
  have hsinks : (Setting.again s.machine m names).SinksTwin s.machine.sink m.sink :=
    ⟨hm.limit_eq, hm.flushFails_eq, ⟨.empty, (ByteArray.append_empty).symm,
      (ByteArray.append_empty).symm⟩, .inl hroom⟩
  have hframes : m.store.frames.size = 1 + (m.store.frames.size - 1) :=
    (Nat.add_sub_cancel' hm.globals_lt).symm
  have hlocals : ∀ name, name ≠ "clock" → Value.LocalTwin R (.again s.machine m names)
      (s.beside { s with machine := m } 0) globals name (s.machine.store.local? globals name)
      (m.store.local? globals name) := by
    intro name hname
    rw [hstore, Machine.local?_initial, if_neg fun h => hname h.2]
    cases hlocal : m.store.local? globals name with
    | none => exact .unbound
    | some v => exact .stale rfl ((hm.bound name (by rw [hlocal]; rfl)).resolve_left hname)
  have hsound : (s.beside { s with machine := m } 0).Sound R (.again s.machine m names) :=
    Pair.sound_fresh hstore h.ready.current_eq hm.current_eq hstamp rfl hframes rfl
      hm.enclosing?_globals hsinks (fun hused => absurd rfl hused) hlocals fun _ => rfl
  refine ⟨hsound, h.ready, hm.current_eq, fun id hid => ?_⟩
  show m.depths.depth? id = none
  rw [hm.depths_eq]
  exact h.ready.depth?_eq_none id hid

/-- The names that the globals hold after the first run. -/
def namesAfter (s : Session) (fuel : Nat) (program : List Stmt) (name : String) : Prop :=
  ((s.machine.run fuel program).2.store.local? globals name).isSome

/-- A run on a machine on which the program has run before ends as the first one and writes the
same, if the globals hold nothing beforehand that they do not hold after the first run. -/
theorem Takes.run_of_spent (h : (initial sink reading).Takes source program s)
    (hclock : "clock" ∉ Source.identifiers source) (hlimit : sink.limit = none)
    (hm : s.Spent (s.namesAfter fuel program) m) :
    (m.run fuel program).1 = (s.machine.run fuel program).1 ∧
      (m.run fuel program).2.outputFrom m.sink.written.size =
        (s.machine.run fuel program).2.outputFrom s.machine.sink.written.size ∧
      s.Spent (s.namesAfter fuel program) (m.run fuel program).2 := by
  have hstep := h.inStep (R := fun _ _ => True) hlimit hm
  have htwin : Stmt.TwinAll ⟨.clockless, 0⟩ (Paired ⟨.clockless, 0⟩) .top [] program program :=
    h.twinAll rfl rfl Respelling.fair_clockless (fun _ => admits_clockless hclock) h
  have hids : ({ s with machine := m } : Session).ids = s.ids := by rw [ids, ids, hm.depths_eq]
  have hlinked : Stmt.TwinAll ⟨.clockless, 0⟩ (Linked ⟨.clockless, 0⟩ s.ids
      ({ s with machine := m } : Session).ids) .top [] program program := by
    rw [hids]
    exact h.linked Respelling.fair_clockless h htwin
  have hrun := hstep.interpret fuel hlinked (.root trivial)
  -- whatever the globals hold beforehand is bound when the first run ends
  obtain ⟨p, hk, hleft, hright, houtcome⟩ := hrun.outcome fun _ hname => hname
  have hleft : (s.machine.run fuel program).2 = p.left := hleft
  have hright : (m.run fuel program).2 = p.right := hright
  have hsound := hk.sound
  refine ⟨houtcome.eq fun _ => rfl, ?_, ?_⟩
  · obtain ⟨output, hwritten, hwritten'⟩ := hsound.sinks.written
    rw [hleft, hright]
    exact (outputFrom_eq hwritten').trans (outputFrom_eq hwritten).symm
  · have hready := (hstep.of_kept rfl hk).right
    rw [hright]
    refine ⟨hready.current_eq, ?_, ?_, ?_, hsound.globals_lt_right, hsound.enclosing?_globals_right,
      fun name hbound => ?_⟩
    · exact (congrArg Numbering.table hk.rightIds_eq).trans hm.depths_eq
    · exact hsound.sinks.limit_eq.trans hk.sink_extends.limit_eq
    · exact hsound.sinks.flushFails_eq.trans hk.sink_extends.flushFails_eq
    · by_cases hname : name = "clock"
      · exact .inl hname
      refine .inr ?_
      have hlocal := hsound.locals globals name name hname
        (hsound.marked_globals ▸ Respelling.spells_refl _ name)
      rw [Setting.frame_globals] at hlocal
      rw [namesAfter, hleft]
      generalize hv : p.left.store.local? globals name = o at hlocal
      generalize p.right.store.local? globals name = o' at hlocal hbound
      cases hlocal with
      | bound => rfl
      | unbound => cases hbound
      | stale _ hstale =>
        rw [← hv, ← hleft]
        exact hstale

theorem Takes.runRepeatedly_of_spent (h : (initial sink reading).Takes source program s)
    (hclock : "clock" ∉ Source.identifiers source) (hlimit : sink.limit = none)
    (hm : s.Spent (s.namesAfter fuel program) m) (times : Nat) :
    m.runRepeatedly fuel program times = List.replicate times ((s.machine.run fuel program).1,
      (s.machine.run fuel program).2.outputFrom s.machine.sink.written.size) := by
  induction times generalizing m with
  | zero => rfl
  | succ times ih =>
    obtain ⟨houtcome, houtput, hspent⟩ := h.run_of_spent hclock hlimit hm
    rw [Machine.runRepeatedly]
    dsimp only
    rw [houtcome, houtput, ih hspent, List.replicate_succ]

/-- The table is the same after any number of runs. -/
theorem Takes.depths_iterate (h : (initial sink reading).Takes source program s)
    (hclock : "clock" ∉ Source.identifiers source) (hlimit : sink.limit = none)
    (hm : s.Spent (s.namesAfter fuel program) m) (times : Nat) :
    ((fun m : Machine => (m.run fuel program).2)^[times] m).depths = s.machine.depths := by
  induction times generalizing m with
  | zero => exact hm.depths_eq
  | succ times ih => exact ih (h.run_of_spent hclock hlimit hm).2.2

/-- **Running a program again.** If an accepted text does not mention the clock and its program is
run any number of times on one machine, then each run ends in the same way as the first one and
writes the same, and none of them changes the depth table. -/
theorem runRepeatedly_eq_replicate (sink : Sink) (reading : Nat → Float) (source : String)
    (program : List Stmt) (s : Session) (fuel times : Nat)
    (haccept : (initial sink reading).accept source = (.ok program, s))
    (hclock : "clock" ∉ Source.identifiers source) (hlimit : sink.limit = none) :
    s.machine.runRepeatedly fuel program times =
        List.replicate times ((s.machine.run fuel program).1,
          (s.machine.run fuel program).2.outputFrom s.machine.sink.written.size) ∧
      ((fun m : Machine => (m.run fuel program).2)^[times] s.machine).depths = s.machine.depths :=
  have htakes := takes_of_accept (ready_initial sink reading) haccept
  ⟨htakes.runRepeatedly_of_spent hclock hlimit (htakes.spent _) times,
    htakes.depths_iterate hclock hlimit (htakes.spent _) times⟩

/-- A program that reads a global and then changes it, through a function. -/
def globalText : String := "var a = \"x\"; fun f() \x7b print a; a = nil; \x7d f();"

def globalProgram : List Stmt :=
  [.var ⟨.identifier, "a", 1⟩ (some (.literal (.string "x"))),
    .function ⟨⟨.identifier, "f", 1⟩, [], [.print (.variable ⟨0, ⟨.identifier, "a", 1⟩⟩),
      .expression (.assign ⟨2, ⟨.identifier, "a", 1⟩⟩ (.literal .nil))]⟩,
    .expression (.call (.variable ⟨3, ⟨.identifier, "f", 1⟩⟩) ⟨.symbol .rightParen, ")", 1⟩ [])]

set_option maxRecDepth 100000 in
theorem parse_globalText : Source.parse globalText 0 = ⟨globalProgram, [], 4, true⟩ := by
  cbv

theorem accept_globalText : (initial .unbounded fun _ => 0).accept globalText =
    (.ok globalProgram,
      ⟨(Machine.initial .unbounded fun _ => 0).record (analyse globalProgram), 4⟩) :=
  accept_of_parse parse_globalText rfl

/-- The second run finds the global that the first one left, and defines it again before it reads
it. -/
theorem runRepeatedly_globalText :
    ((Machine.initial .unbounded fun _ => 0).record (analyse globalProgram)).runRepeatedly 20
      globalProgram 2 = List.replicate 2 (.success, "x\n".toUTF8) := by
  have hclock : "clock" ∉ Source.identifiers globalText := by decide +kernel
  have hruns := (runRepeatedly_eq_replicate .unbounded (fun _ => 0) globalText globalProgram _ 20 2
    accept_globalText hclock rfl).1
  rw [hruns]
  rfl

end Session

end Treewalk
