import Mathlib
import Treewalk.Proofs.Evaluation.Initializers
import Treewalk.Proofs.Session.Situations

/-!
# Construction

Calling a class gives a new instance of it, whatever its initializer does. And whatever its body
returns, an initializer gives the instance it is bound to: it finds it in the frame it was bound in,
where no code can write it, whether it runs because a class is called, or is looked up in an
instance or in a superclass, and is called at once or much later.

## Main definitions

* `Situation.Since` — the situations of a run, and of the runs after it

## Main results

* `Session.construction_yields` — calls of classes give new instances, and initializers the
  instances they are bound to
-/

namespace Treewalk

open Eval

/-! ### Calls of classes -/

/-- Calling a class gives an instance of it, with the next number. -/
theorem Eval.eq_instance_of_call {fuel : Nat} {c : Class} {paren : Token} {arguments : List Value}
    {v : Value} {m m' : Machine} (h : call fuel (.class c) paren arguments m = .ok v m') :
    v = .instance ⟨m.store.objects.size, c⟩ := by
  cases fuel with
  | zero => cases h
  | succ fuel =>
    obtain ⟨m₁, hobject⟩ : ∃ m₁, newInstance c m = .ok ⟨m.store.objects.size, c⟩ m₁ := ⟨_, rfl⟩
    rw [call, checkArity] at h
    split at h
    · rw [pure_bind, bind_eq_of_ok hobject] at h
      cases hinitializer : c.initializer? with
      | none =>
        rw [hinitializer] at h
        cases h
        rfl
      | some initializer =>
        obtain ⟨bound, m₂, hbound⟩ : ∃ bound m₂, bindReceiver initializer
          ⟨m.store.objects.size, c⟩ m₁ = .ok bound m₂ := ⟨_, _, rfl⟩
        rw [hinitializer] at h
        dsimp only at h
        rw [bind_eq_of_ok hbound] at h
        cases hinvoke : invoke fuel bound paren arguments m₂ with
        | error halt m₃ =>
          rw [bind_eq_error hinvoke] at h
          cases h
        | ok w m₃ =>
          rw [bind_eq_of_ok hinvoke] at h
          cases h
          rfl
    · cases h

/-- An instance with the next number is new. -/
theorem Value.Within.equals_instance {m : Machine} {w : Value} (h : w.Within m) (c : Class) :
    w.equals (.instance ⟨m.store.objects.size, c⟩) = false ∧
      (Value.instance ⟨m.store.objects.size, c⟩).equals w = false := by
  cases w with
  | «instance» object =>
    have hlt : object.id < m.store.objects.size := Instance.Within.id_lt h
    exact ⟨beq_false_of_ne hlt.ne, beq_false_of_ne hlt.ne'⟩
  | _ => exact ⟨rfl, rfl⟩

/-! ### Programs read from texts -/

/-- No program can write `this`. -/
theorem Source.IsProgram.writesAll {program : List Stmt} (h : Source.IsProgram program) :
    Stmt.WritesAll Discipline.receiving.MayWrite program := by
  obtain ⟨source, firstId, hparse⟩ := h
  exact (Source.namedAll_of_parse (P := (· ≠ "this")) hparse fun _ hname =>
    Source.ne_spelling_of_mem_identifiers hname .this).writesAll

/-- A situation of the run of a program, or of a later run of a program that is read from a text. -/
inductive Situation.Since (fuel : Nat) (program : List Stmt) (m : Machine) (s : Situation) : Prop
  | same (h : s.OfRun fuel program m)
  | later {fuel' : Nat} {program' : List Stmt} {m' : Machine}
      (hlater : Machine.Later Source.IsProgram (Ended.machine (interpret fuel program m)) m')
      (hprogram : Source.IsProgram program') (h : s.OfRun fuel' program' m')

section Initializers

open Discipline

variable {fuel : Nat} {program : List Stmt} {m : Machine} {s : Situation} {closure : Closure}
  {receiver : Instance}

theorem Machine.Later.isReady {sink : Sink} {reading : Nat → Float}
    (h : Machine.Later Source.IsProgram (.initial sink reading) m) : m.IsReady :=
  (h.leads (D := receiving) (fun _ => Source.IsProgram.writesAll) (.initial sink reading)).sound

/-- The classes of a value have the methods they should have. -/
theorem Value.IsReady.hasMethods {v : Value} {c : Class} (hv : v.IsReady m) (h : v.HasClass c) :
    c.HasMethods := by
  induction h with
  | «class» | «instance» => exact hv
  | superclass _ hd ih =>
    intro layer hlayer
    refine ih hv layer ?_
    rw [Class.layers_of_superclass? hd]
    exact .tail _ hlayer

theorem Discipline.HoldsIn.hasMethods {state : State} {c : Class} (hs : receiving.HoldsIn state)
    (h : state.HasClass c) : c.HasMethods := by
  obtain ⟨v, hv, hc⟩ := h
  refine Value.IsReady.hasMethods (m := state.machine) ?_ hc
  cases hv with
  | used hv => exact hs.values v hv
  | «local» hv => exact Machine.IsReady.locals hs.machine _ _ _ hv
  | field hv => exact Machine.IsReady.fields hs.machine _ _ _ hv

/-- In a run, and from run to run, an initializer stays bound to the instance it was bound to. -/
theorem Situation.Since.eq_receiver {s' : Situation} {receiver' : Instance} (hm : m.IsReady)
    (hprogram : Source.IsProgram program) (hs : s.OfRun fuel program m)
    (hbound : closure.IsBound s.after.machine receiver) (h : s'.Since fuel program m)
    (hbound' : closure.IsBound s'.before.machine receiver') : receiver' = receiver := by
  have hend := hbound.mono (hs.grows_outcome (D := receiving) hm hprogram.writesAll)
  cases h with
  | same h =>
    -- both are still bound at the end of the run
    have hholds := (h.keeps (D := receiving) hm hprogram.writesAll).1
    have hafter := hbound'.mono hholds.outcome.1.grows
    exact (hafter.mono (h.grows_outcome (D := receiving) hm hprogram.writesAll)).unique hend
  | later hlater hprogram' h =>
    have hready := (Keeps.interpret (D := receiving) fuel m hprogram.writesAll hm).leads.sound
    have hleads := hlater.leads (D := receiving) (fun _ => Source.IsProgram.writesAll) hready
    have hgrows := (h.keeps (D := receiving) hleads.sound hprogram'.writesAll).2
    exact hbound'.unique ((hend.mono hleads.grows).mono hgrows)

theorem Situation.Since.holds (hm : m.IsReady) (hprogram : Source.IsProgram program)
    (h : s.Since fuel program m) : receiving.Holds s := by
  cases h with
  | same h => exact (h.keeps (D := receiving) hm hprogram.writesAll).1
  | later hlater hprogram' h =>
    have hready := (Keeps.interpret (D := receiving) fuel m hprogram.writesAll hm).leads.sound
    have hleads := hlater.leads (D := receiving) (fun _ => Source.IsProgram.writesAll) hready
    exact (h.keeps (D := receiving) hleads.sound hprogram'.writesAll).1

/-- An initializer that is run is bound to an instance, and gives it if it comes to an end. -/
theorem Situation.gives_of_holds {fuel' : Nat} {paren : Token} {arguments : List Value}
    {m' : Machine} (hs : receiving.Holds s)
    (hmoment : s.moment = .invoke fuel' closure paren arguments m')
    (hinitializer : closure.isInitializer) :
    ∃ receiver, closure.IsBound m' receiver ∧
      ∀ v m'', invoke fuel' closure paren arguments m' = .ok v m'' → v = .instance receiver := by
  obtain ⟨held, moment⟩ := s
  obtain rfl : moment = _ := hmoment
  have hclosure : closure.IsReady m' := hs.closures _ (.head _)
  obtain ⟨receiver, hbound⟩ := hclosure.exists_isBound hinitializer
  refine ⟨receiver, hbound, fun v m'' h => ?_⟩
  exact ((keeps_invoke fuel' paren hclosure hs.values hinitializer hbound).of_ok hs.machine h).2.2

end Initializers

/-- In the run of a program, and in later runs, initializers give the instances they are bound
to. -/
structure InitializersGive (fuel : Nat) (program : List Stmt) (m : Machine) : Prop where
  /-- Just the methods named `init` are initializers. -/
  isInitializer_iff : ∀ s : Situation, s.OfRun fuel program m → ∀ c,
    s.before.HasClass c ∨ s.after.HasClass c → ∀ name method, c.findMethod? name = some method →
      (method.isInitializer ↔ name = "init")
  /-- An initializer that is run is bound to an instance, which it gives if it comes to an end. -/
  gives : ∀ s : Situation, s.OfRun fuel program m → ∀ fuel' closure paren arguments m',
    s.moment = .invoke fuel' closure paren arguments m' → closure.isInitializer →
      ∃ receiver, closure.IsBound m' receiver ∧
        ∀ v m'', invoke fuel' closure paren arguments m' = .ok v m'' → v = .instance receiver
  /-- Whenever a method named `init` is bound, it is bound to the receiver. -/
  isBound : ∀ (s : Situation) closure receiver, s.OfRun fuel program m →
    s.BindsInit closure receiver →
      closure.isInitializer ∧ closure.IsBound s.after.machine receiver
  /-- Whenever it is run after that, it gives this receiver. -/
  gives_receiver : ∀ (s s' : Situation) closure receiver, s.OfRun fuel program m →
    s.BindsInit closure receiver → s'.Since fuel program m → ∀ fuel' paren arguments m' v m'',
      s'.moment = .invoke fuel' closure paren arguments m' →
      invoke fuel' closure paren arguments m' = .ok v m'' → v = .instance receiver

theorem Source.IsProgram.initializersGive {program : List Stmt}
    (hprogram : Source.IsProgram program) {m : Machine} (hm : m.IsReady) (fuel : Nat) :
    InitializersGive fuel program m where
  isInitializer_iff s hs c hc name method hmethod := by
    have hholds := (hs.keeps (D := .receiving) hm hprogram.writesAll).1
    have hmethods : c.HasMethods := by
      cases hc with
      | inl hc => exact Discipline.HoldsIn.hasMethods hholds.before hc
      | inr hc => exact Discipline.HoldsIn.hasMethods hholds.after hc
    exact (hmethods.isMethod hmethod).isInitializer_iff
  gives s hs fuel' closure paren arguments m' hmoment hinitializer := by
    have hholds := (hs.keeps (D := .receiving) hm hprogram.writesAll).1
    exact Situation.gives_of_holds hholds hmoment hinitializer
  isBound s closure receiver hs hbinds :=
    hbinds.isBound (hs.keeps (D := .receiving) hm hprogram.writesAll).1
  gives_receiver s s' closure receiver hs hbinds hs' fuel' paren arguments m' v m'' hmoment h := by
    obtain ⟨hinitializer, hbound⟩ :=
      hbinds.isBound (hs.keeps (D := .receiving) hm hprogram.writesAll).1
    obtain ⟨receiver', hbound', hgives⟩ :=
      Situation.gives_of_holds (hs'.holds hm hprogram) hmoment hinitializer
    have hmachine : s'.before.machine = m' := congrArg Moment.machine hmoment
    rw [← hmachine] at hbound'
    rw [hgives v m'' h, hs'.eq_receiver hm hprogram hs hbound hbound']

namespace Session

/-- **Construction gives the new instance, and an initializer its receiver.** In all that a machine
comes to, whatever the programs are and whatever its depth tables say, a call of a class that comes
to an end gives an instance of just this class, with a number that was not given out before the
call, and equal to no value that was there before.

In the runs of programs that are read from texts, accepted or not, on any machine on which such
programs have run before with any depth tables, just the methods named `init` are initializers. An
initializer that is run is bound to an instance, and this is what running it gives if it comes to an
end. Where it was bound, by a call of a class, by a look-up in an instance or in a superclass, it
was bound to the receiver there; and whenever it is run after that, in the same run or in a later
one, it gives this receiver. All sessions are among these. -/
theorem construction_yields :
    (∀ s : Situation, s.IsReached → ∀ fuel c paren arguments m v m',
      s.moment = .call fuel (.class c) paren arguments m →
      call fuel (.class c) paren arguments m = .ok v m' →
      ∃ object, v = .instance object ∧ object.class = c ∧ object.id = m.store.objects.size ∧
        ∀ w, s.before.HasValue w → w.equals v = false ∧ v.equals w = false) ∧
    (∀ sink reading m, Machine.Later Source.IsProgram (.initial sink reading) m →
      ∀ fuel program, Source.IsProgram program → InitializersGive fuel program m) ∧
    ∀ sink reading fuel before source program s₁,
      ((initial sink reading).runAll fuel before).2.accept source = (.ok program, s₁) →
      Machine.Later Source.IsProgram (.initial sink reading) s₁.machine ∧
        Source.IsProgram program := by
  refine ⟨?_, ?_, ?_⟩
  · intro s hs fuel c paren arguments m v m' hmoment h
    refine ⟨_, eq_instance_of_call h, rfl, rfl, fun w hw => ?_⟩
    have hmachine : s.before.machine = m := congrArg Moment.machine hmoment
    have hwithin := hs.before.founded.within hw
    rw [hmachine] at hwithin
    rw [eq_instance_of_call h]
    exact hwithin.equals_instance c
  · intro sink reading m hm fuel program hprogram
    exact hprogram.initializersGive hm.isReady fuel
  · intro sink reading fuel before source program s₁ haccept
    refine ⟨?_, isProgram_of_accept haccept⟩
    have hlater := (later_runAll (initial sink reading) fuel before).trans (later_accept _ source)
    rwa [haccept] at hlater

/-- An initializer that returns another value, which scope analysis rejects, and which is called
after it was looked up. -/
def returningText : String :=
  "class A \x7b init() \x7b return true; \x7d \x7d var f = A().init; f();"

def returningInitializer : Routine :=
  ⟨⟨.identifier, "init", 1⟩, [],
    [.return ⟨.keyword .return, "return", 1⟩ (some (.literal (.boolean true)))]⟩

def returningCall (id : NodeId) (name : String) : Expr :=
  .call (.variable ⟨id, ⟨.identifier, name, 1⟩⟩) ⟨.symbol .rightParen, ")", 1⟩ []

def returningProgram : List Stmt :=
  [.class ⟨.identifier, "A", 1⟩ none [returningInitializer],
    .var ⟨.identifier, "f", 1⟩ (some (.property (returningCall 0 "A") ⟨.identifier, "init", 1⟩)),
    .expression (returningCall 1 "f")]

set_option maxRecDepth 100000 in
theorem parse_returningText : Source.parse returningText 0 = ⟨returningProgram, [], 2, true⟩ := by
  cbv

def returningMethod : Closure := ⟨returningInitializer, globals, true⟩

def returningClass : Class := ⟨⟨0, "A", .ofList [("init", returningMethod)]⟩, []⟩

def returningObject : Instance := ⟨0, returningClass⟩

/-- The initializer, bound to the instance when it was looked up. -/
def returningBound : Closure := { returningMethod with frame := 3 }

/-- The machine after the declaration of the class. -/
def returningDeclared : Machine :=
  { Machine.initial .unbounded fun _ => 0 with
    store := ⟨#[⟨.ofList [("clock", .native .clock), ("A", .class returningClass)], none⟩], #[]⟩
    nextStamp := 1 }

/-- The machine after the initializer was looked up and kept. -/
def returningKept : Machine :=
  { returningDeclared with
    store := ⟨#[⟨.ofList [("clock", .native .clock), ("A", .class returningClass),
        ("f", .function 1 returningBound)], none⟩,
      ⟨.ofList [("this", .instance returningObject)], some 0⟩, ⟨.empty, some 1⟩,
      ⟨.ofList [("this", .instance returningObject)], some 0⟩], #[.empty]⟩
    nextStamp := 2 }

/-- The instance is new when the class is called, and the initializer that was looked up in it gives
it, although its body returns another value. -/
theorem construction_yields_returningText : scopeFaults (analyse returningProgram) ≠ [] ∧
    ∃ (made looked runs : Situation) (paren : Token) (object : Instance) (m₁ m₂ : Machine),
      (∀ s ∈ [made, looked, runs],
        s.OfRun 20 returningProgram (.initial .unbounded fun _ => 0)) ∧
      made.moment = .call 17 (.class returningClass) paren [] returningDeclared ∧
      call 17 (.class returningClass) paren [] returningDeclared = .ok (.instance object) m₁ ∧
      object.class = returningClass ∧ object.id = returningDeclared.store.objects.size ∧
      looked.BindsInit returningBound object ∧
      runs.moment = .invoke 17 returningBound paren [] returningKept ∧
      (∀ m, executeAll 16 returningBound.routine.body m = .ok (.returned (.boolean true)) m) ∧
      invoke 17 returningBound paren [] returningKept = .ok (.instance object) m₂ := by
  have hprogram : Source.IsProgram returningProgram :=
    ⟨returningText, 0, by rw [parse_returningText]; rfl⟩
  have hidle : (Machine.initial .unbounded fun _ => 0).Idle := .initial _ _
  -- the course of the run
  have hrun : Situation.OfRun 20 returningProgram (.initial .unbounded fun _ => 0)
    ⟨.none, .program 20 returningProgram.tail returningDeclared⟩ := .tail .refl (.topRest rfl)
  have hlooked := (hrun.tail .top).tail .definition
  have hmade := (hlooked.tail .object).tail (.call rfl rfl)
  have hkept : Situation.OfRun 20 returningProgram (.initial .unbounded fun _ => 0)
    ⟨.none, .program 20 returningProgram.tail.tail returningKept⟩ := hrun.tail (.topRest rfl)
  have hruns := (((hkept.tail .top).tail .expression).tail (.call rfl rfl)).tail (.invoke rfl)
  obtain ⟨m₁, hcall⟩ : ∃ m₁, call 17 (.class returningClass) ⟨.symbol .rightParen, ")", 1⟩ []
    returningDeclared = .ok (.instance returningObject) m₁ := ⟨_, rfl⟩
  obtain ⟨v, m₂, hinvoke⟩ : ∃ v m₂, invoke 17 returningBound ⟨.symbol .rightParen, ")", 1⟩ []
    returningKept = .ok v m₂ := ⟨_, _, rfl⟩
  have hbinds : Situation.BindsInit ⟨.none, .evaluate 19 (.property (returningCall 0 "A")
    ⟨.identifier, "init", 1⟩) returningDeclared⟩ returningBound returningObject :=
    .property rfl rfl rfl rfl
  -- what is known of it
  obtain ⟨object, hobject, hclass, hid, -⟩ :=
    construction_yields.1 _ ⟨20, _, _, hidle, hmade⟩ _ _ _ _ _ _ _ rfl hcall
  cases hobject
  have hgive := construction_yields.2.1 .unbounded (fun _ => 0) _ .refl 20 _ hprogram
  have hreceiver :=
    hgive.gives_receiver _ _ _ _ hlooked hbinds (.same hruns) _ _ _ _ _ _ rfl hinvoke
  have hof := List.forall_mem_cons.2 ⟨hmade, List.forall_mem_cons.2
    ⟨hlooked, List.forall_mem_singleton.2 hruns⟩⟩
  exact ⟨by decide, _, _, _, _, _, m₁, m₂, hof, rfl, hcall, hclass, hid, hbinds, rfl,
    fun _ => rfl, hreceiver ▸ hinvoke⟩

end Session

end Treewalk
