import Treewalk.Proofs.Evaluation.Course
import Treewalk.Proofs.Evaluation.Steps
import Treewalk.Proofs.Scope.Parameters

/-!
# Arguments

The frame of a call binds parameters and arguments in pairs, as far as there are both, and does not
compare their numbers. Whoever calls has done that: a function takes as many arguments as it has
parameters, and a class as many as the initializer that it then runs.

## Main definitions

* `Eval.callBy` — calls, with what runs closures as a parameter
* `Machine.Binds` — what a frame binds that was made for a call

## Main results

* `Eval.callBy_congr` — closures are run with as many arguments as they have parameters
* `Situation.OfRun.fits` — so they are in all situations of a run
* `Eval.binds_callFrame` — a call with distinct parameters binds each of them to its argument
* `Happens.distinct` — the code that runs has distinct parameters if the programs have
-/

namespace Treewalk

open Eval

/-! ### The number of arguments -/

namespace Eval

/-- Calls a value, running closures by `run`. -/
def callBy (run : Closure → Token → List Value → Eval Value) (callee : Value) (paren : Token)
    (arguments : List Value) : Eval Value := do
  match callee with
  | .native .clock =>
    checkArity paren Native.clock.arity arguments.length
    readClock
  | .function _ closure =>
    checkArity paren closure.arity arguments.length
    run closure paren arguments
  | .class c =>
    checkArity paren c.arity arguments.length
    let object ← newInstance c
    match c.initializer? with
    | none => return .instance object
    | some initializer =>
      let bound ← bindReceiver initializer object
      let _ ← run bound paren arguments
      return .instance object
  | _ => fail paren .notCallable

theorem call_succ_eq (fuel : Nat) (callee : Value) (paren : Token) (arguments : List Value) :
    call (fuel + 1) callee paren arguments = callBy (invoke fuel) callee paren arguments := by
  cases callee with
  | native f => cases f; rfl
  | _ => rfl

theorem checkArity_bind {α : Type} (paren : Token) (expected given : Nat) (f : Unit → Eval α) :
    (checkArity paren expected given >>= f) =
      if given = expected then f () else fail paren (.wrongArgumentCount expected given) := by
  unfold checkArity
  split <;> rfl

/-- A class takes the arguments of the initializer that runs. -/
theorem length_parameters_of_bindReceiver {c : Class} {initializer bound : Closure}
    {object : Instance} {m m' : Machine} (hinitializer : c.initializer? = some initializer)
    (hbound : bindReceiver initializer object m = .ok bound m') :
    bound.routine.parameters.length = c.arity := by
  rw [routine_bindReceiver hbound, Class.arity, hinitializer]
  rfl

/-- A call runs closures with as many arguments as they have parameters, so that it does not matter
what it would mean to run them with any other number. -/
theorem callBy_congr {run run' : Closure → Token → List Value → Eval Value}
    (h : ∀ closure paren arguments, arguments.length = closure.routine.parameters.length →
      run closure paren arguments = run' closure paren arguments)
    (callee : Value) (paren : Token) (arguments : List Value) :
    callBy run callee paren arguments = callBy run' callee paren arguments := by
  cases callee with
  | function stamp closure =>
    simp only [callBy, checkArity_bind]
    split
    · next harity => exact h closure paren arguments harity
    · rfl
  | «class» c =>
    simp only [callBy, checkArity_bind]
    split
    · next harity =>
      refine bind_congr fun object => ?_
      cases hinitializer : c.initializer? with
      | none => rfl
      | some initializer =>
        funext m
        obtain ⟨bound, m', hbound⟩ : ∃ bound m', bindReceiver initializer object m =
          .ok bound m' := ⟨_, _, rfl⟩
        have hlength := length_parameters_of_bindReceiver hinitializer hbound
        simp only [bind_eq_of_ok hbound, h bound paren arguments (harity.trans hlength.symm)]
    · rfl
  | _ => rfl

end Eval

/-- A closure that is run has as many parameters as there are arguments. -/
def Moment.Fits : Moment → Prop
  | invoke _ closure _ arguments _ => arguments.length = closure.routine.parameters.length
  | _ => True

theorem Situation.Leads.fits {s s' : Situation} (h : s.Leads s') : s'.moment.Fits := by
  cases h with
  | invoke harity => exact harity
  | construct harity hobject hinitializer hbound =>
    exact harity.trans (length_parameters_of_bindReceiver hinitializer hbound).symm
  | _ => trivial

/-- Whatever the program and the depth table are, closures are run with as many arguments as they
have parameters. -/
theorem Situation.OfRun.fits {fuel : Nat} {program : List Stmt} {m : Machine} {s : Situation}
    (h : s.OfRun fuel program m) : s.moment.Fits := by
  cases h with
  | refl => trivial
  | tail _ hleads => exact hleads.fits

/-! ### The frame of a call -/

namespace Store

variable {bindings : List (String × Value)} {frame : FrameId} {s : Store}

theorem enclosing?_defineAll (other : FrameId) :
    (s.defineAll frame bindings).enclosing? other = s.enclosing? other := by
  induction bindings generalizing s with
  | nil => rfl
  | cons binding rest ih => exact ih.trans (s.enclosing?_define ..)

/-- If the names are distinct, every binding counts. -/
theorem local?_defineAll
    (hnodup : (bindings.map Prod.fst).Nodup) (hframe : frame < s.frames.size) (name : String)
    (v : Value) : (s.defineAll frame bindings).local? frame name = some v ↔
      (name, v) ∈ bindings ∨ name ∉ bindings.map Prod.fst ∧ s.local? frame name = some v := by
  induction bindings generalizing s with
  | nil => simp [defineAll]
  | cons binding rest ih =>
    obtain ⟨key, w⟩ := binding
    obtain ⟨hkey, hnodup⟩ := List.nodup_cons.1 hnodup
    have hframe' : frame < (s.define frame key w).frames.size := by rwa [size_define]
    refine (ih hnodup hframe').trans ?_
    rw [local?_define]
    by_cases hname : name = key
    · subst hname
      have hnone : (name, v) ∉ rest := fun hmem => hkey (List.mem_map.2 ⟨_, hmem, rfl⟩)
      simp [hnone, hkey, hframe, eq_comm]
    · simp [hname]

end Store

/-- The frame, which is new, is inside the one that the closure keeps, and binds its parameters to
the arguments, each to the one in the same position, and nothing else. -/
structure Machine.Binds (m : Machine) (closure : Closure) (arguments : List Value) (frame : FrameId)
    (m' : Machine) : Prop where
  frame_eq : frame = m.store.frames.size
  enclosing?_eq : m'.store.enclosing? frame = some closure.frame
  local?_iff : ∀ name v, m'.store.local? frame name = some v ↔
    ∃ (i : Nat) (parameter : Token), closure.routine.parameters[i]? = some parameter ∧
      parameter.lexeme = name ∧ arguments[i]? = some v

/-- A call with distinct parameters binds each of them to its argument. -/
theorem Eval.binds_callFrame {closure : Closure} {arguments : List Value} {m : Machine}
    (hnodup : (closure.routine.parameters.map Token.lexeme).Nodup)
    (harity : arguments.length = closure.routine.parameters.length) :
    ∃ frame m', callFrame closure.frame closure.routine.parameters arguments m = .ok frame m' ∧
      m.Binds closure arguments frame m' := by
  refine ⟨_, _, rfl, rfl, ?_, fun name v => ?_⟩
  · refine (Store.enclosing?_defineAll _).trans ?_
    exact (m.store.enclosing?_newFrame ..).trans (if_pos rfl)
  · have hlt : m.store.frames.size < (m.store.newFrame (some closure.frame)).2.frames.size :=
      (m.store.size_newFrame _).symm ▸ Nat.lt_succ_self _
    have hnone : (m.store.newFrame (some closure.frame)).2.local? m.store.frames.size name = none :=
      (m.store.local?_newFrame ..).trans (m.store.local?_of_size_le le_rfl name)
    have hfst : ((closure.routine.parameters.map Token.lexeme).zip arguments).map Prod.fst =
        closure.routine.parameters.map Token.lexeme :=
      List.map_fst_zip (by rw [List.length_map, harity])
    refine (Store.local?_defineAll (hfst.symm ▸ hnodup) hlt name v).trans ?_
    simp only [hnone, reduceCtorEq, and_false, or_false, List.mem_iff_getElem?,
      List.getElem?_zip_eq_some, List.getElem?_map, Option.map_eq_some_iff]
    constructor
    · rintro ⟨i, ⟨parameter, hparameter, hname⟩, hv⟩
      exact ⟨i, parameter, hparameter, hname, hv⟩
    · rintro ⟨i, parameter, hparameter, hname, hv⟩
      exact ⟨i, ⟨parameter, hparameter, hname⟩, hv⟩

/-! ### Parameters of the code that runs -/

/-- The functions in the code that a moment is about have distinct parameters. Where a closure is
called or bound, its code is that of another place. -/
def Moment.Distinct : Moment → Prop
  | execute _ s _ => s.Distinct
  | executeAll _ ss _ | program _ ss _ => Stmt.DistinctAll ss
  | executeWhile _ _ body _ => body.Distinct
  | own method _ => method.routine.Distinct
  | make closure _ _ => closure.routine.Distinct
  | evaluate _ _ _ | evaluateAll _ _ _ | call _ _ _ _ _ | invoke _ _ _ _ _ | access _ _ _
  | bind _ _ _ => True

theorem Happens.distinct {R : Place → Moment → Prop} {place : Place} {moment : Moment}
    (hroot : ∀ place moment, R place moment → moment.Distinct) (h : Happens R place moment) :
    moment.Distinct := by
  induction h with
  | root h => exact hroot _ _ h
  | loop h ih | block h hframe ih | again h hcondition hvalue hbody ih => exact ih
  | function h hdeclare ih => exact ih
  | @thenBranch place fuel condition branch other value m m₁ h hcondition hvalue ih =>
    cases other with
    | none => exact ih
    | some other => exact ih.1
  | elseBranch h hcondition hvalue ih => exact ih.2
  | body h hmake htext hbefore hframe ih ih' => exact (Routine.distinct_iff.1 ih').2
  | own h hsuperclass hdefine hframe hmethod ih => exact Routine.DistinctAll.of_mem ih hmethod
  | bound h hown htext hbefore hbound ih ih' =>
    show Routine.Distinct _
    rw [routine_bindReceiver hbound]
    exact ih'
  | statement h ih | top h ih => exact ih.1
  | statements h hs ih | topRest h hs ih => exact ih.2
  | round h hcondition hvalue ih => exact ih
  | _ => trivial

end Treewalk
