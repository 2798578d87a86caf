import Treewalk.Proofs.Evaluation.Composed
import Treewalk.Proofs.Session.Moments

/-!
# The current frame

Evaluation goes into other frames for blocks and for calls, and always comes back: however it ends,
with a result, with a `return`, at a fault any number of calls further in, or because the sink is
full, the frame that was current before is current again. So a session stands among the globals
after each of its texts.

## Main definitions

* `KeepsFrame` — a computation that ends in the frame in which it begins

## Main results

* `compositional_keepsFrame` — all evaluations do
* `Session.current_eq_globals` — statements, blocks, expressions, calls, and texts of a session
-/

namespace Treewalk

open Eval

variable {α β : Type}

/-- However the computation ends, the frame in which it begins is current afterwards. -/
def KeepsFrame (c : Eval α) : Prop := ∀ m : Machine, (Ended.machine (c m)).current = m.current

namespace KeepsFrame

variable {c : Eval α} {f : α → Eval β}

protected theorem bind (hc : KeepsFrame c) (hf : ∀ a, KeepsFrame (f a)) : KeepsFrame (c >>= f) := by
  intro m
  have hcurrent := hc m
  cases h : c m with
  | error halt m₁ =>
    rw [h] at hcurrent
    rw [bind_eq_error h]
    exact hcurrent
  | ok a m₁ =>
    rw [h] at hcurrent
    rw [bind_eq_of_ok h]
    exact (hf a m₁).trans hcurrent

/-- Whatever happens in another frame, the way back is the same. -/
theorem inFrame (frame : FrameId) (c : Eval α) : KeepsFrame (inFrame frame c) := by
  intro m
  rw [inFrame_eq_withCurrent, Ended.machine_withCurrent]

theorem printLine (text : String) : KeepsFrame (printLine text) := by
  have hwrite : KeepsFrame (modifyGet fun m : Machine =>
      ((m.sink.write (text ++ "\n")).1, { m with sink := (m.sink.write (text ++ "\n")).2 }) :
      Eval (Option OutputFault)) := fun _ => rfl
  refine hwrite.bind fun fault? => ?_
  cases fault? with
  | none => exact fun _ => rfl
  | some fault => exact fun _ => rfl

theorem flushOutput : KeepsFrame flushOutput := by
  have hget : KeepsFrame (get : Eval Machine) := fun _ => rfl
  refine hget.bind fun m => ?_
  cases m.sink.flush with
  | none => exact fun _ => rfl
  | some fault => exact fun _ => rfl

end KeepsFrame

theorem compositional_keepsFrame : Compositional fun _ c => KeepsFrame c where
  silent h := h.current_eq
  printLine := .printLine
  inFrame frame _ := .inFrame frame _
  bind := .bind

theorem keepsFrame_interpret (fuel : Nat) (program : List Stmt) :
    KeepsFrame (interpret fuel program) :=
  (compositional_keepsFrame.executeProgram fuel program).bind fun _ => .flushOutput

namespace Session

/-- Checking a text evaluates nothing. -/
theorem current_accept (s : Session) (source : String) :
    (s.accept source).2.machine.current = s.machine.current := by
  unfold accept
  split
  · next h => exact congrArg (·.2.machine.current) h.symm
  · next program s₁ h =>
    have hread : s₁.machine.current = s.machine.current := congrArg (·.2.machine.current) h.symm
    split
    · next hcheck => exact (congrArg (·.2.machine.current) hcheck.symm).trans hread
    · next hcheck => exact (congrArg (·.2.machine.current) hcheck.symm).trans hread

theorem machine_outcomeOf (r : Ended α) : (outcomeOf r).2 = r.machine := by
  match r with
  | .ok _ _ => rfl
  | .error (.fault _) _ => rfl
  | .error .exhausted _ => rfl

/-- A text leaves the session in the frame in which it found it, whether it is rejected, fails or
comes to its end. -/
theorem current_run (s : Session) (fuel : Nat) (source : String) :
    (s.run fuel source).2.machine.current = s.machine.current := by
  have haccept := current_accept s source
  unfold run
  split
  · next h =>
    rw [h] at haccept
    exact haccept
  · next program s₁ h =>
    rw [h] at haccept
    show (s₁.machine.run fuel program).2.current = _
    rw [Machine.run, machine_outcomeOf]
    exact (keepsFrame_interpret fuel program s₁.machine).trans haccept

theorem current_runAll (s : Session) (fuel : Nat) (sources : List String) :
    (s.runAll fuel sources).2.machine.current = s.machine.current := by
  induction sources generalizing s with
  | nil => rfl
  | cons source rest ih => exact (ih (s.run fuel source).2).trans (s.current_run fuel source)

/-- **The current frame is restored.** Whatever the machine is, whatever its depth table says, and
however evaluation ends, the frame that is current before a statement, a list of statements, a
block, an expression, a call or the body of a call is current again afterwards. So a text leaves its
session in the frame in which it found it, and after any texts that is the frame of the globals. -/
theorem current_eq_globals :
    (∀ (fuel : Nat) (m : Machine),
      (∀ s, (Ended.machine (execute fuel s m)).current = m.current) ∧
      (∀ ss, (Ended.machine (executeAll fuel ss m)).current = m.current) ∧
      (∀ frame ss, (Ended.machine (inFrame frame (executeAll fuel ss) m)).current = m.current) ∧
      (∀ e, (Ended.machine (evaluate fuel e m)).current = m.current) ∧
      (∀ v paren values, (Ended.machine (call fuel v paren values m)).current = m.current) ∧
      (∀ c paren values, (Ended.machine (invoke fuel c paren values m)).current = m.current)) ∧
    (∀ (s : Session) (fuel : Nat) (source : String),
      (s.run fuel source).2.machine.current = s.machine.current) ∧
    ∀ (sink : Sink) (reading : Nat → Float) (fuel : Nat) (sources : List String),
      ((initial sink reading).runAll fuel sources).2.machine.current = globals := by
  refine ⟨fun fuel m => ?_, current_run, fun sink reading fuel sources => ?_⟩
  · have hkeeps := compositional_keepsFrame.throughout fuel
    exact ⟨fun s => hkeeps.execute s m, fun ss => hkeeps.executeAll ss m,
      fun frame ss => KeepsFrame.inFrame frame _ m, fun e => hkeeps.evaluate e m,
      fun v paren values => hkeeps.call v paren values m,
      fun c paren values => hkeeps.invoke c paren values m⟩
  · exact current_runAll (initial sink reading) fuel sources

end Session

end Treewalk
