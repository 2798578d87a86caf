import Treewalk.Proofs.Evaluation.Composed
import Treewalk.Proofs.Evaluation.Moment

/-!
# A log of an activation

The functions that execute statements, written once more so that they keep a log: each statement
that is begun and each condition of an `if` or a loop is noted down, together with the machine at
that time. Expressions are evaluated as they are, so that a call inside one notes down nothing, and
the log of a body is about the activation that the body runs in and no other. Apart from the log
they do what the functions of the evaluator do.

## Main definitions

* `Stmt.Simple` — a statement without statements inside
* `Logging` — computations that keep a log
* `Logging.execute`, `Logging.executeAll`, `Logging.executeWhile` — statements
* `Logs` — a computation that does the same as another one and keeps a log

## Main results

* `Logs.bind`, `Logs.inFrame` — the rules for computations one after the other and in other frames
-/

namespace Treewalk

open Eval

variable {α β : Type}

/-- A statement without statements inside, other than in functions declared in it, that is no
`return`. -/
inductive Stmt.Simple : Stmt → Prop
  | expression {value : Expr} : Simple (.expression value)
  | print {value : Expr} : Simple (.print value)
  | var {name : Token} {initializer : Option Expr} : Simple (.var name initializer)
  | function {routine : Routine} : Simple (.function routine)
  | class {name : Token} {superclass : Option Use} {methods : List Routine} :
      Simple (.class name superclass methods)

/-- Computations that keep a log, beside the machine. -/
abbrev Logging := EStateM Halt (Machine × List Moment)

namespace Logging

/-- A computation that notes down nothing. -/
def lift (c : Eval α) : Logging α := fun (m, log) =>
  match c m with
  | .ok a m => .ok a (m, log)
  | .error halt m => .error halt (m, log)

def note (moment : Machine → Moment) : Logging Unit :=
  modify fun (m, log) => (m, log ++ [moment m])

/-- Executes in `frame`, and goes back to the frame that was current before. -/
def inFrame (frame : FrameId) (body : Logging α) : Logging α := fun (caller, log) =>
  match body ({ caller with current := frame }, log) with
  | .ok a (m, log) => .ok a ({ m with current := caller.current }, log)
  | .error halt (m, log) => .error halt ({ m with current := caller.current }, log)

/-- Evaluates a condition. -/
def check (fuel : Nat) (condition : Expr) : Logging Value := do
  note (.evaluate fuel condition)
  lift (evaluate fuel condition)

mutual

def execute : Nat → Stmt → Logging Flow
  | 0, _ => throw .exhausted
  | fuel + 1, stmt => do
    note (.execute (fuel + 1) stmt)
    match stmt with
    | .block body =>
      let frame ← lift do newFrame (← get).current
      inFrame frame (executeAll fuel body)
    | .if condition thenBranch elseBranch =>
      if (← check fuel condition).isTruthy then execute fuel thenBranch
      else
        match elseBranch with
        | some elseBranch => execute fuel elseBranch
        | none => return .normal
    | .while condition body => executeWhile fuel condition body
    | stmt => lift (Eval.execute (fuel + 1) stmt)

def executeAll : Nat → List Stmt → Logging Flow
  | 0, _ => throw .exhausted
  | fuel + 1, stmts => do
    match stmts with
    | [] => return .normal
    | first :: rest =>
      match ← execute fuel first with
      | .normal => executeAll fuel rest
      | .returned value => return .returned value

def executeWhile : Nat → Expr → Stmt → Logging Flow
  | 0, _, _ => throw .exhausted
  | fuel + 1, condition, body => do
    if (← check fuel condition).isTruthy then
      match ← execute fuel body with
      | .normal => executeWhile fuel condition body
      | .returned value => return .returned value
    else return .normal

end

variable {fuel : Nat}

theorem execute_block (body : List Stmt) : execute (fuel + 1) (.block body) = (do
    note (.execute (fuel + 1) (.block body))
    let frame ← lift do newFrame (← get).current
    inFrame frame (executeAll fuel body)) :=
  rfl

theorem execute_if (condition : Expr) (thenBranch : Stmt) (elseBranch : Option Stmt) :
    execute (fuel + 1) (.if condition thenBranch elseBranch) = (do
      note (.execute (fuel + 1) (.if condition thenBranch elseBranch))
      if (← check fuel condition).isTruthy then execute fuel thenBranch
      else
        match elseBranch with
        | some elseBranch => execute fuel elseBranch
        | none => return .normal) :=
  rfl

theorem execute_while (condition : Expr) (body : Stmt) :
    execute (fuel + 1) (.while condition body) = (do
      note (.execute (fuel + 1) (.while condition body))
      executeWhile fuel condition body) :=
  rfl

theorem execute_return (keyword : Token) (value : Option Expr) :
    execute (fuel + 1) (.return keyword value) = (do
      note (.execute (fuel + 1) (.return keyword value))
      lift (Eval.execute (fuel + 1) (.return keyword value))) :=
  rfl

theorem execute_of_simple {s : Stmt} (hs : s.Simple) : execute (fuel + 1) s = (do
    note (.execute (fuel + 1) s)
    lift (Eval.execute (fuel + 1) s)) := by
  cases hs <;> rfl

end Logging

/-- The same end, with a log beside the machine. -/
def Ended.withLog (log : List Moment) : Ended α → EStateM.Result Halt (Machine × List Moment) α
  | .ok a m => .ok a (m, log)
  | .error halt m => .error halt (m, log)

/-- The computation `c'` does what `c` does, and `P` holds of the machine it begins with, of how it
ends and of what is noted down. -/
def Logs (c : Eval α) (c' : Logging α) (P : Machine → Ended α → List Moment → Prop) : Prop :=
  ∀ m log, ∃ entries, c' (m, log) = Ended.withLog (log ++ entries) (c m) ∧ P m (c m) entries

namespace Logs

variable {c : Eval α} {c' : Logging α} {f : α → Eval β} {f' : α → Logging β}
  {P P' : Machine → Ended α → List Moment → Prop}
  {Q : α → Machine → Ended β → List Moment → Prop} {T : Machine → Ended β → List Moment → Prop}

protected theorem pure {a : α} (h : ∀ m, P m (.ok a m) []) : Logs (pure a) (pure a) P := by
  intro m log
  exact ⟨[], by rw [List.append_nil]; rfl, h m⟩

protected theorem throw {halt : Halt} (h : ∀ m, P m (.error halt m) []) :
    Logs (throw halt) (throw halt) P := by
  intro m log
  exact ⟨[], by rw [List.append_nil]; rfl, h m⟩

theorem lift : Logs c (Logging.lift c) fun _ _ entries => entries = [] := by
  intro m log
  refine ⟨[], ?_, rfl⟩
  rw [List.append_nil]
  rfl

/-- A moment is noted down first. -/
theorem note_bind {moment : Machine → Moment} {f' : Unit → Logging α} (h : Logs c (f' ()) P)
    (hP : ∀ m entries, P m (c m) entries → P' m (c m) (moment m :: entries)) :
    Logs c (Logging.note moment >>= f') P' := by
  intro m log
  obtain ⟨entries, heq, hentries⟩ := h m (log ++ [moment m])
  refine ⟨moment m :: entries, ?_, hP m entries hentries⟩
  rw [List.append_assoc] at heq
  exact heq

/-- A moment is the only entry. -/
theorem note_lift {moment : Machine → Moment} (h : ∀ m, P m (c m) [moment m]) :
    Logs c (do Logging.note moment; Logging.lift c) P := by
  refine lift.note_bind ?_
  rintro m _ rfl
  exact h m

/-- What the second computation notes down stands behind what the first one does. -/
protected theorem bind (hc : Logs c c' P) (hf : ∀ a, Logs (f a) (f' a) (Q a))
    (herror : ∀ m halt m₁ entries, P m (.error halt m₁) entries → T m (.error halt m₁) entries)
    (hok : ∀ m a m₁ entries ended entries', P m (.ok a m₁) entries → Q a m₁ ended entries' →
      T m ended (entries ++ entries')) : Logs (c >>= f) (c' >>= f') T := by
  intro m log
  obtain ⟨entries, heq, hentries⟩ := hc m log
  cases h : c m with
  | error halt m₁ =>
    rw [h] at heq hentries
    refine ⟨entries, ?_, ?_⟩
    · simp only [bind, EStateM.bind, heq, h, Ended.withLog]
    · rw [bind_eq_error h]
      exact herror _ _ _ _ hentries
  | ok a m₁ =>
    rw [h] at heq hentries
    obtain ⟨entries', heq', hentries'⟩ := hf a m₁ (log ++ entries)
    rw [List.append_assoc] at heq'
    refine ⟨entries ++ entries', ?_, ?_⟩
    · rw [bind_eq_of_ok h, ← heq']
      simp only [bind, EStateM.bind, heq, Ended.withLog]
    · rw [bind_eq_of_ok h]
      exact hok _ _ _ _ _ _ hentries hentries'

theorem inFrame {frame : FrameId} (h : Logs c c' P)
    (hP : ∀ m ended entries, P { m with current := frame } ended entries →
      P' m (ended.withCurrent m.current) entries) :
    Logs (Eval.inFrame frame c) (Logging.inFrame frame c') P' := by
  intro m log
  obtain ⟨entries, heq, hentries⟩ := h { m with current := frame } log
  refine ⟨entries, ?_, ?_⟩
  · rw [inFrame_eq_withCurrent]
    simp only [Logging.inFrame, heq]
    cases c { m with current := frame } <;> rfl
  · rw [inFrame_eq_withCurrent]
    exact hP _ _ _ hentries

end Logs

end Treewalk
