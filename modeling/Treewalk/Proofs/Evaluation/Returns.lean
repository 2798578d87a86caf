import Treewalk.Proofs.Evaluation.Logging
import Treewalk.Proofs.Scope.ReturnFree

/-!
# Returns end their call

A `return` that is executed is the last thing its activation does. Blocks, branches and loops around
it pass it on and execute nothing more, and the call ends with its value. Nothing else ends a call
early, and where there is no `return` outside of functions every statement ends normally.

## Main definitions

* `EndsNormally` — a computation whose flow is a normal one, if it comes to an end
* `Moment.Returns` — a `return` that is executed to its end
* `EndsAtReturn` — what is noted down ends at the `return` that is executed, if there is one

## Main results

* `Stmt.ReturnFree.endsNormally` — without a `return` a statement ends normally
* `logsReturns` — statements end at the `return` that is executed
* `Eval.invoke_of_returned` — and so does the call
-/

namespace Treewalk

open Eval

variable {α : Type}

/-! ### Normal ends -/

/-- If the execution comes to an end, it is a normal one. -/
def EndsNormally (c : Eval Flow) : Prop := ∀ m flow m', c m = .ok flow m' → flow = .normal

namespace EndsNormally

variable {c : Eval Flow}

protected theorem pure : EndsNormally (pure .normal) := by
  rintro m flow m' ⟨⟩
  rfl

protected theorem throw {halt : Halt} : EndsNormally (throw halt) := nofun

/-- What comes last decides. -/
protected theorem bind {c : Eval α} {f : α → Eval Flow} (hf : ∀ a, EndsNormally (f a)) :
    EndsNormally (c >>= f) := by
  intro m flow m' h
  cases hc : c m with
  | error halt m₁ =>
    rw [bind_eq_error hc] at h
    cases h
  | ok a m₁ =>
    rw [bind_eq_of_ok hc] at h
    exact hf a m₁ flow m' h

theorem inFrame {frame : FrameId} (h : EndsNormally c) : EndsNormally (inFrame frame c) := by
  intro m flow m' hc
  cases hbody : c { m with current := frame } with
  | error halt m₁ =>
    rw [inFrame_eq_error hbody] at hc
    cases hc
  | ok flow₁ m₁ =>
    rw [inFrame_eq_of_ok hbody] at hc
    cases hc
    exact h _ _ _ hbody

/-- What comes behind a statement that ends normally is executed. -/
theorem execute_bind {fuel : Nat} {s : Stmt} {next : Eval Flow}
    (hs : EndsNormally (execute fuel s)) (hnext : EndsNormally next) :
    EndsNormally do
      match ← execute fuel s with
      | .normal => next
      | .returned v => return .returned v := by
  intro m flow m' h
  cases hexecute : execute fuel s m with
  | error halt m₁ =>
    rw [bind_eq_error hexecute] at h
    cases h
  | ok flow₁ m₁ =>
    obtain rfl := hs _ _ _ hexecute
    rw [bind_eq_of_ok hexecute] at h
    exact hnext _ _ _ h

end EndsNormally

theorem Stmt.Simple.endsNormally {s : Stmt} (hs : s.Simple) (fuel : Nat) :
    EndsNormally (execute (fuel + 1) s) := by
  cases hs with
  | expression => exact .bind fun _ => .pure
  | print => exact .bind fun _ => .bind fun _ => .pure
  | @var name initializer =>
    cases initializer with
    | none => exact .bind fun _ => .pure
    | some value => exact .bind fun _ => .bind fun _ => .pure
  | function => exact .bind fun _ => .pure
  | «class» => exact .bind fun _ => .pure

/-- The functions that execute statements, with the given fuel: without a `return` they end
normally. -/
structure NormalEnds (fuel : Nat) : Prop where
  execute (s : Stmt) : s.ReturnFree → EndsNormally (execute fuel s)
  executeAll (ss : List Stmt) : Stmt.ReturnFreeAll ss → EndsNormally (executeAll fuel ss)
  executeWhile (condition : Expr) (body : Stmt) : body.ReturnFree →
    EndsNormally (executeWhile fuel condition body)

namespace NormalEnds

variable {fuel : Nat}

theorem succ_execute (ih : NormalEnds fuel) (s : Stmt) (hs : s.ReturnFree) :
    EndsNormally (Eval.execute (fuel + 1) s) := by
  cases s with
  | block body => exact .bind fun _ => .bind fun frame => (ih.executeAll body hs).inFrame
  | «if» condition branch other? =>
    refine .bind fun v => ?_
    split
    · cases other? with
      | none => exact ih.execute branch hs
      | some other => exact ih.execute branch hs.1
    · cases other? with
      | none => exact .pure
      | some other => exact ih.execute other hs.2
  | «while» condition body => exact ih.executeWhile condition body hs
  | «return» => exact hs.elim
  | expression => exact Stmt.Simple.expression.endsNormally fuel
  | print => exact Stmt.Simple.print.endsNormally fuel
  | var => exact Stmt.Simple.var.endsNormally fuel
  | function => exact Stmt.Simple.function.endsNormally fuel
  | «class» => exact Stmt.Simple.class.endsNormally fuel

theorem succ_executeAll (ih : NormalEnds fuel) (ss : List Stmt) (hss : Stmt.ReturnFreeAll ss) :
    EndsNormally (Eval.executeAll (fuel + 1) ss) := by
  cases ss with
  | nil => exact .pure
  | cons s rest => exact .execute_bind (ih.execute s hss.1) (ih.executeAll rest hss.2)

theorem succ_executeWhile (ih : NormalEnds fuel) (condition : Expr) (body : Stmt)
    (hbody : body.ReturnFree) : EndsNormally (Eval.executeWhile (fuel + 1) condition body) := by
  refine .bind fun v => ?_
  split
  · exact .execute_bind (ih.execute body hbody) (ih.executeWhile condition body hbody)
  · exact .pure

end NormalEnds

theorem normalEnds (fuel : Nat) : NormalEnds fuel := by
  induction fuel with
  | zero => exact ⟨fun _ _ => .throw, fun _ _ => .throw, fun _ _ _ => .throw⟩
  | succ fuel ih => exact ⟨ih.succ_execute, ih.succ_executeAll, ih.succ_executeWhile⟩

/-- Without a `return` a statement ends normally. -/
theorem Stmt.ReturnFree.endsNormally {s : Stmt} (h : s.ReturnFree) (fuel : Nat) :
    EndsNormally (execute fuel s) :=
  (normalEnds fuel).execute s h

/-! ### Activations -/

/-- A `return` that is executed to its end, with its value and the machine it leaves. -/
inductive Moment.Returns : Moment → Value → Machine → Prop
  | mk {fuel : Nat} {keyword : Token} {value : Option Expr} {v : Value} {m m' : Machine}
      (h : Eval.execute fuel (.return keyword value) m = .ok (.returned v) m') :
      Returns (.execute fuel (.return keyword value) m) v m'

/-- If a `return` is executed it is the last entry, its value is the flow, and nothing was done to
the machine since, except for going back to the frame of a block outside. And only a `return` makes
a flow that returns. -/
structure EndsAtReturn (ended : Ended Flow) (entries : List Moment) : Prop where
  last : ∀ before x after v m, entries = before ++ x :: after → x.Returns v m →
    after = [] ∧ ∃ frame, ended = .ok (.returned v) { m with current := frame }
  exists_return : ∀ v m₁, ended = .ok (.returned v) m₁ →
    ∃ before x m, entries = before ++ [x] ∧ x.Returns v m ∧ m₁ = { m with current := m₁.current }

namespace EndsAtReturn

variable {ended : Ended Flow} {entries entries' : List Moment}

/-- Where nothing returns there is no entry of a `return`. -/
theorem of_not_returns (hentries : ∀ x ∈ entries, ∀ v m, ¬x.Returns v m)
    (hended : ∀ v m, ended ≠ .ok (.returned v) m) : EndsAtReturn ended entries where
  last before x after v m heq hx := absurd hx (hentries x (by simp [heq]) v m)
  exists_return v m heq := absurd heq (hended v m)

theorem nil (h : ∀ v m, ended ≠ .ok (.returned v) m) : EndsAtReturn ended [] :=
  of_not_returns (by simp) h

/-- Entries of what comes before and is not a `return`. -/
theorem prepend (h : EndsAtReturn ended entries')
    (hentries : ∀ x ∈ entries, ∀ v m, ¬x.Returns v m) :
    EndsAtReturn ended (entries ++ entries') where
  last before x after v m heq hx := by
    obtain ⟨middle, rfl, hmiddle⟩ | ⟨middle, rfl, hmiddle⟩ := List.append_eq_append_iff.1 heq
    · exact h.last middle x after v m hmiddle hx
    · cases middle with
      | nil => exact h.last [] x after v m hmiddle.symm hx
      | cons y middle =>
        obtain rfl : x = y := (List.cons.inj hmiddle).1
        exact absurd hx (hentries x (by simp) v m)
  exists_return v m₁ heq := by
    obtain ⟨before, x, m, rfl, hx, hm⟩ := h.exists_return v m₁ heq
    exact ⟨entries ++ before, x, m, (List.append_assoc ..).symm, hx, hm⟩

theorem cons {x : Moment} (h : EndsAtReturn ended entries) (hx : ∀ v m, ¬x.Returns v m) :
    EndsAtReturn ended (x :: entries) :=
  @prepend ended [x] entries h (by simpa using hx)

/-- What did not return has no entry of a `return`. -/
theorem not_returns (h : EndsAtReturn ended entries) (hended : ∀ v m, ended ≠ .ok (.returned v) m) :
    ∀ x ∈ entries, ∀ v m, ¬x.Returns v m := by
  intro x hmem v m hx
  obtain ⟨before, after, heq⟩ := List.append_of_mem hmem
  obtain ⟨-, frame, hreturned⟩ := h.last before x after v m heq hx
  exact hended _ _ hreturned

theorem withCurrent (h : EndsAtReturn ended entries) (frame : FrameId) :
    EndsAtReturn (ended.withCurrent frame) entries where
  last before x after v m heq hx := by
    obtain ⟨hafter, inner, rfl⟩ := h.last before x after v m heq hx
    exact ⟨hafter, frame, rfl⟩
  exists_return v m₁ heq := by
    cases ended with
    | error halt m₂ => cases heq
    | ok flow m₂ =>
      cases heq
      obtain ⟨before, x, m, hentries, hx, hm⟩ := h.exists_return v m₂ rfl
      refine ⟨before, x, m, hentries, hx, ?_⟩
      rw [hm]

/-- A `return` notes down itself. -/
theorem single {fuel : Nat} {keyword : Token} {value : Option Expr} (m : Machine) :
    EndsAtReturn (execute fuel (.return keyword value) m)
      [.execute fuel (.return keyword value) m] where
  last before x after v m' heq hx := by
    obtain ⟨rfl, rfl, rfl⟩ : before = [] ∧ x = .execute fuel (.return keyword value) m ∧
        after = [] := by
      simpa [List.singleton_eq_append_iff, List.append_eq_cons_iff, eq_comm] using heq
    obtain ⟨h⟩ := hx
    exact ⟨rfl, m'.current, h⟩
  exists_return v m₁ heq := ⟨[], _, m₁, rfl, ⟨heq⟩, rfl⟩

end EndsAtReturn

/-- The functions that execute statements, with the given fuel: what they note down ends at the
`return` that is executed. -/
structure LogsReturns (fuel : Nat) : Prop where
  execute (s : Stmt) :
    Logs (execute fuel s) (Logging.execute fuel s) fun _ => EndsAtReturn
  executeAll (ss : List Stmt) :
    Logs (executeAll fuel ss) (Logging.executeAll fuel ss) fun _ => EndsAtReturn
  executeWhile (condition : Expr) (body : Stmt) :
    Logs (executeWhile fuel condition body) (Logging.executeWhile fuel condition body)
      fun _ => EndsAtReturn

/-- A condition is no `return`. -/
theorem logs_check (fuel : Nat) (condition : Expr) :
    Logs (evaluate fuel condition) (Logging.check fuel condition) fun _ _ entries =>
      ∀ x ∈ entries, ∀ v m, ¬x.Returns v m := by
  refine .note_lift fun m => List.forall_mem_singleton.2 fun v m' hreturns => ?_
  cases hreturns

namespace LogsReturns

variable {fuel : Nat}

/-- Whatever a condition decides, it stands before what is done then. -/
theorem check_bind {condition : Expr} {f : Value → Eval Flow} {f' : Value → Logging Flow}
    (hf : ∀ v, Logs (f v) (f' v) fun _ => EndsAtReturn) :
    Logs (evaluate fuel condition >>= f) (Logging.check fuel condition >>= f')
      fun _ => EndsAtReturn := by
  refine (logs_check fuel condition).bind hf ?_ ?_
  · exact fun m halt m₁ entries hentries => .of_not_returns hentries nofun
  · exact fun m v m₁ entries ended entries' hentries hended => hended.prepend hentries

/-- What comes next is executed unless the first statement returns. -/
theorem execute_bind (ih : LogsReturns fuel) {s : Stmt} {next : Eval Flow} {next' : Logging Flow}
    (hnext : Logs next next' fun _ => EndsAtReturn) :
    Logs
      (do match ← Eval.execute fuel s with
          | .normal => next
          | .returned v => return .returned v)
      (do match ← Logging.execute fuel s with
          | .normal => next'
          | .returned v => return .returned v)
      fun _ => EndsAtReturn := by
  -- a flow that returns is passed on, and what comes next has no entry at all
  refine (ih.execute s).bind (Q := fun flow m ended entries => match flow with
    | .normal => EndsAtReturn ended entries
    | .returned v => ended = .ok (.returned v) m ∧ entries = []) (fun flow => ?_) ?_ ?_
  · cases flow with
    | normal => exact hnext
    | returned v => exact .pure fun m => ⟨rfl, rfl⟩
  · exact fun m halt m₁ entries hentries => hentries
  · intro m flow m₁ entries ended entries' hentries hended
    cases flow with
    | normal => exact hended.prepend (hentries.not_returns nofun)
    | returned v =>
      obtain ⟨rfl, rfl⟩ := hended
      rwa [List.append_nil]

/-- A statement without statements inside notes down itself. -/
theorem succ_simple {s : Stmt} (hs : s.Simple) :
    Logs (Eval.execute (fuel + 1) s) (Logging.execute (fuel + 1) s) fun _ => EndsAtReturn := by
  rw [Logging.execute_of_simple hs]
  refine .note_lift fun m => .of_not_returns ?_ fun v m' h => ?_
  · refine List.forall_mem_singleton.2 fun v m' hreturns => ?_
    cases hreturns
    cases hs
  · cases hs.endsNormally fuel _ _ _ h

theorem succ_return (keyword : Token) (value : Option Expr) :
    Logs (Eval.execute (fuel + 1) (.return keyword value))
      (Logging.execute (fuel + 1) (.return keyword value)) fun _ => EndsAtReturn := by
  rw [Logging.execute_return]
  exact .note_lift .single

/-- What a statement notes down about itself is no `return`, if it is none. -/
theorem note_bind {s : Stmt} {c : Eval Flow} {c' : Logging Flow}
    (hs : ∀ keyword value, s ≠ .return keyword value) (h : Logs c c' fun _ => EndsAtReturn) :
    Logs c (do Logging.note (.execute (fuel + 1) s); c') fun _ => EndsAtReturn := by
  refine h.note_bind fun m entries hended => hended.cons ?_
  rintro v m' ⟨⟩
  exact hs _ _ rfl

theorem succ_block (ih : LogsReturns fuel) (body : List Stmt) :
    Logs (Eval.execute (fuel + 1) (.block body)) (Logging.execute (fuel + 1) (.block body))
      fun _ => EndsAtReturn := by
  -- the frame is made outside of the log, as one computation
  have hblock : Eval.execute (fuel + 1) (.block body) =
      (get >>= fun m : Machine => newFrame m.current) >>= fun frame =>
        Eval.inFrame frame (Eval.executeAll fuel body) :=
    (bind_assoc ..).symm
  rw [hblock, Logging.execute_block]
  refine note_bind nofun ?_
  refine Logs.lift.bind (Q := fun _ _ => EndsAtReturn) (fun frame => ?_) ?_ ?_
  · exact (ih.executeAll body).inFrame fun m ended entries h => h.withCurrent m.current
  · rintro m halt m₁ _ rfl
    exact .nil nofun
  · rintro m a m₁ _ ended entries rfl h
    exact h

theorem succ_if (ih : LogsReturns fuel) (condition : Expr) (thenBranch : Stmt)
    (elseBranch : Option Stmt) :
    Logs (Eval.execute (fuel + 1) (.if condition thenBranch elseBranch))
      (Logging.execute (fuel + 1) (.if condition thenBranch elseBranch))
      fun _ => EndsAtReturn := by
  rw [Logging.execute_if]
  refine note_bind nofun (check_bind fun v => ?_)
  split
  · exact ih.execute thenBranch
  · cases elseBranch with
    | none => exact .pure fun m => .nil nofun
    | some elseBranch => exact ih.execute elseBranch

theorem succ_while (ih : LogsReturns fuel) (condition : Expr) (body : Stmt) :
    Logs (Eval.execute (fuel + 1) (.while condition body))
      (Logging.execute (fuel + 1) (.while condition body)) fun _ => EndsAtReturn := by
  rw [Logging.execute_while]
  exact note_bind nofun (ih.executeWhile condition body)

theorem succ_execute (ih : LogsReturns fuel) (s : Stmt) :
    Logs (Eval.execute (fuel + 1) s) (Logging.execute (fuel + 1) s) fun _ => EndsAtReturn := by
  cases s with
  | block body => exact ih.succ_block body
  | «if» condition thenBranch elseBranch => exact ih.succ_if condition thenBranch elseBranch
  | «while» condition body => exact ih.succ_while condition body
  | «return» keyword value => exact succ_return keyword value
  | expression => exact succ_simple .expression
  | print => exact succ_simple .print
  | var => exact succ_simple .var
  | function => exact succ_simple .function
  | «class» => exact succ_simple .class

theorem succ_executeAll (ih : LogsReturns fuel) (ss : List Stmt) :
    Logs (Eval.executeAll (fuel + 1) ss) (Logging.executeAll (fuel + 1) ss)
      fun _ => EndsAtReturn := by
  cases ss with
  | nil => exact .pure fun m => .nil nofun
  | cons s rest =>
    rw [Eval.executeAll, Logging.executeAll]
    exact ih.execute_bind (ih.executeAll rest)

theorem succ_executeWhile (ih : LogsReturns fuel) (condition : Expr) (body : Stmt) :
    Logs (Eval.executeWhile (fuel + 1) condition body)
      (Logging.executeWhile (fuel + 1) condition body) fun _ => EndsAtReturn := by
  rw [Eval.executeWhile, Logging.executeWhile]
  refine check_bind fun v => ?_
  split
  · exact ih.execute_bind (ih.executeWhile condition body)
  · exact .pure fun m => .nil nofun

end LogsReturns

/-- Statements end at the `return` that is executed. -/
theorem logsReturns (fuel : Nat) : LogsReturns fuel := by
  induction fuel with
  | zero =>
    -- a statement that is out of fuel is not begun
    have hthrow : Logs (throw .exhausted) (throw .exhausted) fun _ => EndsAtReturn :=
      .throw fun m => .nil nofun
    exact ⟨fun _ => hthrow, fun _ => hthrow, fun _ _ => hthrow⟩
  | succ fuel ih => exact ⟨ih.succ_execute, ih.succ_executeAll, ih.succ_executeWhile⟩

/-! ### Calls -/

/-- The frame of a call can always be made, and the caller is in its own frame then. -/
theorem Eval.exists_callFrame (enclosing : FrameId) (parameters : List Token)
    (arguments : List Value) (m : Machine) : ∃ frame m₁,
      callFrame enclosing parameters arguments m = .ok frame m₁ ∧ m₁.current = m.current :=
  ⟨_, _, rfl, rfl⟩

/-- A call whose body returns gives the value returned, or the receiver if it is one of an
initializer, and the caller goes on in its own frame. -/
theorem Eval.invoke_of_returned {fuel : Nat} {closure : Closure} {paren : Token}
    {arguments : List Value} {m m₁ m₂ : Machine} {frame : FrameId} {v : Value}
    (hframe : callFrame closure.frame closure.routine.parameters arguments m = .ok frame m₁)
    (hbody : executeAll fuel closure.routine.body { m₁ with current := frame } =
      .ok (.returned v) m₂) :
    invoke (fuel + 1) closure paren arguments m =
      (if closure.isInitializer then receiverOf closure paren else pure v)
        { m₂ with current := m₁.current } := by
  rw [invoke_succ_eq, bind_eq_of_ok hframe, bind_eq_of_ok (inFrame_eq_of_ok hbody)]
  rfl

end Treewalk
