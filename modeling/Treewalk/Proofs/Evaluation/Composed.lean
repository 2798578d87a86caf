import Treewalk.Proofs.Evaluation.Runs

/-!
# What evaluation is put together from

Most steps of evaluation have nothing to do with output: they neither look at the sink nor write to
it. Apart from these, evaluation prints lines and evaluates in other frames, and everything else is
one computation after another. So a property of computations that these three have, and that goes
over to computations one after the other, holds of every evaluation. The statement for all functions
of the evaluator is proved at once, by induction on the fuel.

## Main definitions

* `Ended` — how a computation ends
* `Silent` — a step that has nothing to do with output
* `Compositional` — a property that goes over from parts to the whole

## Main results

* `Compositional.throughout` — such a property holds of all functions of the evaluator
* `Compositional.executeProgram` — and of whole programs

## Implementation notes

Flushing is left out: it is the only step that looks at the sink and does not write to it, and a
program does it once, at its end.
-/

namespace Treewalk

open Eval

variable {α β : Type}

/-- How a computation ends, and the machine it leaves. -/
abbrev Ended (α : Type) := EStateM.Result Halt Machine α

namespace Ended

/-- The machine that is left, whether there is a result or not. -/
def machine : Ended α → Machine
  | .ok _ m => m
  | .error _ m => m

/-- The same end, with another sink. -/
def withSink (sink : Sink) : Ended α → Ended α
  | .ok a m => .ok a { m with sink }
  | .error halt m => .error halt { m with sink }

/-- The same end, in another frame. -/
def withCurrent (frame : FrameId) : Ended α → Ended α
  | .ok a m => .ok a { m with current := frame }
  | .error halt m => .error halt { m with current := frame }

@[simp] theorem machine_ok (a : α) (m : Machine) : machine (.ok a m) = m := rfl

@[simp] theorem machine_error (halt : Halt) (m : Machine) :
    machine (.error halt m : Ended α) = m := rfl

@[simp] theorem machine_withSink (sink : Sink) (r : Ended α) :
    (r.withSink sink).machine = { r.machine with sink } := by
  cases r <;> rfl

@[simp] theorem machine_withCurrent (frame : FrameId) (r : Ended α) :
    (r.withCurrent frame).machine = { r.machine with current := frame } := by
  cases r <;> rfl

end Ended

/-- Evaluation in another frame ends as it does there, back in the frame from which it came. -/
theorem Eval.inFrame_eq_withCurrent (frame : FrameId) (c : Eval α) (m : Machine) :
    inFrame frame c m = Ended.withCurrent m.current (c { m with current := frame }) := by
  rw [inFrame]
  cases c { m with current := frame } <;> rfl

/-! ### Silent steps -/

/-- The computation does the same whatever the sink is, leaves the sink as it is, and ends in the
frame in which it begins. -/
structure Silent (c : Eval α) : Prop where
  withSink : ∀ (m : Machine) (sink : Sink), c { m with sink } = Ended.withSink sink (c m)
  current_eq : ∀ m : Machine, (Ended.machine (c m)).current = m.current

namespace Silent

variable {c : Eval α} {f : α → Eval β}

theorem sink_eq (h : Silent c) (m : Machine) : (Ended.machine (c m)).sink = m.sink := by
  have hsame := congrArg (fun r => (Ended.machine r).sink) (h.withSink m m.sink)
  simpa using hsame

protected theorem pure (a : α) : Silent (pure a : Eval α) := ⟨fun _ _ => rfl, fun _ => rfl⟩

protected theorem throw (halt : Halt) : Silent (throw halt : Eval α) :=
  ⟨fun _ _ => rfl, fun _ => rfl⟩

protected theorem bind (hc : Silent c) (hf : ∀ a, Silent (f a)) : Silent (c >>= f) := by
  constructor
  · intro m sink
    have hsame := hc.withSink m sink
    cases h : c m with
    | error halt m₁ =>
      rw [h] at hsame
      rw [bind_eq_error h, bind_eq_error hsame]
      rfl
    | ok a m₁ =>
      rw [h] at hsame
      rw [bind_eq_of_ok h, bind_eq_of_ok hsame]
      exact (hf a).withSink m₁ sink
  · intro m
    have hcurrent := hc.current_eq m
    cases h : c m with
    | error halt m₁ =>
      rw [h] at hcurrent
      rw [bind_eq_error h]
      exact hcurrent
    | ok a m₁ =>
      rw [h] at hcurrent
      rw [bind_eq_of_ok h]
      exact ((hf a).current_eq m₁).trans hcurrent

/-- The state is looked at, except for its sink. -/
protected theorem get_bind {g : Machine → Eval β} (hg : ∀ m, Silent (g m))
    (hsink : ∀ (m : Machine) (sink : Sink), g { m with sink } = g m) : Silent (get >>= g) := by
  refine ⟨fun m sink => ?_, fun m => (hg m).current_eq m⟩
  show g { m with sink } { m with sink } = _
  rw [hsink]
  exact (hg m).withSink m sink

/-- The state is changed, except for its sink and its current frame. -/
protected theorem modifyGet {g : Machine → α × Machine}
    (hsink : ∀ (m : Machine) (sink : Sink), g { m with sink } = ((g m).1, { (g m).2 with sink }))
    (hcurrent : ∀ m : Machine, (g m).2.current = m.current) :
    Silent (modifyGet g : Eval α) := by
  refine ⟨fun m sink => ?_, hcurrent⟩
  show EStateM.Result.ok (g { m with sink }).1 (g { m with sink }).2 = _
  rw [hsink]
  rfl

theorem orFail (r : Except Diagnostic α) : Silent (orFail r) := by
  cases r with
  | ok a => exact .pure a
  | error diagnostic => exact .throw _

theorem fail (anchor : Token) (cause : RuntimeFault) : Silent (fail anchor cause : Eval α) :=
  .throw _

theorem orFailAt (anchor : Token) (r : Except RuntimeFault α) : Silent (orFailAt anchor r) := by
  cases r with
  | ok a => exact .pure a
  | error cause => exact .throw _

theorem checkArity (paren : Token) (expected given : Nat) :
    Silent (checkArity paren expected given) := by
  rw [Eval.checkArity]
  split
  · exact .pure ()
  · exact .fail paren _

/-! ### Frames and variables -/

theorem newFrame (enclosing : FrameId) : Silent (newFrame enclosing) :=
  .modifyGet (fun _ _ => rfl) fun _ => rfl

theorem defineIn (frame : FrameId) (name : String) (value : Value) :
    Silent (defineIn frame name value) :=
  .modifyGet (fun _ _ => rfl) fun _ => rfl

theorem defineAllIn (frame : FrameId) (bindings : List (String × Value)) :
    Silent (defineAllIn frame bindings) :=
  .modifyGet (fun _ _ => rfl) fun _ => rfl

theorem define (name : String) (value : Value) : Silent (define name value) :=
  .get_bind (fun m => .defineIn m.current name value) fun _ _ => rfl

theorem lookUp (use : Use) : Silent (lookUp use) := by
  refine .get_bind (fun m => ?_) fun _ _ => rfl
  split
  · exact .orFail _
  · exact .orFail _

theorem targetOf (use : Use) : Silent (targetOf use) := by
  refine .get_bind (fun m => ?_) fun _ _ => rfl
  split
  · exact .orFail _
  · exact .orFail _

theorem assign (use : Use) (value : Value) : Silent (assign use value) :=
  (targetOf use).bind fun target => .defineIn target use.name value

theorem assignNearest (name : Token) (value : Value) : Silent (assignNearest name value) :=
  .get_bind (fun _ => (orFail _).bind fun target => .defineIn target name.lexeme value)
    fun _ _ => rfl

/-! ### Values with an identity -/

theorem newFunction (closure : Closure) : Silent (newFunction closure) :=
  (Silent.modifyGet (fun _ _ => rfl) fun _ => rfl : Silent freshStamp).bind fun _ => .pure _

theorem newInstance (c : Class) : Silent (newInstance c) :=
  .modifyGet (fun _ _ => rfl) fun _ => rfl

theorem bindReceiver (method : Closure) (receiver : Instance) :
    Silent (bindReceiver method receiver) :=
  (newFrame method.frame).bind fun frame => (defineIn frame "this" _).bind fun _ => .pure _

theorem getProperty (receiver : Instance) (name : Token) : Silent (getProperty receiver name) := by
  refine .get_bind (fun m => ?_) fun _ _ => rfl
  split
  · exact .pure _
  · split
    · exact (bindReceiver _ receiver).bind .newFunction
    · exact .fail name _

theorem setProperty (receiver : Instance) (name : Token) (value : Value) :
    Silent (setProperty receiver name value) :=
  .modifyGet (fun _ _ => rfl) fun _ => rfl

theorem receiverOf (initializer : Closure) (paren : Token) :
    Silent (receiverOf initializer paren) := by
  refine .get_bind (fun m => ?_) fun _ _ => rfl
  split
  · exact .pure _
  · exact .fail paren _

theorem superMethod (use : Use) (method : Token) : Silent (superMethod use method) := by
  refine .get_bind (fun m => ?_) fun _ _ => rfl
  split
  · refine (orFail _).bind fun superclass => (orFail _).bind fun receiver => ?_
    split
    · split
      · exact (bindReceiver _ _).bind .newFunction
      · exact .fail method _
    · exact .fail use.token _
  · exact .fail use.token _

theorem readClock : Silent readClock := .modifyGet (fun _ _ => rfl) fun _ => rfl

/-! ### Declarations -/

theorem superclassOf (use : Use) : Silent (superclassOf use) := by
  refine (lookUp use).bind fun value => ?_
  split
  · exact .pure _
  · exact .fail use.token _

theorem methodFrame (superclass : Option Class) : Silent (methodFrame superclass) := by
  refine .get_bind (fun m => ?_) fun _ _ => rfl
  cases superclass with
  | none => exact .pure m.current
  | some c =>
    exact (newFrame m.current).bind fun frame => (defineIn frame _ _).bind fun _ => .pure _

theorem declareClass (name : Token) (superclass : Option Use) (methods : List Routine) :
    Silent (declareClass name superclass methods) := by
  have hrest (c : Option Class) : Silent (do
      Eval.define name.lexeme .nil
      let frame ← Eval.methodFrame c
      let closures := methods.map fun method => (method.name.lexeme, methodClosure frame method)
      let layer : ClassLayer := ⟨← freshStamp, name.lexeme, .ofList closures⟩
      Eval.assignNearest name (.class (.extend layer c))) :=
    (define name.lexeme .nil).bind fun _ => (methodFrame c).bind fun _ =>
      Silent.bind (.modifyGet (fun _ _ => rfl) fun _ => rfl) fun _ => .assignNearest name _
  cases superclass with
  | none => exact hrest none
  | some use => exact ((superclassOf use).bind fun c => .pure (some c)).bind hrest

theorem declareFunction (routine : Routine) : Silent (declareFunction routine) :=
  .get_bind (fun _ => (newFunction _).bind (.define routine.name.lexeme)) fun _ _ => rfl

end Silent

/-! ### Properties of all evaluations -/

/-- A property of computations that holds of silent steps, of printing, and of whatever is put
together from computations that have it. -/
structure Compositional (P : (α : Type) → Eval α → Prop) : Prop where
  silent : ∀ {α : Type} {c : Eval α}, Silent c → P α c
  printLine : ∀ text : String, P Unit (printLine text)
  inFrame : ∀ {α : Type} {c : Eval α} (frame : FrameId), P α c → P α (inFrame frame c)
  bind : ∀ {α β : Type} {c : Eval α} {f : α → Eval β},
    P α c → (∀ a, P β (f a)) → P β (c >>= f)

/-- With the given fuel, the property holds of all functions of the evaluator. -/
structure Throughout (P : (α : Type) → Eval α → Prop) (fuel : Nat) : Prop where
  evaluate : ∀ e : Expr, P Value (evaluate fuel e)
  evaluateAll : ∀ es : List Expr, P (List Value) (evaluateAll fuel es)
  call : ∀ (v : Value) (paren : Token) (arguments : List Value),
    P Value (call fuel v paren arguments)
  invoke : ∀ (closure : Closure) (paren : Token) (arguments : List Value),
    P Value (invoke fuel closure paren arguments)
  execute : ∀ s : Stmt, P Flow (execute fuel s)
  executeAll : ∀ ss : List Stmt, P Flow (executeAll fuel ss)
  executeWhile : ∀ (condition : Expr) (body : Stmt), P Flow (executeWhile fuel condition body)

namespace Compositional

variable {P : (α : Type) → Eval α → Prop} {fuel : Nat}

theorem zero (h : Compositional P) : Throughout P 0 where
  evaluate _ := h.silent (.throw _)
  evaluateAll _ := h.silent (.throw _)
  call _ _ _ := h.silent (.throw _)
  invoke _ _ _ := h.silent (.throw _)
  execute _ := h.silent (.throw _)
  executeAll _ := h.silent (.throw _)
  executeWhile _ _ := h.silent (.throw _)

theorem evaluate_succ (h : Compositional P) (ih : Throughout P fuel) (e : Expr) :
    P Value (evaluate (fuel + 1) e) := by
  cases e with
  | literal value => exact h.silent (.pure _)
  | group inner => exact ih.evaluate inner
  | unary operator operand =>
    exact h.bind (ih.evaluate operand) fun _ => h.silent (.orFailAt operator _)
  | binary left operator right =>
    refine h.bind (ih.evaluate left) fun _ => h.bind (ih.evaluate right) fun _ => ?_
    exact h.silent (.orFailAt operator _)
  | logical left operator right =>
    refine h.bind (ih.evaluate left) fun value => ?_
    cases hdecides : value.decides operator.kind with
    | true => simpa [hdecides] using h.silent (.pure value)
    | false => simpa [hdecides] using ih.evaluate right
  | «variable» use => exact h.silent (.lookUp use)
  | assign target value =>
    refine h.bind (ih.evaluate value) fun v => ?_
    exact h.silent ((Silent.assign target v).bind fun _ => .pure v)
  | call callee paren arguments =>
    refine h.bind (ih.evaluate callee) fun v => ?_
    exact h.bind (ih.evaluateAll arguments) fun values => ih.call v paren values
  | property object name =>
    refine h.bind (ih.evaluate object) fun v => h.silent ?_
    split
    · exact .getProperty _ name
    · exact .fail name _
  | setProperty object name value =>
    refine h.bind (ih.evaluate object) fun v => ?_
    split
    · refine h.bind (ih.evaluate value) fun w => ?_
      exact h.silent ((Silent.setProperty _ name w).bind fun _ => .pure w)
    · exact h.silent (.fail name _)
  | this use => exact h.silent (.lookUp use)
  | super use method => exact h.silent (.superMethod use method)

theorem evaluateAll_succ (h : Compositional P) (ih : Throughout P fuel) (es : List Expr) :
    P (List Value) (evaluateAll (fuel + 1) es) := by
  cases es with
  | nil => exact h.silent (.pure [])
  | cons first rest =>
    refine h.bind (ih.evaluate first) fun _ => ?_
    exact h.bind (ih.evaluateAll rest) fun _ => h.silent (.pure _)

theorem call_succ (h : Compositional P) (ih : Throughout P fuel) (v : Value) (paren : Token)
    (arguments : List Value) : P Value (call (fuel + 1) v paren arguments) := by
  cases v with
  | native function =>
    cases function
    exact h.silent ((Silent.checkArity paren _ _).bind fun _ => .readClock)
  | function stamp closure =>
    refine h.bind (h.silent (.checkArity paren _ _)) fun _ => ?_
    exact ih.invoke closure paren arguments
  | «class» c =>
    refine h.bind (h.silent (.checkArity paren _ _)) fun _ => ?_
    refine h.bind (h.silent (.newInstance c)) fun object => ?_
    cases hi : c.initializer? with
    | none => exact h.silent (.pure _)
    | some initializer =>
      refine h.bind (h.silent (.bindReceiver initializer object)) fun bound => ?_
      exact h.bind (ih.invoke bound paren arguments) fun _ => h.silent (.pure _)
  | _ => exact h.silent (.fail paren _)

theorem invoke_succ (h : Compositional P) (ih : Throughout P fuel) (closure : Closure)
    (paren : Token) (arguments : List Value) :
    P Value (invoke (fuel + 1) closure paren arguments) := by
  refine h.bind (h.silent (.newFrame closure.frame)) fun frame => ?_
  refine h.bind (h.silent (.defineAllIn frame _)) fun _ => ?_
  refine h.bind (h.inFrame frame (ih.executeAll closure.routine.body)) fun flow => h.silent ?_
  split
  · exact .receiverOf closure paren
  · exact .pure _

theorem execute_succ (h : Compositional P) (ih : Throughout P fuel) (s : Stmt) :
    P Flow (execute (fuel + 1) s) := by
  match s with
  | .expression value => exact h.bind (ih.evaluate value) fun _ => h.silent (.pure _)
  | .print value =>
    refine h.bind (ih.evaluate value) fun v => ?_
    exact h.bind (h.printLine v.text) fun _ => h.silent (.pure _)
  | .var name none => exact h.silent ((Silent.define name.lexeme .nil).bind fun _ => .pure _)
  | .var name (some value) =>
    refine h.bind (ih.evaluate value) fun v => ?_
    exact h.silent ((Silent.define name.lexeme v).bind fun _ => .pure _)
  | .block body =>
    have hframe : Silent (get >>= fun m : Machine => newFrame m.current) :=
      .get_bind (fun m => .newFrame m.current) fun _ _ => rfl
    have hblock : P Flow ((get >>= fun m : Machine => newFrame m.current) >>= fun frame =>
        Eval.inFrame frame (Eval.executeAll fuel body)) :=
      h.bind (h.silent hframe) fun frame => h.inFrame frame (ih.executeAll body)
    rwa [bind_assoc] at hblock
  | .if condition thenBranch elseBranch =>
    refine h.bind (ih.evaluate condition) fun v => ?_
    split
    · exact ih.execute thenBranch
    · cases elseBranch with
      | none => exact h.silent (.pure _)
      | some other => exact ih.execute other
  | .while condition body => exact ih.executeWhile condition body
  | .function routine => exact h.silent ((Silent.declareFunction routine).bind fun _ => .pure _)
  | .return _ none => exact h.silent (.pure _)
  | .return _ (some value) => exact h.bind (ih.evaluate value) fun _ => h.silent (.pure _)
  | .class name superclass methods =>
    exact h.silent ((Silent.declareClass name superclass methods).bind fun _ => .pure _)

theorem executeAll_succ (h : Compositional P) (ih : Throughout P fuel) (ss : List Stmt) :
    P Flow (executeAll (fuel + 1) ss) := by
  cases ss with
  | nil => exact h.silent (.pure _)
  | cons first rest =>
    refine h.bind (ih.execute first) fun flow => ?_
    cases flow with
    | normal => exact ih.executeAll rest
    | returned value => exact h.silent (.pure _)

theorem executeWhile_succ (h : Compositional P) (ih : Throughout P fuel) (condition : Expr)
    (body : Stmt) : P Flow (executeWhile (fuel + 1) condition body) := by
  refine h.bind (ih.evaluate condition) fun v => ?_
  split
  · refine h.bind (ih.execute body) fun flow => ?_
    cases flow with
    | normal => exact ih.executeWhile condition body
    | returned value => exact h.silent (.pure _)
  · exact h.silent (.pure _)

/-- A compositional property holds of all functions of the evaluator, with any fuel. -/
theorem throughout (h : Compositional P) (fuel : Nat) : Throughout P fuel := by
  induction fuel with
  | zero => exact h.zero
  | succ fuel ih =>
    exact {
      evaluate := h.evaluate_succ ih
      evaluateAll := h.evaluateAll_succ ih
      call := h.call_succ ih
      invoke := h.invoke_succ ih
      execute := h.execute_succ ih
      executeAll := h.executeAll_succ ih
      executeWhile := h.executeWhile_succ ih }

theorem executeProgram (h : Compositional P) (fuel : Nat) (program : List Stmt) :
    P Unit (executeProgram fuel program) := by
  induction program with
  | nil => exact h.silent (.pure ())
  | cons first rest ih => exact h.bind ((h.throughout fuel).execute first) fun _ => ih

end Compositional

end Treewalk
