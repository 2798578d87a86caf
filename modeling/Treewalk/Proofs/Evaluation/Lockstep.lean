import Treewalk.Proofs.Evaluation.Declarations

/-!
# Runs in step

Twin programs run in step: on the machines of a pair that stands at their place, they evaluate to
twin values, print the same lines, and halt for the same reasons. The statement for all functions of
the evaluator is proved at once, by induction on the fuel.

## Main definitions

* `Flow.Twin` — two ends of a statement
* `Lockstep` — the statement for all functions of the evaluator

## Main results

* `lockstep` — the functions of the evaluator run in step with any fuel
* `Runs.executeProgram`, `Runs.interpret` — whole programs
-/

namespace Treewalk

open Eval

variable {R : Place → Moment → Prop} {S : Setting} {p p' : Pair}

/-- Two statements end alike, at values that behave alike. -/
inductive Flow.Twin (R : Place → Moment → Prop) (S : Setting) (p : Pair) : Flow → Flow → Prop
  | normal : Flow.Twin R S p .normal .normal
  | returned {v v' : Value} (h : Value.Twin R S p v v') :
      Flow.Twin R S p (.returned v) (.returned v')

theorem Flow.Twin.mono {flow flow' : Flow} (h : p.Extends p') (hf : Flow.Twin R S p flow flow') :
    Flow.Twin R S p' flow flow' := by
  cases hf with
  | normal => exact .normal
  | returned hv => exact .returned (hv.mono h)

theorem Flow.Twin.result {flow flow' : Flow} (h : Flow.Twin R S p flow flow') :
    Value.Twin R S p flow.result flow'.result := by
  cases h with
  | normal => exact .nil
  | returned hv => exact hv

theorem Value.twin_ofLiteral (value : Literal) :
    Value.Twin R S p (.ofLiteral value) (.ofLiteral value) := by
  cases value with
  | number => exact .number
  | string => exact .string
  | boolean => exact .boolean
  | nil => exact .nil

/-- A block stands in a frame of its own. -/
theorem Pair.At.block {place : Place} {marks : List Bool} {mark : Bool} (hat : p.At R S place marks)
    (hmark : mark = true → S.old ≠ S.new) :
    ((p.newFrame p.left.current (S.frame p.left.current) mark).setCurrent S
      p.left.store.frames.size).At R S
      (place.enter .empty p.left.store.frames.size) (mark :: marks) := by
  have hext := p.extends_newFrame p.left.current (S.frame p.left.current) mark
  have hlt : p.left.store.frames.size <
      (p.left.store.newFrame (some p.left.current)).2.frames.size :=
    (p.left.store.size_newFrame _).symm ▸ Nat.lt_succ_self _
  refine ⟨(hat.sound.newFrame _ hmark).setCurrent _, hat.text_eq, .enter hlt (if_pos rfl) (by simp)
    ?_ (hat.mirrors.mono hext.store hext.marked_eq)⟩
  show (p.left.store.newFrame _).2.enclosing? _ = _
  rw [Store.enclosing?_newFrame, if_pos rfl]

/-- With the given fuel, twin programs run in step. -/
structure Lockstep (R : Place → Moment → Prop) (S : Setting) (fuel : Nat) : Prop where
  evaluate {p : Pair} {place : Place} {marks : List Bool} {e e' : Expr} (hat : p.At R S place marks)
    (he : Expr.Twin (S.edit place.origin) (p.linked S place.origin) place.site marks e e')
    (hh : Happens R place (.evaluate fuel e p.left)) :
    Runs R S p (evaluate fuel e) (evaluate fuel e') (Value.Twin R S)
  evaluateAll {p : Pair} {place : Place} {marks : List Bool} {es es' : List Expr}
    (hat : p.At R S place marks)
    (hes : Expr.TwinAll (S.edit place.origin) (p.linked S place.origin) place.site marks es es')
    (hh : Happens R place (.evaluateAll fuel es p.left)) :
    Runs R S p (evaluateAll fuel es) (evaluateAll fuel es') fun p' =>
      List.Forall₂ (Value.Twin R S p')
  call {p : Pair} {place : Place} {v v' : Value} {paren : Token} {args args' : List Value}
    (hp : p.Sound R S) (htext : place.text = p.text) (hv : Value.Twin R S p v v')
    (hargs : List.Forall₂ (Value.Twin R S p) args args')
    (hh : Happens R place (.call fuel v paren args p.left)) :
    Runs R S p (call fuel v paren args) (call fuel v' (paren.down (S.lines place.origin)) args')
      (Value.Twin R S)
  invoke {p : Pair} {place : Place} {c c' : Closure} {paren : Token} {args args' : List Value}
    (hp : p.Sound R S) (htext : place.text = p.text) (hc : Closure.Twin R S p c c')
    (hargs : List.Forall₂ (Value.Twin R S p) args args') (harity : args.length = c.arity)
    (hh : Happens R place (.invoke fuel c paren args p.left)) :
    Runs R S p (invoke fuel c paren args)
      (invoke fuel c' (paren.down (S.lines place.origin)) args') (Value.Twin R S)
  execute {p : Pair} {place : Place} {marks : List Bool} {s s' : Stmt} (hat : p.At R S place marks)
    (hs : Stmt.Twin (S.edit place.origin) (p.linked S place.origin) place.site marks s s')
    (hh : Happens R place (.execute fuel s p.left)) :
    Runs R S p (execute fuel s) (execute fuel s') fun p' flow flow' =>
      Flow.Twin R S p' flow flow' ∧ p'.At R S (place.behind s) marks
  executeAll {p : Pair} {place : Place} {marks : List Bool} {ss ss' : List Stmt}
    (hat : p.At R S place marks)
    (hss : Stmt.TwinAll (S.edit place.origin) (p.linked S place.origin) place.site marks ss ss')
    (hh : Happens R place (.executeAll fuel ss p.left)) :
    Runs R S p (executeAll fuel ss) (executeAll fuel ss') (Flow.Twin R S)
  executeWhile {p : Pair} {place : Place} {marks : List Bool} {condition condition' : Expr}
    {body body' : Stmt} (hat : p.At R S place marks)
    (hcondition : Expr.Twin (S.edit place.origin) (p.linked S place.origin) place.site marks
      condition condition')
    (hbody : Stmt.Twin (S.edit place.origin) (p.linked S place.origin) place.site marks body body')
    (hb : (body.analyse place.site).2 = place.site)
    (hh : Happens R place (.executeWhile fuel condition body p.left)) :
    Runs R S p (executeWhile fuel condition body) (executeWhile fuel condition' body')
      (Flow.Twin R S)

/-- Without fuel nothing happens. -/
theorem lockstep_zero : Lockstep R S 0 where
  evaluate hat _ _ := .exhausted hat.sound
  evaluateAll hat _ _ := .exhausted hat.sound
  call hp _ _ _ _ := .exhausted hp
  invoke hp _ _ _ _ _ := .exhausted hp
  execute hat _ _ := .exhausted hat.sound
  executeAll hat _ _ := .exhausted hat.sound
  executeWhile hat _ _ _ _ := .exhausted hat.sound

namespace Lockstep

variable {fuel : Nat} {place : Place} {marks : List Bool}

/-! ### Expressions -/

theorem evaluate_succ (ih : Lockstep R S fuel) {e e' : Expr} (hat : p.At R S place marks)
    (he : Expr.Twin (S.edit place.origin) (p.linked S place.origin) place.site marks e e')
    (hh : Happens R place (.evaluate (fuel + 1) e p.left)) :
    Runs R S p (Eval.evaluate (fuel + 1) e) (Eval.evaluate (fuel + 1) e') (Value.Twin R S) := by
  cases he with
  | literal => exact .pure hat.sound (Value.twin_ofLiteral _)
  | group h => exact ih.evaluate hat h hh.group
  | @unary operator e e' h =>
    refine (ih.evaluate hat h hh.operand).bind ?_
    exact fun p₁ v v' hk hv hvtwin => Runs.orFailAt hk.sound (Runs.applyUnary hvtwin _) hh
      (fun _ => .operand hv) rfl
  | binary hleft hright =>
    refine (ih.evaluate hat hleft hh.left).bind ?_
    rintro p₁ v v' hk₁ hv hvtwin
    rw [← hk₁.linked_eq] at hright
    refine (ih.evaluate (hat.kept hk₁) hright (hh.right hv)).bind ?_
    intro p₂ w w' hk₂ hw hwtwin
    exact Runs.orFailAt hk₂.sound (Runs.applyBinary (hvtwin.mono hk₂.extends_) hwtwin _) hh
      (fun _ => .operands hv hw) rfl
  | @logical operator _ _ _ _ hleft hright =>
    refine (ih.evaluate hat hleft hh.decider).bind ?_
    rintro p₁ v v' hk hv hvtwin
    rw [Token.kind_down, Runs.decides_eq hvtwin]
    cases hdecides : v.decides operator.kind with
    | true => exact .pure hk.sound hvtwin
    | false =>
      rw [← hk.linked_eq] at hright
      exact ih.evaluate (hat.kept hk) hright (hh.alternative hv hdecides)
  | «variable» h => exact Runs.lookUp hat h (by simp) hh.read
  | assign h hvalue =>
    refine (ih.evaluate hat hvalue hh.assigned).bind ?_
    rintro p₁ v v' hk hv hvtwin
    rw [← hk.linked_eq] at h
    refine (Runs.assign (hat.kept hk) h (hh.write hv) hvtwin).bind_pure ?_
    exact fun p₂ _ _ hk₂ _ => hvtwin.mono hk₂.extends_
  | call hcallee harguments =>
    refine (ih.evaluate hat hcallee hh.callee).bind ?_
    rintro p₁ v v' hk₁ hv hvtwin
    rw [← hk₁.linked_eq] at harguments
    refine (ih.evaluateAll (hat.kept hk₁) harguments (hh.arguments hv)).bind ?_
    intro p₂ args args' hk₂ hargs hargsTwin
    exact ih.call hk₂.sound (hat.kept (hk₁.trans hk₂)).text_eq (hvtwin.mono hk₂.extends_) hargsTwin
      (hh.call hv hargs)
  | property h =>
    refine (ih.evaluate hat h hh.object).bind ?_
    rintro p₁ v v' hk hv hvtwin
    cases hvtwin with
    | «instance» ho =>
      exact Runs.getProperty hk.sound ho (hat.kept hk).text_eq hh hv
    | _ => exact Runs.fail hk.sound hh (.property hv (by simp)) rfl
  | setProperty h hvalue =>
    refine (ih.evaluate hat h hh.target).bind ?_
    rintro p₁ v v' hk₁ hv hvtwin
    cases hvtwin with
    | «instance» ho =>
      rw [← hk₁.linked_eq] at hvalue
      refine (ih.evaluate (hat.kept hk₁) hvalue (hh.field hv)).bind ?_
      rintro p₂ w w' hk₂ - hw
      refine (Runs.setProperty hk₂.sound (ho.mono hk₂.extends_) hw).bind_pure ?_
      exact fun p₃ _ _ hk₃ _ => hw.mono hk₃.extends_
    | _ => exact Runs.fail hk₁.sound hh (.field hv (by simp)) rfl
  | this h => exact Runs.lookUp hat h (by simp) hh.this
  | super h => exact Runs.superMethod hat h hh

theorem evaluateAll_succ (ih : Lockstep R S fuel) {es es' : List Expr}
    (hat : p.At R S place marks)
    (hes : Expr.TwinAll (S.edit place.origin) (p.linked S place.origin) place.site marks es es')
    (hh : Happens R place (.evaluateAll (fuel + 1) es p.left)) :
    Runs R S p (Eval.evaluateAll (fuel + 1) es) (Eval.evaluateAll (fuel + 1) es') fun p' =>
      List.Forall₂ (Value.Twin R S p') := by
  cases hes with
  | nil => exact .pure hat.sound .nil
  | cons h hrest =>
    refine (ih.evaluate hat h hh.first).bind ?_
    rintro p₁ v v' hk hv hvtwin
    rw [← hk.linked_eq] at hrest
    refine (ih.evaluateAll (hat.kept hk) hrest (hh.others hv)).bind_pure ?_
    exact fun p₂ _ _ hk₂ hvs => .cons (hvtwin.mono hk₂.extends_) hvs

/-! ### Calls -/

theorem initializer?_twin {c c' : Class} (h : Class.Twin R S p c c') :
    Option.Rel (Closure.MethodTwin R S p) c.initializer? c'.initializer? :=
  Runs.findMethod? h "init"

theorem arity_eq {c c' : Class} (h : Class.Twin R S p c c') : c'.arity = c.arity := by
  have hrel := initializer?_twin h
  unfold Class.arity
  cases hi : c.initializer? with
  | none => rw [Runs.optionRel_none_left (hi ▸ hrel :)]
  | some method =>
    obtain ⟨method', hi', hmethod⟩ := Runs.optionRel_some_left (hi ▸ hrel :)
    obtain ⟨_, _, _, _, _, _, _, hroutine⟩ := hmethod.owned
    rw [hi']
    exact hroutine.arity_eq

theorem forall₂_mono {vs vs' : List Value} (h : p.Extends p')
    (hvs : List.Forall₂ (Value.Twin R S p) vs vs') : List.Forall₂ (Value.Twin R S p') vs vs' :=
  hvs.imp fun _ _ => Value.Twin.mono h

theorem call_succ (ih : Lockstep R S fuel) {v v' : Value} {paren : Token} {args args' : List Value}
    (hp : p.Sound R S) (htext : place.text = p.text) (hv : Value.Twin R S p v v')
    (hargs : List.Forall₂ (Value.Twin R S p) args args')
    (hh : Happens R place (.call (fuel + 1) v paren args p.left)) :
    Runs R S p (Eval.call (fuel + 1) v paren args)
      (Eval.call (fuel + 1) v' (paren.down (S.lines place.origin)) args') (Value.Twin R S) := by
  have hlength : args'.length = args.length := hargs.length_eq.symm
  cases hv with
  | @native function hused =>
    cases function
    simp only [Eval.call, hlength]
    refine (Runs.checkArity hp hh rfl rfl).bind ?_
    rintro _ _ _ - - ⟨rfl, -⟩
    exact Runs.readClock hp hused
  | @function stamp c c' hc =>
    obtain ⟨_, _, _, _, _, _, _, _, hroutine⟩ := hc.made
    have harity : c'.arity = c.arity := hroutine.arity_eq
    simp only [Eval.call, hlength, harity]
    refine (Runs.checkArity hp hh rfl rfl).bind ?_
    rintro _ _ _ - - ⟨rfl, hgiven⟩
    exact ih.invoke hp htext hc hargs hgiven (hh.invoke hgiven)
  | @«class» c c' hc =>
    simp only [Eval.call, hlength, arity_eq hc]
    refine (Runs.checkArity hp hh rfl rfl).bind ?_
    rintro _ _ _ - - ⟨rfl, hgiven⟩
    refine (Runs.newInstance hp hc).bind ?_
    rintro p₁ object object' hk₁ hobject ho
    have hrel := initializer?_twin (hc.mono hk₁.extends_)
    cases hi : c.initializer? with
    | none =>
      rw [Runs.optionRel_none_left (hi ▸ hrel :)]
      exact .pure hk₁.sound (.instance ho)
    | some method =>
      obtain ⟨method', hi', hmethod⟩ := Runs.optionRel_some_left (hi ▸ hrel :)
      rw [hi']
      refine (Runs.bindReceiver hk₁.sound hmethod ho (htext.trans hk₁.text_eq.symm)
        (hh.bindInitializer hgiven hobject hi)).with_eq.bind ?_
      rintro p₂ bound bound' hk₂ hbound ⟨hb, hboundEq⟩
      have harity : args.length = bound.arity := by
        rw [hgiven, Class.arity, hi, Closure.arity, Eval.routine_bindReceiver hbound]
        rfl
      refine (ih.invoke hk₂.sound (htext.trans (hk₁.trans hk₂).text_eq.symm) hb
        (forall₂_mono (hk₁.trans hk₂).extends_ hargs) harity
        (hh.invokeInitializer hgiven hobject hi hbound)).bind_pure ?_
      exact fun p₃ _ _ hk₃ _ => .instance (ho.mono (hk₂.trans hk₃).extends_)
  | _ => exact Runs.fail hp hh (.notCallable rfl) rfl

/-! ### Bodies -/

/-- The arguments of a call, each bound to its parameter. -/
theorem bindings {r : Edit} (hr : r.toRespelling = S.toRespelling) {mark : Bool}
    {parameters parameters' : List Token} {args args' : List Value}
    (hparameters : List.Forall₂ (DeclaresTwins r (mark :: marks)) parameters parameters')
    (hargs : List.Forall₂ (Value.Twin R S p) args args') :
    List.Forall₂ (Runs.BindingsTwin R S p mark) ((parameters.map Token.lexeme).zip args)
      ((parameters'.map Token.lexeme).zip args') := by
  induction hparameters generalizing args args' with
  | nil => exact .nil
  | cons hname _ ih =>
    cases hargs with
    | nil => exact .nil
    | cons hv hvs => exact .cons ⟨hr ▸ hname.spells, hname.not_isReserved, hv⟩ (ih hvs)

/-- The frame of a call is that of the scope of the parameters. -/
theorem callFrame {site : Site} (context : RoutineContext) (origin : Nat)
    {enclosing enclosing' : FrameId} {frames : List FrameId} {mark : Bool}
    {parameters parameters' : List Token}
    {args args' : List Value} (hp : p.Sound R S) (henclosing : enclosing' = S.frame enclosing)
    (hmirrors : Mirrors p.left.store p.marked site.scopes marks frames enclosing)
    (hmark : mark = true → S.old ≠ S.new)
    (hparameters : List.Forall₂ (DeclaresTwins (S.edit origin) (mark :: marks)) parameters
      parameters')
    (hargs : List.Forall₂ (Value.Twin R S p) args args')
    (harity : args.length = parameters.length) :
    Runs R S p (callFrame enclosing parameters args) (Eval.callFrame enclosing' parameters' args')
      fun p' frame frame' => frame' = S.frame frame ∧
        Mirrors p'.left.store p'.marked (site.body context parameters).scopes (mark :: marks)
          (frame :: frames) frame := by
  refine (Runs.newFrame hp henclosing hmark).bind ?_
  rintro p₁ frame _ hk₁ - ⟨rfl, rfl, rfl⟩
  have hlt : p.left.store.frames.size < (p.left.store.newFrame (some enclosing)).2.frames.size :=
    (p.left.store.size_newFrame _).symm ▸ Nat.lt_succ_self _
  have hmarked : (p.newFrame enclosing enclosing' mark).marked p.left.store.frames.size = mark :=
    if_pos rfl
  have hbindings := bindings rfl hparameters (forall₂_mono hk₁.extends_ hargs)
  refine (Runs.defineAllIn hk₁.sound hlt (hmarked.symm ▸ hbindings)).bind_pure ?_
  rintro p₂ _ _ hk₂ hnames
  have hk := hk₁.trans hk₂
  have houter : p₂.left.store.enclosing? p.left.store.frames.size = some enclosing := by
    rw [hk₂.extends_.store.enclosing?_eq _ hlt]
    show (p.left.store.newFrame _).2.enclosing? _ = _
    rw [Store.enclosing?_newFrame, if_pos rfl]
  have hempty : Mirrors p₂.left.store p₂.marked
      ({ site with routine := context }.enter .empty).scopes
      (mark :: marks) (p.left.store.frames.size :: frames) p.left.store.frames.size :=
    .enter (hlt.trans_le hk₂.extends_.store.size_le)
      ((hk₂.extends_.marked_eq _ hlt).trans hmarked) (by simp) houter
      (hmirrors.mono hk.extends_.store hk.extends_.marked_eq)
  refine ⟨rfl, hempty.introduceAll fun parameter hparameter => hnames _ ?_⟩
  have hle : (parameters.map Token.lexeme).length ≤ args.length := by
    rw [List.length_map]
    exact harity.ge
  rw [List.map_fst_zip hle]
  exact List.mem_map_of_mem hparameter

theorem invoke_succ (ih : Lockstep R S fuel) {c c' : Closure} {paren : Token}
    {args args' : List Value} (hp : p.Sound R S) (htext : place.text = p.text)
    (hc : Closure.Twin R S p c c')
    (hargs : List.Forall₂ (Value.Twin R S p) args args') (harity : args.length = c.arity)
    (hh : Happens R place (.invoke (fuel + 1) c paren args p.left)) :
    Runs R S p (Eval.invoke (fuel + 1) c paren args)
      (Eval.invoke (fuel + 1) c' (paren.down (S.lines place.origin)) args') (Value.Twin R S) := by
  obtain ⟨made, marks, context, m, hmake, hmade, hbefore, hmirrors, hroutine⟩ := hc.made
  obtain ⟨⟨name, parameters, body⟩, enclosing, isInitializer⟩ := c
  obtain ⟨⟨name', parameters', body'⟩, enclosing', isInitializer'⟩ := c'
  obtain rfl : isInitializer' = isInitializer := hc.isInitializer_eq
  cases hroutine with
  | mk mark hmark hparameters hbody =>
  rw [invoke_succ_eq, invoke_succ_eq]
  refine (callFrame context made.origin hp hc.frame_eq hmirrors hmark hparameters hargs harity).bind
    ?_
  rintro p₁ frame _ hk hframe ⟨rfl, hmirrors₁⟩
  have hat : (p₁.setCurrent S frame).At R S
      ((made.body context parameters frame).during place.text) (mark :: marks) :=
    ⟨hk.sound.setCurrent _, htext.trans hk.text_eq.symm, hmirrors₁⟩
  have hbody₁ : Stmt.TwinAll (S.edit made.origin) ((p₁.setCurrent S frame).linked S made.origin)
      (made.site.body context parameters) (mark :: marks) body body' := by
    show Stmt.TwinAll _ (p₁.linked S made.origin) _ _ _ _
    rw [hk.linked_eq]
    exact hbody
  have hrun := ih.executeAll hat hbody₁ (hh.body hmake (htext ▸ hmade) hbefore hframe)
  have hmono (p' : Pair) (flow flow' : Flow) (_ : p₁.Extends p')
      (hflow : Flow.Twin R S p' flow flow') :
      Flow.Twin R S (p'.setCurrent S p₁.left.current) flow flow' :=
    hflow.mono (p'.extends_setCurrent S _)
  refine (Runs.inFrame hk.sound rfl hrun hmono).bind ?_
  rintro p₂ flow flow' hk₂ - hflow
  have hk := hk.trans hk₂
  cases isInitializer' with
  | true => exact Runs.receiverOf hk₂.sound (hc.mono hk.extends_) rfl hh hk.extends_.store rfl
  | false => exact .pure hk₂.sound hflow.result

/-! ### Statements -/

theorem execute_succ (ih : Lockstep R S fuel) {s s' : Stmt} (hat : p.At R S place marks)
    (hs : Stmt.Twin (S.edit place.origin) (p.linked S place.origin) place.site marks s s')
    (hh : Happens R place (.execute (fuel + 1) s p.left)) :
    Runs R S p (Eval.execute (fuel + 1) s) (Eval.execute (fuel + 1) s') fun p' flow flow' =>
      Flow.Twin R S p' flow flow' ∧ p'.At R S (place.behind s) marks := by
  cases hs with
  | expression h =>
    refine (ih.evaluate hat h hh.expression).bind_pure ?_
    exact fun p₁ _ _ hk _ => ⟨.normal, hat.kept hk⟩
  | print h =>
    refine (ih.evaluate hat h hh.print).bind ?_
    rintro p₁ v v' hk - hv
    rw [Runs.text_eq hv]
    refine (Runs.printLine hk.sound).bind_pure ?_
    exact fun p₂ _ _ hk₂ _ => ⟨.normal, hat.kept (hk.trans hk₂)⟩
  | declaration hname =>
    refine (Runs.define hat hname .nil).bind_pure ?_
    exact fun p₁ _ _ hk hbound => ⟨.normal, hk.sound, (hat.kept hk).text_eq,
      (hat.kept hk).mirrors.introduce (hk.current_eq.symm ▸ hbound)⟩
  | @definition _ _ name _ _ _ hname hvalue =>
    have hat' : p.At R S { place with site := (place.site.declare name).2 } marks :=
      ⟨hat.sound, hat.text_eq, hat.mirrors.declare name⟩
    refine (ih.evaluate hat' hvalue hh.definition).bind ?_
    rintro p₁ v v' hk₁ - hv
    refine (Runs.define (hat.kept hk₁) hname hv).bind_pure ?_
    rintro p₂ _ _ hk₂ hbound
    exact ⟨.normal, hk₂.sound, (hat.kept (hk₁.trans hk₂)).text_eq,
      (hat.kept (hk₁.trans hk₂)).mirrors.introduce (hk₂.current_eq.symm ▸ hbound)⟩
  | @block _ _ body body' mark hmark h =>
    refine .get_bind ?_
    rw [hat.sound.current_eq]
    refine (Runs.newFrame hat.sound rfl hmark).bind ?_
    rintro p₁ frame _ hk hframe ⟨rfl, rfl, rfl⟩
    have hrun := ih.executeAll (hat.block hmark) h (hh.block hframe)
    have hmono (p' : Pair) (flow flow' : Flow)
        (_ : (p.newFrame p.left.current (S.frame p.left.current) mark).Extends p')
        (hflow : Flow.Twin R S p' flow flow') :
        Flow.Twin R S (p'.setCurrent S p.left.current) flow flow' :=
      hflow.mono (p'.extends_setCurrent S _)
    refine (Runs.inFrame hk.sound rfl hrun hmono).mono ?_
    exact fun p₂ _ _ hk₂ hflow => ⟨hflow, hat.kept (hk.trans hk₂)⟩
  | @ifThen _ _ condition _ branch _ hcondition hbranch hb =>
    refine (ih.evaluate hat hcondition hh.condition).bind ?_
    rintro p₁ v v' hk hv hvtwin
    have hbehind : place.behind (.if condition branch none) = place.behind branch := rfl
    rw [Runs.isTruthy_eq hvtwin]
    cases htrue : v.isTruthy with
    | true =>
      rw [← hk.linked_eq] at hbranch
      exact ih.execute (hat.kept hk) hbranch (hh.thenBranch hv htrue)
    | false =>
      refine .pure hk.sound ⟨.normal, ?_⟩
      rw [hbehind, Place.behind, hb]
      exact hat.kept hk
  | @ifElse _ _ condition _ branch _ other _ hcondition hbranch hb hother ho =>
    refine (ih.evaluate hat hcondition hh.condition).bind ?_
    rintro p₁ v v' hk hv hvtwin
    have hsite : ((Stmt.if condition branch (some other)).analyse place.site).2 = place.site := by
      show (other.analyse (branch.analyse place.site).2).2 = place.site
      rw [hb, ho]
    rw [Runs.isTruthy_eq hvtwin, Place.behind, hsite]
    cases htrue : v.isTruthy with
    | true =>
      rw [← hk.linked_eq] at hbranch
      refine (ih.execute (hat.kept hk) hbranch (hh.thenBranch hv htrue)).mono ?_
      exact fun p₂ _ _ hk₂ hflow => ⟨hflow.1, hat.kept (hk.trans hk₂)⟩
    | false =>
      rw [← hk.linked_eq] at hother
      refine (ih.execute (hat.kept hk) hother (hh.elseBranch hv htrue)).mono ?_
      exact fun p₂ _ _ hk₂ hflow => ⟨hflow.1, hat.kept (hk.trans hk₂)⟩
  | @«while» _ _ condition _ body _ hcondition hbody hb =>
    have hsite : ((Stmt.while condition body).analyse place.site).2 = place.site := hb
    rw [Place.behind, hsite]
    refine (ih.executeWhile hat hcondition hbody hb hh.loop).mono ?_
    exact fun p₁ _ _ hk hflow => ⟨hflow, hat.kept hk⟩
  | function hname h =>
    refine (Runs.declareFunction hat hname h hh).bind_pure ?_
    exact fun p₁ _ _ hk hbound => ⟨.normal, hk.sound, (hat.kept hk).text_eq,
      (hat.kept hk).mirrors.introduce (hk.current_eq.symm ▸ hbound)⟩
  | «return» => exact .pure hat.sound ⟨.returned .nil, hat⟩
  | returnValue h =>
    refine (ih.evaluate hat h hh.returned).bind_pure ?_
    exact fun p₁ _ _ hk hv => ⟨.returned hv, hat.kept hk⟩
  | «class» hname hsuperclass hmethods =>
    refine (Runs.declareClass hat hname hsuperclass hmethods hh).bind_pure ?_
    exact fun p₁ _ _ hk hbound => ⟨.normal, hk.sound, (hat.kept hk).text_eq,
      (hat.kept hk).mirrors.introduce (hk.current_eq.symm ▸ hbound)⟩

theorem executeAll_succ (ih : Lockstep R S fuel) {ss ss' : List Stmt}
    (hat : p.At R S place marks)
    (hss : Stmt.TwinAll (S.edit place.origin) (p.linked S place.origin) place.site marks ss ss')
    (hh : Happens R place (.executeAll (fuel + 1) ss p.left)) :
    Runs R S p (Eval.executeAll (fuel + 1) ss) (Eval.executeAll (fuel + 1) ss')
      (Flow.Twin R S) := by
  cases hss with
  | nil => exact .pure hat.sound .normal
  | cons h hrest =>
    refine (ih.execute hat h hh.statement).bind ?_
    rintro p₁ flow flow' hk hs ⟨hflow, hat₁⟩
    cases hflow with
    | normal =>
      rw [← hk.linked_eq] at hrest
      exact ih.executeAll hat₁ hrest (hh.statements hs)
    | returned hv => exact .pure hk.sound (.returned hv)

theorem executeWhile_succ (ih : Lockstep R S fuel) {condition condition' : Expr}
    {body body' : Stmt} (hat : p.At R S place marks)
    (hcondition : Expr.Twin (S.edit place.origin) (p.linked S place.origin) place.site marks
      condition condition')
    (hbody : Stmt.Twin (S.edit place.origin) (p.linked S place.origin) place.site marks body body')
    (hb : (body.analyse place.site).2 = place.site)
    (hh : Happens R place (.executeWhile (fuel + 1) condition body p.left)) :
    Runs R S p (Eval.executeWhile (fuel + 1) condition body)
      (Eval.executeWhile (fuel + 1) condition' body') (Flow.Twin R S) := by
  refine (ih.evaluate hat hcondition hh.check).bind ?_
  rintro p₁ v v' hk₁ hv hvtwin
  rw [Runs.isTruthy_eq hvtwin]
  cases htrue : v.isTruthy with
  | false => exact .pure hk₁.sound .normal
  | true =>
    have hbody₁ := (hk₁.linked_eq place.origin).symm ▸ hbody
    refine (ih.execute (hat.kept hk₁) hbody₁ (hh.round hv htrue)).bind ?_
    rintro p₂ flow flow' hk₂ hflow ⟨hflowTwin, -⟩
    have hk := hk₁.trans hk₂
    cases hflowTwin with
    | normal =>
      rw [← hk.linked_eq] at hcondition hbody
      exact ih.executeWhile (hat.kept hk) hcondition hbody hb (hh.again hv htrue hflow)
    | returned hw => exact .pure hk₂.sound (.returned hw)

end Lockstep

/-- Twin programs run in step. -/
theorem lockstep (R : Place → Moment → Prop) (S : Setting) (fuel : Nat) :
    Lockstep R S fuel := by
  induction fuel with
  | zero => exact lockstep_zero
  | succ fuel ih =>
    exact {
      evaluate := ih.evaluate_succ
      evaluateAll := ih.evaluateAll_succ
      call := ih.call_succ
      invoke := ih.invoke_succ
      execute := ih.execute_succ
      executeAll := ih.executeAll_succ
      executeWhile := ih.executeWhile_succ }

/-! ### Programs -/

namespace Runs

variable {place : Place} {marks : List Bool}

theorem executeProgram {fuel : Nat} {ss ss' : List Stmt} (hat : p.At R S place marks)
    (hss : Stmt.TwinAll (S.edit place.origin) (p.linked S place.origin) place.site marks ss ss')
    (hh : Happens R place (.program fuel ss p.left)) :
    Runs R S p (executeProgram fuel ss) (Eval.executeProgram fuel ss') fun _ _ _ => True := by
  induction ss generalizing ss' p place with
  | nil =>
    cases hss
    exact .pure hat.sound trivial
  | cons s rest ih =>
    cases hss with
    | cons h hrest =>
      refine ((lockstep R S fuel).execute hat h hh.top).bind ?_
      rintro p₁ flow flow' hk hs ⟨-, hat₁⟩
      rw [← hk.linked_eq] at hrest
      exact ih hat₁ hrest (hh.topRest hs)

/-- Twin programs print the same output and end alike. -/
theorem interpret {fuel : Nat} {ss ss' : List Stmt} (hat : p.At R S place marks)
    (hss : Stmt.TwinAll (S.edit place.origin) (p.linked S place.origin) place.site marks ss ss')
    (hh : Happens R place (.program fuel ss p.left)) :
    Runs R S p (interpret fuel ss) (Eval.interpret fuel ss') fun _ _ _ => True := by
  refine (executeProgram hat hss hh).bind ?_
  exact fun p₁ _ _ hk _ _ => flushOutput hk.sound

end Runs

end Treewalk
