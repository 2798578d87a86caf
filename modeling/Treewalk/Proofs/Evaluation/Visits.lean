import Treewalk.Proofs.Evaluation.Grounded
import Treewalk.Proofs.Evaluation.Lockstep

/-!
# Moments of a run

Whatever happens in a run happens at a sound machine that stands at its place, and what the machine
sets out to do is part of a program whose uses are linked to the tables of the machine. A program is
compared with itself here, so that the two machines of a pair are one.

## Main definitions

* `Pair.diagonal` — a machine beside itself
* `Visit` — what is known of a moment

## Main results

* `visit_of_happens` — it is known of all moments of a run if it is known of those it begins with
-/

namespace Treewalk

open Eval

/-- A machine beside itself. -/
def Pair.diagonal (m : Machine) (bound : NodeId) (text : Nat) : Pair :=
  ⟨m, m, bound, bound, text, fun _ => false⟩

variable {R : Place → Moment → Prop} {α : Type}

theorem Pair.setCurrent_diagonal (m : Machine) (bound : NodeId) (text : Nat) (frame : FrameId) :
    (Pair.diagonal m bound text).setCurrent .plain frame =
      .diagonal { m with current := frame } bound text := by
  rw [setCurrent, Setting.frame_plain]
  rfl

/-- A pair that a machine beside itself is kept as is a machine beside itself, if the two machines
are in the same state. -/
theorem Pair.Kept.eq_diagonal {m : Machine} {bound : NodeId} {text : Nat} {p : Pair}
    (hk : (Pair.diagonal m bound text).Kept R .plain p) (hright : p.right = p.left) :
    p = .diagonal p.left bound text := by
  have heq := hk.eq_mk rfl
  rwa [hright] at heq

/-- A computation in step with itself leaves one machine beside itself. -/
theorem Runs.diagonal {c : Eval α} {Q : Pair → α → α → Prop} {m m₁ : Machine} {bound : NodeId}
    {text : Nat} {a : α} (h : Runs R .plain (.diagonal m bound text) c c Q)
    (hc : c m = .ok a m₁) :
    (Pair.diagonal m bound text).Kept R .plain (.diagonal m₁ bound text) ∧
      Q (.diagonal m₁ bound text) a a := by
  obtain ⟨b, p, hc', rfl, hk, hQ⟩ := h.exists_of_ok hc
  obtain ⟨rfl, hright⟩ : a = b ∧ p.left = p.right := by
    have heq := hc.symm.trans hc'
    injection heq with ha hm
    exact ⟨ha, hm⟩
  rw [← hk.eq_diagonal hright.symm]
  exact ⟨hk, hQ⟩

section Definitions

variable (R) (p : Pair) (place : Place)

/-- What is known of the code that a moment is about. -/
def Moment.Visited : Moment → Prop
  | evaluate _ e _ =>
    ∃ marks, p.At R .plain place marks ∧
      Expr.Twin .plain (p.linked .plain place.origin) place.site marks e e
  | evaluateAll _ es _ =>
    ∃ marks, p.At R .plain place marks ∧
      Expr.TwinAll .plain (p.linked .plain place.origin) place.site marks es es
  | call _ callee _ arguments _ =>
    ∃ marks, p.At R .plain place marks ∧ Value.Twin R .plain p callee callee ∧
      List.Forall₂ (Value.Twin R .plain p) arguments arguments
  | invoke _ closure _ arguments _ =>
    ∃ marks, p.At R .plain place marks ∧ Closure.Twin R .plain p closure closure ∧
      List.Forall₂ (Value.Twin R .plain p) arguments arguments ∧ arguments.length = closure.arity
  | execute _ s _ =>
    ∃ marks, p.At R .plain place marks ∧
      Stmt.Twin .plain (p.linked .plain place.origin) place.site marks s s
  | executeAll _ ss _ | program _ ss _ =>
    ∃ marks, p.At R .plain place marks ∧
      Stmt.TwinAll .plain (p.linked .plain place.origin) place.site marks ss ss
  | executeWhile _ condition body _ =>
    ∃ marks, p.At R .plain place marks ∧
      Expr.Twin .plain (p.linked .plain place.origin) place.site marks condition condition ∧
      Stmt.Twin .plain (p.linked .plain place.origin) place.site marks body body ∧
      (body.analyse place.site).2 = place.site
  | access kind use _ =>
    ∃ marks, p.At R .plain place marks ∧ p.linked .plain place.origin kind place.site marks use use
  | own method _ =>
    ∃ marks, p.Sound R .plain ∧
      Mirrors p.left.store p.marked place.site.scopes marks place.frames method.frame ∧
      Routine.Twin .plain (p.linked .plain place.origin) (place.site.enter (.single "this"))
        (false :: marks)
        (methodContext method.routine.name) method.routine method.routine
  | bind method receiver _ =>
    ∃ marks, p.At R .plain place marks ∧ Closure.MethodTwin R .plain p method method ∧
      Instance.Twin R .plain p receiver receiver
  | make closure context _ =>
    ∃ marks, p.Sound R .plain ∧
      Mirrors p.left.store p.marked place.site.scopes marks place.frames closure.frame ∧
      Routine.Twin .plain (p.linked .plain place.origin) place.site marks context closure.routine
        closure.routine

end Definitions

/-- What is known of a moment. The node numbers given out when the `text`-th program was read, and
the table of that time, are `ids text`. -/
structure Visit (R : Place → Moment → Prop) (ids : Nat → Numbering) (place : Place)
    (moment : Moment) : Prop where
  depths_eq : moment.machine.depths = (ids place.text).table
  grounded : place.Grounded moment.machine.store
  visited : moment.Visited R (.diagonal moment.machine (ids place.text).bound place.text) place

section Steps

variable {ids : Nat → Numbering} {place : Place} {m m₁ : Machine}

/-- The tables stay those of the program while it is run. -/
theorem depths_eq_of_kept {bound : NodeId} {text : Nat}
    (hk : (Pair.diagonal m bound text).Kept R .plain (.diagonal m₁ bound text)) :
    m₁.depths = m.depths :=
  congrArg Numbering.table hk.leftIds_eq

/-- What was linked in an earlier program is linked in a later one. -/
theorem linked_le {text text' origin : Nat} (h : m.depths = (ids text).table)
    (h₁ : m₁.depths = (ids text').table) (hids : (ids text).Extends (ids text')) :
    (Pair.diagonal m (ids text).bound text).linked .plain origin ≤
      (Pair.diagonal m₁ (ids text').bound text').linked .plain origin := by
  have hleft : (Pair.diagonal m (ids text).bound text).leftIds = ids text := by
    rw [Pair.leftIds, Pair.diagonal, h]
  have hright : (Pair.diagonal m₁ (ids text').bound text').leftIds = ids text' := by
    rw [Pair.leftIds, Pair.diagonal, h₁]
  have hextends : (Pair.diagonal m (ids text).bound text).leftIds.Extends
      (Pair.diagonal m₁ (ids text').bound text').leftIds := by rwa [hleft, hright]
  exact Linked.mono hextends hextends

/-- Whatever a sound machine finds under a reserved name behaves like itself. -/
theorem twin_of_getAt {bound : NodeId} {text hops : Nat} {frame : FrameId} {name : Token}
    {v : Value}
    (hp : (Pair.diagonal m bound text).Sound R .plain) (h : m.store.getAt hops frame name = .ok v) :
    Value.Twin R .plain (.diagonal m bound text) v v := by
  obtain ⟨target, -, hlocal⟩ := Store.getAt_eq_ok_iff.1 h
  have hspells : Setting.plain.Spells ((Pair.diagonal m bound text).marked target) name.lexeme
      name.lexeme := Respelling.plain.spells_refl name.lexeme
  obtain ⟨v', hv', htwin⟩ := hp.exists_local? id hspells hlocal
  rw [Setting.frame_plain] at hv'
  obtain rfl : v = v' := Option.some.inj (hlocal.symm.trans hv')
  exact htwin

namespace Visit

variable {moment moment' : Moment}

/-- Another moment at the same place, on a machine that the first one led to. -/
theorem step (h : Visit R ids place moment)
    (hk : (Pair.diagonal moment.machine (ids place.text).bound place.text).Kept R .plain
      (.diagonal moment'.machine (ids place.text).bound place.text))
    (hmoment : moment'.Visited R (.diagonal moment'.machine (ids place.text).bound place.text)
      place) : Visit R ids place moment' :=
  ⟨(depths_eq_of_kept hk).trans h.depths_eq, h.grounded.mono hk.extends_.store, hmoment⟩

/-- Another moment at the same place, on the same machine. -/
theorem part (h : Visit R ids place moment) (hmachine : moment'.machine = moment.machine)
    (hmoment : moment'.Visited R (.diagonal moment'.machine (ids place.text).bound place.text)
      place) : Visit R ids place moment' :=
  ⟨hmachine ▸ h.depths_eq, hmachine ▸ h.grounded, hmoment⟩

theorem bindProperty {fuel : Nat} {object : Expr} {name : Token} {receiver : Instance}
    {method : Closure} (hh : Happens R place (.evaluate (fuel + 1) (.property object name) m))
    (h : Visit R ids place (.evaluate (fuel + 1) (.property object name) m))
    (hobject : evaluate fuel object m = .ok (.instance receiver) m₁)
    (hmethod : receiver.class.findMethod? name.lexeme = some method) :
    Visit R ids place (.bind method receiver m₁) := by
  obtain ⟨marks, hat, hcode⟩ := h.visited
  cases hcode with
  | property hcode =>
    obtain ⟨hk, hvalue⟩ := ((lockstep R .plain fuel).evaluate hat hcode hh.object).diagonal hobject
    cases hvalue with
    | «instance» ho =>
      have hfound := Runs.findMethod? ho.class_twin name.lexeme
      rw [hmethod] at hfound
      cases hfound with
      | some hm => exact h.step hk ⟨marks, hat.kept hk, hm, ho⟩

theorem bindSuper {fuel depth : Nat} {use : Use} {name this : Token} {c : Class}
    {receiver : Instance} {method : Closure}
    (h : Visit R ids place (.evaluate (fuel + 1) (.super use name) m))
    (hc : m.store.getAt (depth + 1) m.current use.token = .ok (.class c))
    (hreceiver : m.store.getAt depth m.current this = .ok (.instance receiver))
    (hmethod : c.findMethod? name.lexeme = some method) :
    Visit R ids place (.bind method receiver m) := by
  obtain ⟨marks, hat, -⟩ := h.visited
  refine h.part rfl ⟨marks, hat, ?_⟩
  cases twin_of_getAt hat.sound hc with
  | «class» hclass =>
    cases twin_of_getAt hat.sound hreceiver with
    | «instance» ho =>
      have hfound := Runs.findMethod? hclass name.lexeme
      rw [hmethod] at hfound
      cases hfound with
      | some hm => exact ⟨hm, ho⟩

theorem bindInitializer {fuel : Nat} {c : Class} {paren : Token} {values : List Value}
    {object : Instance} {initializer : Closure}
    (h : Visit R ids place (.call (fuel + 1) (.class c) paren values m))
    (hobject : newInstance c m = .ok object m₁) (hinitializer : c.initializer? = some initializer) :
    Visit R ids place (.bind initializer object m₁) := by
  obtain ⟨marks, hat, hvalue, -⟩ := h.visited
  cases hvalue with
  | «class» hc =>
    obtain ⟨hk, ho⟩ := (Runs.newInstance hat.sound hc).diagonal hobject
    have hfound := Lockstep.initializer?_twin (hc.mono hk.extends_)
    rw [hinitializer] at hfound
    cases hfound with
    | some hm => exact h.step hk ⟨marks, hat.kept hk, hm, ho⟩

theorem invokeInitializer {fuel : Nat} {c : Class} {paren : Token} {values : List Value}
    {object : Instance} {initializer bound : Closure} {m₂ : Machine}
    (hh : Happens R place (.call (fuel + 1) (.class c) paren values m))
    (h : Visit R ids place (.call (fuel + 1) (.class c) paren values m))
    (harity : values.length = c.arity) (hobject : newInstance c m = .ok object m₁)
    (hinitializer : c.initializer? = some initializer)
    (hbound : bindReceiver initializer object m₁ = .ok bound m₂) :
    Visit R ids place (.invoke fuel bound paren values m₂) := by
  have hbind := h.bindInitializer hobject hinitializer
  obtain ⟨marks, hat, hm, ho⟩ := hbind.visited
  obtain ⟨marks₀, hat₀, hvalue, hvalues⟩ := h.visited
  cases hvalue with
  | «class» hc =>
    obtain ⟨hk₀, -⟩ := (Runs.newInstance hat₀.sound hc).diagonal hobject
    obtain ⟨hk, hb⟩ := (Runs.bindReceiver hat.sound hm ho hat.text_eq
      (hh.bindInitializer harity hobject hinitializer)).diagonal hbound
    refine hbind.step hk ⟨marks, hat.kept hk, hb,
      Lockstep.forall₂_mono (hk₀.trans hk).extends_ hvalues, ?_⟩
    rw [harity, Class.arity, hinitializer, Closure.arity, routine_bindReceiver hbound]
    rfl

/-- The body of a call stands inside the scope of its parameters, around which are the scopes of the
place where its closure was made. -/
theorem body {caller : Place} {fuel : Nat} {closure : Closure} {context : RoutineContext}
    {paren : Token} {values : List Value} {frame : FrameId} {m₀ : Machine}
    (h : Visit R ids caller (.invoke (fuel + 1) closure paren values m))
    (hmake : Visit R ids place (.make closure context m₀))
    (hids : (ids place.text).Extends (ids caller.text)) (hbefore : m₀.store.Extends m.store)
    (hframe : callFrame closure.frame closure.routine.parameters values m = .ok frame m₁) :
    Visit R ids ((place.body context closure.routine.parameters frame).during caller.text)
      (.executeAll fuel closure.routine.body { m₁ with current := frame }) := by
  obtain ⟨marks, hat, -, hvalues, harity⟩ := h.visited
  obtain ⟨marks₀, -, hmirrors₀, hroutine₀⟩ := hmake.visited
  have hgrounded := hmake.grounded.mono hbefore
  obtain ⟨⟨name, parameters, body⟩, enclosing, isInitializer⟩ := closure
  have hmirrors :
      Mirrors m.store (fun _ => false) place.site.scopes marks₀ place.frames enclosing :=
    hmirrors₀.mono hbefore fun _ _ => rfl
  have hroutine := hroutine₀.imp (linked_le hmake.depths_eq h.depths_eq hids)
  cases hroutine with
  | mk mark hmark hparameters hbody =>
    have hcall := Lockstep.callFrame context place.origin hat.sound
      (Setting.frame_plain enclosing).symm hmirrors hmark hparameters hvalues harity
    obtain ⟨hk, -, hmirrors₁⟩ := hcall.diagonal hframe
    have hsound := hk.sound.setCurrent frame
    rw [Pair.setCurrent_diagonal] at hsound
    refine ⟨(depths_eq_of_kept hk).trans h.depths_eq, ?_, mark :: marks₀,
      ⟨hsound, rfl, hmirrors₁⟩, ?_⟩
    · exact ((hgrounded.mono hk.extends_.store).body context hparameters frame).during _
    · rw [← hk.linked_eq] at hbody
      exact hbody

/-- A method with a receiver is made inside the scope of `this`, around which are the scopes around
the methods of its class. -/
theorem bound {user : Place} {method bound : Closure} {receiver : Instance} {m₀ : Machine}
    (h : Visit R ids user (.bind method receiver m)) (hown : Visit R ids place (.own method m₀))
    (hids : (ids place.text).Extends (ids user.text)) (hbefore : m₀.store.Extends m.store)
    (hbound : bindReceiver method receiver m = .ok bound m₁) :
    Visit R ids ((place.inMethod method receiver bound.frame).during user.text)
      (.make bound (methodContext method.routine.name) m₁) := by
  obtain ⟨marks, hat, hm, ho⟩ := h.visited
  obtain ⟨marks₀, -, hmirrors₀, hroutine₀⟩ := hown.visited
  have hgrounded := hown.grounded.mono hbefore
  obtain ⟨hk, frame, rfl, -, hframe⟩ :=
    (Runs.bindReceiver_frame hat.sound hm.frame_eq ho).diagonal hbound
  have hmirrors : Mirrors m.store (fun _ => false) place.site.scopes marks₀ place.frames
      method.frame :=
    hmirrors₀.mono hbefore fun _ _ => rfl
  have hroutine := hroutine₀.imp (linked_le hown.depths_eq h.depths_eq hids)
  rw [← hk.linked_eq] at hroutine
  exact ⟨(depths_eq_of_kept hk).trans h.depths_eq,
    ((hgrounded.mono hk.extends_.store).inMethod method hframe.this_eq).during _, false :: marks₀,
    hk.sound,
    hframe.mirrors (hmirrors.mono hk.extends_.store hk.extends_.marked_eq), hroutine⟩

theorem block {fuel : Nat} {body : List Stmt} {frame : FrameId}
    (h : Visit R ids place (.execute (fuel + 1) (.block body) m))
    (hframe : newFrame m.current m = .ok frame m₁) :
    Visit R ids (place.enter .empty frame)
      (.executeAll fuel body { m₁ with current := frame }) := by
  obtain ⟨marks, hat, hcode⟩ := h.visited
  cases hcode with
  | block mark hmark hbody =>
    have henclosing : m.current = Setting.plain.frame m.current := (Setting.frame_plain _).symm
    have hnew := Runs.newFrame hat.sound henclosing hmark
    obtain ⟨hk, hpair, rfl, -⟩ := hnew.diagonal hframe
    have hblock : (Pair.diagonal { m₁ with current := m.store.frames.size }
        (ids place.text).bound place.text).At R .plain
        (place.enter .empty m.store.frames.size) (mark :: marks) := by
      have hat' : (((Pair.diagonal m (ids place.text).bound place.text).newFrame m.current
          (Setting.plain.frame m.current) mark).setCurrent .plain m.store.frames.size).At R .plain
          (place.enter .empty m.store.frames.size) (mark :: marks) := hat.block hmark
      rw [← Pair.setCurrent_diagonal, hpair]
      rwa [Setting.frame_plain] at hat'
    rw [← hk.linked_eq] at hbody
    exact ⟨(depths_eq_of_kept hk).trans h.depths_eq,
      (h.grounded.mono hk.extends_.store).enter _, mark :: marks, hblock, hbody⟩

theorem own {fuel : Nat} {name : Token} {superclass : Option Use} {methods : List Routine}
    {method : Routine} {c : Option Class} {frame : FrameId} {m₂ m₃ : Machine}
    (hh : Happens R place (.execute (fuel + 1) (.class name superclass methods) m))
    (h : Visit R ids place (.execute (fuel + 1) (.class name superclass methods) m))
    (hsuperclass : superclassClassOf superclass m = .ok c m₁)
    (hdefine : Eval.define name.lexeme .nil m₁ = .ok () m₂)
    (hframe : methodFrame c m₂ = .ok frame m₃) (hmethod : method ∈ methods) :
    Visit R ids ((place.introduce name).aroundMethods superclass c frame)
      (.own (methodClosure frame method) m₃) := by
  obtain ⟨marks, hat, hcode⟩ := h.visited
  cases hcode with
  | «class» hname hsuper hmethods =>
    obtain ⟨hk₁, hc, hsome⟩ := (Runs.superclassClassOf hat hsuper hh).diagonal hsuperclass
    obtain ⟨hk₂, hbound⟩ := (Runs.define (hat.kept hk₁) hname .nil).diagonal hdefine
    have hk := hk₁.trans hk₂
    have hat₂ : (Pair.diagonal m₂ _ _).At R .plain (place.introduce name) marks :=
      ⟨hk.sound, hat.text_eq, (hat.kept hk).mirrors.introduce (hk₂.current_eq.symm ▸ hbound)⟩
    obtain ⟨hk₃, -, hmirrors, hsuperFrame⟩ := (Runs.methodFrame hat₂
      (optionRel_imp (fun _ _ => Class.Twin.mono hk₂.extends_) hc) hsome).diagonal hframe
    have hk := hk.trans hk₃
    have hgrounded := (h.grounded.mono hk.extends_.store).introduce hname.not_isReserved
    have hroutine := hmethods.of_mem hmethod
    rw [Site.enterClass_eq, ← hk.linked_eq] at hroutine
    exact ⟨(depths_eq_of_kept hk).trans h.depths_eq, hgrounded.aroundMethods hsome hsuperFrame, _,
      hk.sound, hmirrors, hroutine⟩

end Visit

end Steps

/-- What is known of the moments a run begins with is known of all moments of the run. -/
theorem visit_of_happens {ids : Nat → Numbering}
    (hids : ∀ text text', text ≤ text' → (ids text).Extends (ids text'))
    (hroot : ∀ place moment, R place moment → Visit R ids place moment) {place : Place}
    {moment : Moment} (h : Happens R place moment) : Visit R ids place moment := by
  have step := lockstep R .plain
  induction h with
  | root h => exact hroot _ _ h
  | group h ih =>
    obtain ⟨marks, hat, hcode⟩ := ih.visited
    cases hcode with
    | group hinner => exact ih.part rfl ⟨marks, hat, hinner⟩
  | operand h ih =>
    obtain ⟨marks, hat, hcode⟩ := ih.visited
    cases hcode with
    | unary hoperand => exact ih.part rfl ⟨marks, hat, hoperand⟩
  | left h ih =>
    obtain ⟨marks, hat, hcode⟩ := ih.visited
    cases hcode with
    | binary hleft hright => exact ih.part rfl ⟨marks, hat, hleft⟩
  | right h hv ih =>
    obtain ⟨marks, hat, hcode⟩ := ih.visited
    cases hcode with
    | binary hleft hright =>
      obtain ⟨hk, -⟩ := ((step _).evaluate hat hleft h.left).diagonal hv
      exact ih.step hk ⟨marks, hat.kept hk, hk.linked_eq _ ▸ hright⟩
  | decider h ih =>
    obtain ⟨marks, hat, hcode⟩ := ih.visited
    cases hcode with
    | logical hleft hright => exact ih.part rfl ⟨marks, hat, hleft⟩
  | alternative h hv hdecides ih =>
    obtain ⟨marks, hat, hcode⟩ := ih.visited
    cases hcode with
    | logical hleft hright =>
      obtain ⟨hk, -⟩ := ((step _).evaluate hat hleft h.decider).diagonal hv
      exact ih.step hk ⟨marks, hat.kept hk, hk.linked_eq _ ▸ hright⟩
  | read h ih =>
    obtain ⟨marks, hat, hcode⟩ := ih.visited
    cases hcode with
    | «variable» hu => exact ih.part rfl ⟨marks, hat, hu⟩
  | assigned h ih =>
    obtain ⟨marks, hat, hcode⟩ := ih.visited
    cases hcode with
    | assign hu hvalue => exact ih.part rfl ⟨marks, hat, hvalue⟩
  | write h hv ih =>
    obtain ⟨marks, hat, hcode⟩ := ih.visited
    cases hcode with
    | assign hu hvalue =>
      obtain ⟨hk, -⟩ := ((step _).evaluate hat hvalue h.assigned).diagonal hv
      exact ih.step hk ⟨marks, hat.kept hk, hk.linked_eq _ ▸ hu⟩
  | callee h ih =>
    obtain ⟨marks, hat, hcode⟩ := ih.visited
    cases hcode with
    | call hcallee harguments => exact ih.part rfl ⟨marks, hat, hcallee⟩
  | arguments h hv ih =>
    obtain ⟨marks, hat, hcode⟩ := ih.visited
    cases hcode with
    | call hcallee harguments =>
      obtain ⟨hk, -⟩ := ((step _).evaluate hat hcallee h.callee).diagonal hv
      exact ih.step hk ⟨marks, hat.kept hk, hk.linked_eq _ ▸ harguments⟩
  | call h hv hvs ih =>
    obtain ⟨marks, hat, hcode⟩ := ih.visited
    cases hcode with
    | call hcallee harguments =>
      obtain ⟨hk, hvalue⟩ := ((step _).evaluate hat hcallee h.callee).diagonal hv
      obtain ⟨hk', hvalues⟩ := ((step _).evaluateAll (hat.kept hk) (hk.linked_eq _ ▸ harguments)
        (h.arguments hv)).diagonal hvs
      exact ih.step (hk.trans hk')
        ⟨marks, hat.kept (hk.trans hk'), hvalue.mono hk'.extends_, hvalues⟩
  | object h ih =>
    obtain ⟨marks, hat, hcode⟩ := ih.visited
    cases hcode with
    | property hobject => exact ih.part rfl ⟨marks, hat, hobject⟩
  | bindProperty h hv hfield hmethod ih => exact .bindProperty h ih hv hmethod
  | target h ih =>
    obtain ⟨marks, hat, hcode⟩ := ih.visited
    cases hcode with
    | setProperty hobject hvalue => exact ih.part rfl ⟨marks, hat, hobject⟩
  | field h hv ih =>
    obtain ⟨marks, hat, hcode⟩ := ih.visited
    cases hcode with
    | setProperty hobject hvalue =>
      obtain ⟨hk, -⟩ := ((step _).evaluate hat hobject h.target).diagonal hv
      exact ih.step hk ⟨marks, hat.kept hk, hk.linked_eq _ ▸ hvalue⟩
  | this h ih =>
    obtain ⟨marks, hat, hcode⟩ := ih.visited
    cases hcode with
    | this hu => exact ih.part rfl ⟨marks, hat, hu⟩
  | super h ih =>
    obtain ⟨marks, hat, hcode⟩ := ih.visited
    cases hcode with
    | super hu => exact ih.part rfl ⟨marks, hat, hu⟩
  | bindSuper h hdepth hc hreceiver hthis hmethod ih => exact ih.bindSuper hc hreceiver hmethod
  | first h ih =>
    obtain ⟨marks, hat, hcode⟩ := ih.visited
    cases hcode with
    | cons he hrest => exact ih.part rfl ⟨marks, hat, he⟩
  | others h hv ih =>
    obtain ⟨marks, hat, hcode⟩ := ih.visited
    cases hcode with
    | cons he hrest =>
      obtain ⟨hk, -⟩ := ((step _).evaluate hat he h.first).diagonal hv
      exact ih.step hk ⟨marks, hat.kept hk, hk.linked_eq _ ▸ hrest⟩
  | invoke h harity ih =>
    obtain ⟨marks, hat, hvalue, hvalues⟩ := ih.visited
    cases hvalue with
    | function hc => exact ih.part rfl ⟨marks, hat, hc, hvalues, harity⟩
  | bindInitializer h harity hobject hinitializer ih =>
    exact ih.bindInitializer hobject hinitializer
  | invokeInitializer h harity hobject hinitializer hbound ih =>
    exact .invokeInitializer h ih harity hobject hinitializer hbound
  | body h hmake htext hbefore hframe ih ihMake =>
    exact ih.body ihMake (hids _ _ htext) hbefore hframe
  | bound h hown htext hbefore hbound ih ihOwn =>
    exact ih.bound ihOwn (hids _ _ htext) hbefore hbound
  | expression h ih =>
    obtain ⟨marks, hat, hcode⟩ := ih.visited
    cases hcode with
    | expression hvalue => exact ih.part rfl ⟨marks, hat, hvalue⟩
  | print h ih =>
    obtain ⟨marks, hat, hcode⟩ := ih.visited
    cases hcode with
    | print hvalue => exact ih.part rfl ⟨marks, hat, hvalue⟩
  | definition h ih =>
    obtain ⟨marks, hat, hcode⟩ := ih.visited
    cases hcode with
    | definition hname hvalue =>
      exact ⟨ih.depths_eq, ih.grounded.withSite (Site.sameReserved_declare _ hname.not_isReserved),
        marks, ⟨hat.sound, hat.text_eq, hat.mirrors.declare _⟩, hvalue⟩
  | block h hframe ih => exact ih.block hframe
  | condition h ih =>
    obtain ⟨marks, hat, hcode⟩ := ih.visited
    cases hcode with
    | ifThen hcondition => exact ih.part rfl ⟨marks, hat, hcondition⟩
    | ifElse hcondition => exact ih.part rfl ⟨marks, hat, hcondition⟩
  | thenBranch h hv htrue ih =>
    obtain ⟨marks, hat, hcode⟩ := ih.visited
    cases hcode with
    | ifThen hcondition hbranch hb =>
      obtain ⟨hk, -⟩ := ((step _).evaluate hat hcondition h.condition).diagonal hv
      exact ih.step hk ⟨marks, hat.kept hk, hk.linked_eq _ ▸ hbranch⟩
    | ifElse hcondition hbranch hb hother ho =>
      obtain ⟨hk, -⟩ := ((step _).evaluate hat hcondition h.condition).diagonal hv
      exact ih.step hk ⟨marks, hat.kept hk, hk.linked_eq _ ▸ hbranch⟩
  | elseBranch h hv hfalse ih =>
    obtain ⟨marks, hat, hcode⟩ := ih.visited
    cases hcode with
    | ifElse hcondition hbranch hb hother ho =>
      obtain ⟨hk, -⟩ := ((step _).evaluate hat hcondition h.condition).diagonal hv
      exact ih.step hk ⟨marks, hat.kept hk, hk.linked_eq _ ▸ hother⟩
  | loop h ih =>
    obtain ⟨marks, hat, hcode⟩ := ih.visited
    cases hcode with
    | «while» hcondition hbody hb => exact ih.part rfl ⟨marks, hat, hcondition, hbody, hb⟩
  | function h hdeclare ih =>
    obtain ⟨marks, hat, hcode⟩ := ih.visited
    cases hcode with
    | function hname hroutine =>
      obtain ⟨hk, hbound⟩ := (Runs.declareFunction hat hname hroutine h).diagonal hdeclare
      refine ⟨(depths_eq_of_kept hk).trans ih.depths_eq,
        (ih.grounded.mono hk.extends_.store).introduce hname.not_isReserved, marks, hk.sound, ?_,
        hk.linked_eq _ ▸ hroutine⟩
      exact (hat.mirrors.mono hk.extends_.store hk.extends_.marked_eq).introduce hbound
  | returned h ih =>
    obtain ⟨marks, hat, hcode⟩ := ih.visited
    cases hcode with
    | returnValue hvalue => exact ih.part rfl ⟨marks, hat, hvalue⟩
  | superclass h ih =>
    obtain ⟨marks, hat, hcode⟩ := ih.visited
    cases hcode with
    | «class» hname hsuperclass hmethods =>
      cases hsuperclass with
      | some hu hne => exact ih.part rfl ⟨marks, hat, hu.of_introduce hne⟩
  | own h hsuper hdefine hframe hmethod ih => exact .own h ih hsuper hdefine hframe hmethod
  | statement h ih =>
    obtain ⟨marks, hat, hcode⟩ := ih.visited
    cases hcode with
    | cons hs hrest => exact ih.part rfl ⟨marks, hat, hs⟩
  | statements h hs ih =>
    obtain ⟨marks, hat, hcode⟩ := ih.visited
    cases hcode with
    | cons hstmt hrest =>
      obtain ⟨hk, -, hat'⟩ := ((step _).execute hat hstmt h.statement).diagonal hs
      exact ⟨(depths_eq_of_kept hk).trans ih.depths_eq,
        (ih.grounded.mono hk.extends_.store).behind hstmt, marks, hat', hk.linked_eq _ ▸ hrest⟩
  | check h ih =>
    obtain ⟨marks, hat, hcondition, hbody, hb⟩ := ih.visited
    exact ih.part rfl ⟨marks, hat, hcondition⟩
  | round h hv htrue ih =>
    obtain ⟨marks, hat, hcondition, hbody, hb⟩ := ih.visited
    obtain ⟨hk, -⟩ := ((step _).evaluate hat hcondition h.check).diagonal hv
    exact ih.step hk ⟨marks, hat.kept hk, hk.linked_eq _ ▸ hbody⟩
  | again h hv htrue hs ih =>
    obtain ⟨marks, hat, hcondition, hbody, hb⟩ := ih.visited
    obtain ⟨hk, -⟩ := ((step _).evaluate hat hcondition h.check).diagonal hv
    obtain ⟨hk', -⟩ := ((step _).execute (hat.kept hk) (hk.linked_eq _ ▸ hbody)
      (h.round hv htrue)).diagonal hs
    have hk := hk.trans hk'
    exact ih.step hk ⟨marks, hat.kept hk, hk.linked_eq _ ▸ hcondition,
      hk.linked_eq _ ▸ hbody, hb⟩
  | top h ih =>
    obtain ⟨marks, hat, hcode⟩ := ih.visited
    cases hcode with
    | cons hs hrest => exact ih.part rfl ⟨marks, hat, hs⟩
  | topRest h hs ih =>
    obtain ⟨marks, hat, hcode⟩ := ih.visited
    cases hcode with
    | cons hstmt hrest =>
      obtain ⟨hk, -, hat'⟩ := ((step _).execute hat hstmt h.top).diagonal hs
      exact ⟨(depths_eq_of_kept hk).trans ih.depths_eq,
        (ih.grounded.mono hk.extends_.store).behind hstmt, marks, hat', hk.linked_eq _ ▸ hrest⟩

end Treewalk
