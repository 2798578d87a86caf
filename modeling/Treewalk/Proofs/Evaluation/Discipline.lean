import Treewalk.Proofs.Evaluation.Composed
import Treewalk.Proofs.Evaluation.Moment
import Treewalk.Proofs.Evaluation.Stores
import Treewalk.Proofs.Tree.Writes

/-!
# Disciplines

What evaluation comes to depends on values: a call runs the closure it is given, and a closure has
been around in variables and fields before. So what is to be known of all machines in a run is known
together with what may be around on them. A discipline says both, and how a machine may change. It
holds throughout evaluation if it holds over each of the few steps that change a machine.

## Main definitions

* `Discipline` — what is asked of machines, and of the values and closures around on them
* `Discipline.Lawful` — the steps of evaluation keep to the discipline
* `Discipline.Keeps` — a computation keeps to the discipline
* `Discipline.KeepsAll` — all functions of the evaluator do, with the given fuel

## Main results

* `Discipline.Keeps.bind`, `Discipline.Keeps.inFrame` — the rules for computations one after the
  other and in other frames
* `Discipline.keepsAll` — all functions of the evaluator keep to a lawful discipline
-/

namespace Treewalk

open Eval

variable {α β : Type}

/-! ### Plain data -/

/-- Data without an identity. -/
def Value.IsPlain : Value → Prop
  | .function _ _ | .class _ | .instance _ => False
  | _ => True

theorem Value.isPlain_ofLiteral (literal : Literal) : (Value.ofLiteral literal).IsPlain := by
  cases literal <;> trivial

theorem Value.isPlain_of_applyUnary {operator : Kind} {operand v : Value}
    (h : operand.applyUnary operator = .ok v) : v.IsPlain := by
  unfold applyUnary at h
  split at h <;> cases h <;> trivial

theorem Value.isPlain_of_applyBinary {operator : Kind} {left right v : Value}
    (h : left.applyBinary operator right = .ok v) : v.IsPlain := by
  unfold applyBinary add applyNumeric at h
  split at h
  · split at h <;> cases h <;> trivial
  · cases h; trivial
  · cases h; trivial
  · split at h
    · split at h <;> cases h <;> trivial
    · cases h

/-! ### Disciplines -/

/-- What is asked of machines, how they may change, and what may be around on them: the frames that
code may run in, the closures that may be run, and the values. The code writes permitted names
only. -/
structure Discipline where
  IsSound : Machine → Prop
  Grows : Machine → Machine → Prop
  HasFrame : Machine → FrameId → Prop
  HasClosure : Machine → Closure → Prop
  HasValue : Machine → Value → Prop
  MayWrite : String → Prop

namespace Discipline

/-- From one sound machine to another. -/
structure Leads (D : Discipline) (m m' : Machine) : Prop where
  sound : D.IsSound m'
  grows : D.Grows m m'

/-- The discipline holds over every step of evaluation. -/
class Lawful (D : Discipline) : Prop where
  refl (m : Machine) : D.Grows m m
  trans {m m₁ m₂ : Machine} : D.Grows m m₁ → D.Grows m₁ m₂ → D.Grows m m₂
  frame_mono {m m' : Machine} {frame : FrameId} :
    D.HasFrame m frame → D.Grows m m' → D.HasFrame m' frame
  closure_mono {m m' : Machine} {closure : Closure} :
    D.HasClosure m closure → D.Grows m m' → D.HasClosure m' closure
  value_mono {m m' : Machine} {v : Value} : D.HasValue m v → D.Grows m m' → D.HasValue m' v
  -- what is around on a machine
  current {m : Machine} : D.IsSound m → D.HasFrame m m.current
  locals {m : Machine} {frame : FrameId} {name : String} {v : Value} :
    D.IsSound m → m.store.local? frame name = some v → D.HasValue m v
  fields {m : Machine} {object : ObjectId} {name : String} {v : Value} :
    D.IsSound m → m.store.field? object name = some v → D.HasValue m v
  plain {m : Machine} {v : Value} : v.IsPlain → D.HasValue m v
  function_closure {m : Machine} {stamp : Stamp} {closure : Closure} :
    D.HasValue m (.function stamp closure) → D.HasClosure m closure
  closure_frame {m : Machine} {closure : Closure} :
    D.HasClosure m closure → D.HasFrame m closure.frame
  closure_writes {m : Machine} {closure : Closure} :
    D.HasClosure m closure → closure.routine.Writes D.MayWrite
  instance_class {m : Machine} {object : Instance} :
    D.HasValue m (.instance object) → D.HasValue m (.class object.class)
  -- frames and variables
  grows_of_eq {m m' : Machine} : m'.store = m.store → m'.nextStamp = m.nextStamp → D.Grows m m'
  of_eq {m m' : Machine} : D.IsSound m → m'.store = m.store → m'.nextStamp = m.nextStamp →
    D.HasFrame m m'.current → D.IsSound m'
  newFrame {m : Machine} {enclosing : FrameId} : D.IsSound m → D.HasFrame m enclosing →
    D.Leads m { m with store := (m.store.newFrame (some enclosing)).2 } ∧
      D.HasFrame { m with store := (m.store.newFrame (some enclosing)).2 } m.store.frames.size
  define {m : Machine} {name : String} {v : Value} (frame : FrameId) : D.IsSound m →
    D.MayWrite name → D.HasValue m v → D.Leads m { m with store := m.store.define frame name v }
  mayWrite_super : D.MayWrite "super"
  -- values with an identity
  freshStamp {m : Machine} : D.IsSound m → D.Leads m { m with nextStamp := m.nextStamp + 1 }
  newFunction {m : Machine} {closure : Closure} : D.IsSound m → D.HasClosure m closure →
    D.HasValue { m with nextStamp := m.nextStamp + 1 } (.function m.nextStamp closure)
  newObject {m : Machine} {c : Class} : D.IsSound m → D.HasValue m (.class c) →
    D.Leads m { m with store := m.store.newObject.2 } ∧
      D.HasValue { m with store := m.store.newObject.2 } (.instance ⟨m.store.objects.size, c⟩)
  setField {m : Machine} {v : Value} (object : ObjectId) (name : String) : D.IsSound m →
    D.HasValue m v → D.Leads m { m with store := m.store.setField object name v }
  /-- A method that a class has is bound to a receiver. -/
  bindReceiver {m m' : Machine} {c : Class} {name : String} {method bound : Closure}
    {receiver : Instance} : D.IsSound m → D.HasValue m (.class c) →
    c.findMethod? name = some method → D.HasValue m (.instance receiver) →
    Eval.bindReceiver method receiver m = .ok bound m' → D.Leads m m' ∧ D.HasClosure m' bound
  -- declarations
  newClosure {m : Machine} {frame : FrameId} {routine : Routine} : D.HasFrame m frame →
    routine.Writes D.MayWrite → D.HasClosure m ⟨routine, frame, false⟩
  newClass {m : Machine} {frame : FrameId} {superclass : Option Class} {methods : List Routine}
    (name : String) : D.IsSound m → (∀ c ∈ superclass, D.HasValue m (.class c)) →
    D.HasFrame m frame → Routine.WritesAll D.MayWrite methods →
    D.HasValue { m with nextStamp := m.nextStamp + 1 } (.class (.extend ⟨m.nextStamp, name,
      .ofList (methods.map fun method => (method.name.lexeme, methodClosure frame method))⟩
      superclass))

variable {D : Discipline} {m m₁ m' : Machine}

/-- A statement may end with a value. -/
def HasFlow (D : Discipline) (m : Machine) : Flow → Prop
  | .normal => True
  | .returned v => D.HasValue m v

section Lawful

variable [D.Lawful]

theorem HasFlow.mono {flow : Flow} (h : D.HasFlow m flow) (hm : D.Grows m m') :
    D.HasFlow m' flow := by
  cases flow with
  | normal => trivial
  | returned v => exact Lawful.value_mono h hm

theorem HasFlow.result {flow : Flow} (h : D.HasFlow m flow) : D.HasValue m flow.result := by
  cases flow with
  | normal => exact Lawful.plain (v := .nil) trivial
  | returned v => exact h

end Lawful

/-- The computation ends with a sound machine that has grown out of `m`, and `Q` holds of it and of
the result. -/
structure Kept (D : Discipline) (m : Machine) (ended : Ended α) (Q : Machine → α → Prop) :
    Prop where
  leads : D.Leads m ended.machine
  result : ∀ a m', ended = .ok a m' → Q m' a

/-- On the machine `m`, the computation keeps to the discipline. -/
def Keeps (D : Discipline) (m : Machine) (c : Eval α) (Q : Machine → α → Prop) : Prop :=
  D.IsSound m → D.Kept m (c m) Q

/-- What is known after a computation that comes to an end. -/
theorem Keeps.of_ok {c : Eval α} {Q : Machine → α → Prop} (hc : D.Keeps m c Q) (hm : D.IsSound m)
    {a : α} (hok : c m = .ok a m₁) : D.IsSound m₁ ∧ D.Grows m m₁ ∧ Q m₁ a := by
  obtain ⟨hleads, hresult⟩ := hc hm
  rw [hok] at hleads
  exact ⟨hleads.sound, hleads.grows, hresult a m₁ hok⟩

namespace Keeps

variable {c : Eval α} {f : α → Eval β} {Q : Machine → α → Prop} {T : Machine → β → Prop}

theorem of_sound (h : D.IsSound m → D.Keeps m c Q) : D.Keeps m c Q := fun hm => h hm hm

theorem get_bind {f : Machine → Eval β} (h : D.Keeps m (f m) T) : D.Keeps m (get >>= f) T := h

theorem modifyGet {g : Machine → α × Machine} (h : D.IsSound m → D.Leads m (g m).2)
    (hQ : D.IsSound m → Q (g m).2 (g m).1) : D.Keeps m (modifyGet g) Q := by
  refine fun hm => ⟨h hm, ?_⟩
  rintro a m' ⟨⟩
  exact hQ hm

variable [D.Lawful]

protected theorem pure {a : α} (h : Q m a) : D.Keeps m (pure a) Q := by
  refine fun hm => ⟨⟨hm, Lawful.refl m⟩, ?_⟩
  rintro a m' ⟨⟩
  exact h

protected theorem throw (halt : Halt) : D.Keeps m (throw halt) Q := fun hm =>
  ⟨⟨hm, Lawful.refl m⟩, nofun⟩

theorem fail (anchor : Token) (cause : RuntimeFault) : D.Keeps m (fail anchor cause) Q :=
  .throw _

protected theorem bind (hc : D.Keeps m c Q)
    (hf : ∀ a m₁, D.Grows m m₁ → Q m₁ a → D.Keeps m₁ (f a) T) : D.Keeps m (c >>= f) T := by
  intro hm
  obtain ⟨⟨hsound, hgrows⟩, hresult⟩ := hc hm
  cases h : c m with
  | error halt m₁ =>
    rw [h] at hsound hgrows
    rw [bind_eq_error h]
    exact ⟨⟨hsound, hgrows⟩, nofun⟩
  | ok a m₁ =>
    rw [h] at hsound hgrows
    rw [bind_eq_of_ok h]
    obtain ⟨hleads, hresult'⟩ := hf a m₁ hgrows (hresult a m₁ h) hsound
    exact ⟨⟨hleads.sound, Lawful.trans hgrows hleads.grows⟩, hresult'⟩

/-- In another frame, and back in the frame from which it came. -/
theorem inFrame {frame : FrameId} (hframe : D.HasFrame m frame)
    (h : D.Keeps { m with current := frame } c Q)
    (hQ : ∀ m' a, Q m' a → Q { m' with current := m.current } a) :
    D.Keeps m (inFrame frame c) Q := by
  intro hm
  obtain ⟨⟨hsound, hgrows⟩, hresult⟩ := h (Lawful.of_eq hm rfl rfl hframe)
  have henter : D.Grows m { m with current := frame } := Lawful.grows_of_eq rfl rfl
  have hgrows := Lawful.trans henter hgrows
  have hcurrent := Lawful.frame_mono (Lawful.current hm) hgrows
  rw [inFrame_eq_withCurrent]
  refine ⟨⟨?_, ?_⟩, ?_⟩
  · rw [Ended.machine_withCurrent]
    exact Lawful.of_eq hsound rfl rfl hcurrent
  · rw [Ended.machine_withCurrent]
    exact Lawful.trans hgrows (Lawful.grows_of_eq rfl rfl)
  · intro a m' heq
    cases hend : c { m with current := frame } with
    | error halt m₁ =>
      rw [hend] at heq
      cases heq
    | ok a₁ m₁ =>
      rw [hend] at heq
      cases heq
      exact hQ _ _ (hresult _ m₁ hend)

theorem orFail {r : Except Diagnostic α} (h : ∀ a, r = .ok a → Q m a) :
    D.Keeps m (orFail r) Q := by
  cases r with
  | ok a => exact .pure (h a rfl)
  | error diagnostic => exact .throw _

theorem orFailAt {r : Except RuntimeFault α} (anchor : Token) (h : ∀ a, r = .ok a → Q m a) :
    D.Keeps m (orFailAt anchor r) Q := by
  cases r with
  | ok a => exact .pure (h a rfl)
  | error cause => exact .fail anchor cause

/-! ### Frames and variables -/

theorem newFrame {enclosing : FrameId} (h : D.HasFrame m enclosing) :
    D.Keeps m (newFrame enclosing) D.HasFrame :=
  .modifyGet (fun hm => (Lawful.newFrame hm h).1) fun hm => (Lawful.newFrame hm h).2

theorem defineIn (frame : FrameId) {name : String} (hname : D.MayWrite name) {v : Value}
    (hv : D.HasValue m v) : D.Keeps m (defineIn frame name v) fun _ _ => True :=
  .modifyGet (fun hm => Lawful.define frame hm hname hv) fun _ => trivial

theorem defineAllIn (frame : FrameId) {bindings : List (String × Value)}
    (h : ∀ b ∈ bindings, D.MayWrite b.1 ∧ D.HasValue m b.2) :
    D.Keeps m (defineAllIn frame bindings) fun _ _ => True := by
  induction bindings generalizing m with
  | nil => exact .modifyGet (fun hm => ⟨hm, Lawful.refl m⟩) fun _ => trivial
  | cons b rest ih =>
    have hall : D.Keeps m (Eval.defineIn frame b.1 b.2 >>= fun _ => Eval.defineAllIn frame rest)
        fun _ _ => True :=
      (defineIn frame (h b (.head _)).1 (h b (.head _)).2).bind fun _ m₁ hgrows _ =>
        ih fun b' hb' => ⟨(h b' (.tail _ hb')).1, Lawful.value_mono (h b' (.tail _ hb')).2 hgrows⟩
    exact hall

theorem define {name : String} (hname : D.MayWrite name) {v : Value} (hv : D.HasValue m v) :
    D.Keeps m (define name v) fun _ _ => True :=
  .get_bind (.defineIn m.current hname hv)

/-- What is read from the store of a machine is good for the machines after it as well. -/
theorem getAt (hm : D.IsSound m) (hgrows : D.Grows m m₁) (hops : Nat) (frame : FrameId)
    (name : Token) : D.Keeps m₁ (Eval.orFail (m.store.getAt hops frame name)) D.HasValue := by
  refine .orFail fun v hv => ?_
  obtain ⟨target, -, hlocal⟩ := Store.getAt_eq_ok_iff.1 hv
  exact Lawful.value_mono (Lawful.locals hm hlocal) hgrows

theorem lookUp (use : Use) : D.Keeps m (lookUp use) D.HasValue := by
  refine .get_bind (.of_sound fun hm => ?_)
  split
  · exact .getAt hm (Lawful.refl m) _ m.current use.token
  · refine .orFail fun v hv => ?_
    obtain ⟨frame, -, hlocal⟩ := Store.get_eq_ok_iff.1 hv
    exact Lawful.locals hm hlocal

theorem targetOf (use : Use) : D.Keeps m (targetOf use) fun _ _ => True := by
  refine .get_bind ?_
  split
  · exact .orFail fun _ _ => trivial
  · exact .orFail fun _ _ => trivial

theorem assign {use : Use} (hname : D.MayWrite use.name) {v : Value} (hv : D.HasValue m v) :
    D.Keeps m (assign use v) fun _ _ => True :=
  (targetOf use).bind fun frame _ hgrows _ => .defineIn frame hname (Lawful.value_mono hv hgrows)

theorem assignNearest {name : Token} (hname : D.MayWrite name.lexeme) {v : Value}
    (hv : D.HasValue m v) : D.Keeps m (assignNearest name v) fun _ _ => True :=
  .get_bind <| (orFail (Q := fun _ _ => True) fun _ _ => trivial).bind fun frame _ hgrows _ =>
    .defineIn frame hname (Lawful.value_mono hv hgrows)

/-! ### Values with an identity -/

theorem newFunction {closure : Closure} (h : D.HasClosure m closure) :
    D.Keeps m (newFunction closure) D.HasValue := by
  have hstamp : D.Keeps m freshStamp fun m' stamp => D.HasValue m' (.function stamp closure) :=
    .modifyGet (fun hm => Lawful.freshStamp hm) fun hm => Lawful.newFunction hm h
  exact hstamp.bind fun _ _ _ hv => .pure hv

theorem newInstance {c : Class} (hc : D.HasValue m (.class c)) :
    D.Keeps m (newInstance c) fun m' object => D.HasValue m' (.instance object) :=
  .modifyGet (fun hm => (Lawful.newObject hm hc).1) fun hm => (Lawful.newObject hm hc).2

/-- A method that is found is bound to the receiver. -/
theorem bindReceiver {c : Class} {name : String} {method : Closure} {receiver : Instance}
    (hc : D.HasValue m (.class c)) (hmethod : c.findMethod? name = some method)
    (hreceiver : D.HasValue m (.instance receiver)) :
    D.Keeps m (Eval.bindReceiver method receiver) D.HasClosure := by
  intro hm
  obtain ⟨bound, m', hbound⟩ :
      ∃ bound m', Eval.bindReceiver method receiver m = .ok bound m' := ⟨_, _, rfl⟩
  obtain ⟨hleads, hclosure⟩ := Lawful.bindReceiver hm hc hmethod hreceiver hbound
  rw [hbound]
  refine ⟨hleads, ?_⟩
  rintro _ _ ⟨⟩
  exact hclosure

theorem getProperty {receiver : Instance} (hreceiver : D.HasValue m (.instance receiver))
    (name : Token) : D.Keeps m (getProperty receiver name) D.HasValue := by
  refine .get_bind (.of_sound fun hm => ?_)
  split
  · next v hv => exact .pure (Lawful.fields hm hv)
  · split
    · next hmethod =>
      have hbind := bindReceiver (Lawful.instance_class hreceiver) hmethod hreceiver
      exact hbind.bind fun _ _ _ hbound => .newFunction hbound
    · exact .fail name _

theorem setProperty (receiver : Instance) (name : Token) {v : Value} (hv : D.HasValue m v) :
    D.Keeps m (setProperty receiver name v) fun _ _ => True :=
  .modifyGet (fun hm => Lawful.setField receiver.id name.lexeme hm hv) fun _ => trivial

theorem receiverOf (initializer : Closure) (paren : Token) :
    D.Keeps m (receiverOf initializer paren) D.HasValue := by
  refine .get_bind (.of_sound fun hm => ?_)
  split
  · next receiver hreceiver => exact .pure (Lawful.locals hm hreceiver)
  · exact .fail paren _

theorem superMethod (use : Use) (method : Token) :
    D.Keeps m (superMethod use method) D.HasValue := by
  refine .get_bind (.of_sound fun hm => ?_)
  split
  · refine (getAt hm (Lawful.refl m) _ _ _).bind fun superclass m₁ hgrows hsuper => ?_
    refine (getAt hm hgrows _ _ _).bind fun receiver m₂ hgrows' hreceiver => ?_
    split
    · split
      · next hmethod =>
        have hbind := bindReceiver (Lawful.value_mono hsuper hgrows') hmethod hreceiver
        exact hbind.bind fun _ _ _ hbound => .newFunction hbound
      · exact .fail method _
    · exact .fail use.token _
  · exact .fail use.token _

/-! ### Steps that leave the store as it is -/

/-- A change of neither the store nor the stamps nor the current frame. -/
theorem modifyGet_of_eq {g : Machine → α × Machine} (hstore : (g m).2.store = m.store)
    (hstamp : (g m).2.nextStamp = m.nextStamp) (hcurrent : (g m).2.current = m.current)
    (hQ : Q (g m).2 (g m).1) : D.Keeps m (MonadStateOf.modifyGet g : Eval α) Q := by
  refine .modifyGet (fun hm => ⟨?_, Lawful.grows_of_eq hstore hstamp⟩) fun _ => hQ
  exact Lawful.of_eq hm hstore hstamp (hcurrent ▸ Lawful.current hm)

theorem readClock : D.Keeps m readClock D.HasValue :=
  .modifyGet_of_eq rfl rfl rfl (Lawful.plain (v := .number _) trivial)

theorem printLine (text : String) : D.Keeps m (printLine text) fun _ _ => True := by
  have hwrite : D.Keeps m (MonadStateOf.modifyGet fun m : Machine =>
      ((m.sink.write (text ++ "\n")).1, { m with sink := (m.sink.write (text ++ "\n")).2 }) :
      Eval (Option OutputFault)) fun _ _ => True := .modifyGet_of_eq rfl rfl rfl trivial
  refine hwrite.bind fun fault? _ _ _ => ?_
  cases fault? with
  | none => exact .pure trivial
  | some fault => exact .throw _

theorem flushOutput : D.Keeps m flushOutput fun _ _ => True := by
  refine .get_bind ?_
  split
  · exact .pure trivial
  · exact .throw _

theorem checkArity (paren : Token) (expected given : Nat) :
    D.Keeps m (checkArity paren expected given) fun _ _ => True := by
  unfold Eval.checkArity
  split
  · exact .pure trivial
  · exact .fail paren _

/-! ### Declarations -/

theorem superclassClassOf (superclass : Option Use) :
    D.Keeps m (superclassClassOf superclass) fun m' superclass =>
      ∀ c ∈ superclass, D.HasValue m' (.class c) := by
  cases superclass with
  | none => exact .pure nofun
  | some use =>
    have hclass : D.Keeps m (superclassOf use) fun m' c => D.HasValue m' (.class c) := by
      refine (lookUp use).bind fun v m₁ _ hv => ?_
      split
      · exact .pure hv
      · exact .fail use.token _
    refine hclass.bind fun c m₁ _ hc => .pure ?_
    rintro _ ⟨⟩
    exact hc

theorem methodFrame {superclass : Option Class}
    (h : ∀ c ∈ superclass, D.HasValue m (.class c)) :
    D.Keeps m (methodFrame superclass) D.HasFrame := by
  refine .get_bind (.of_sound fun hm => ?_)
  cases superclass with
  | none => exact .pure (Lawful.current hm)
  | some c =>
    refine (newFrame (Lawful.current hm)).bind fun frame m₁ hgrows hframe => ?_
    have hc := Lawful.value_mono (h c rfl) hgrows
    exact (defineIn frame Lawful.mayWrite_super hc).bind fun _ _ hgrows _ =>
      .pure (Lawful.frame_mono hframe hgrows)

theorem declareClass {name : Token} (hname : D.MayWrite name.lexeme) (superclass : Option Use)
    {methods : List Routine} (hmethods : Routine.WritesAll D.MayWrite methods) :
    D.Keeps m (declareClass name superclass methods) fun _ _ => True := by
  rw [declareClass_eq]
  refine (superclassClassOf superclass).bind fun c m₁ _ hc => ?_
  refine (define hname (v := .nil) (Lawful.plain trivial)).bind fun _ m₂ hgrows₂ _ => ?_
  have hc₂ : ∀ d ∈ c, D.HasValue m₂ (.class d) := fun d hd => Lawful.value_mono (hc d hd) hgrows₂
  refine (methodFrame hc₂).bind fun frame m₃ hgrows₃ hframe => ?_
  have hc₃ : ∀ d ∈ c, D.HasValue m₃ (.class d) := fun d hd => Lawful.value_mono (hc₂ d hd) hgrows₃
  -- the class is made of what is there when its stamp is given out
  have hstamp : D.Keeps m₃ freshStamp fun m' stamp => D.HasValue m' (.class (.extend ⟨stamp,
      name.lexeme, .ofList (methods.map fun method =>
        (method.name.lexeme, methodClosure frame method))⟩ c)) :=
    .modifyGet (fun hm => Lawful.freshStamp hm) fun hm =>
      Lawful.newClass name.lexeme hm hc₃ hframe hmethods
  exact hstamp.bind fun _ _ _ hclass => .assignNearest hname hclass

theorem declareFunction {routine : Routine} (hname : D.MayWrite routine.name.lexeme)
    (hroutine : routine.Writes D.MayWrite) :
    D.Keeps m (declareFunction routine) fun _ _ => True := by
  refine .get_bind (.of_sound fun hm => ?_)
  have hclosure : D.HasClosure m ⟨routine, m.current, false⟩ :=
    Lawful.newClosure (Lawful.current hm) hroutine
  exact (newFunction hclosure).bind fun _ _ _ hv => .define hname hv

/-- The frame of a call. -/
theorem callFrame {closure : Closure} (hclosure : D.HasClosure m closure) {arguments : List Value}
    (harguments : ∀ v ∈ arguments, D.HasValue m v) :
    D.Keeps m (callFrame closure.frame closure.routine.parameters arguments) D.HasFrame := by
  refine (newFrame (Lawful.closure_frame hclosure)).bind fun frame m₁ hgrows hframe => ?_
  have hbindings : ∀ b ∈ (closure.routine.parameters.map Token.lexeme).zip arguments,
      D.MayWrite b.1 ∧ D.HasValue m₁ b.2 := by
    intro b hb
    obtain ⟨parameter, hparameter, hname⟩ := List.mem_map.1 (List.of_mem_zip hb).1
    have hwrites := (Routine.writes_iff.1 (Lawful.closure_writes hclosure)).1
    exact ⟨hname ▸ hwrites parameter hparameter,
      Lawful.value_mono (harguments b.2 (List.of_mem_zip hb).2) hgrows⟩
  exact (defineAllIn frame hbindings).bind fun _ _ hgrows _ =>
    .pure (Lawful.frame_mono hframe hgrows)

end Keeps

/-! ### The functions of the evaluator -/

/-- With the given fuel, all functions of the evaluator keep to the discipline. -/
structure KeepsAll (D : Discipline) (fuel : Nat) : Prop where
  evaluate (m : Machine) (e : Expr) :
    e.Writes D.MayWrite → D.Keeps m (evaluate fuel e) D.HasValue
  evaluateAll (m : Machine) (es : List Expr) : Expr.WritesAll D.MayWrite es →
    D.Keeps m (evaluateAll fuel es) fun m' values => ∀ v ∈ values, D.HasValue m' v
  call (m : Machine) (callee : Value) (paren : Token) (arguments : List Value) :
    D.HasValue m callee → (∀ v ∈ arguments, D.HasValue m v) →
      D.Keeps m (call fuel callee paren arguments) D.HasValue
  invoke (m : Machine) (closure : Closure) (paren : Token) (arguments : List Value) :
    D.HasClosure m closure → (∀ v ∈ arguments, D.HasValue m v) →
      D.Keeps m (invoke fuel closure paren arguments) D.HasValue
  execute (m : Machine) (s : Stmt) : s.Writes D.MayWrite → D.Keeps m (execute fuel s) D.HasFlow
  executeAll (m : Machine) (ss : List Stmt) :
    Stmt.WritesAll D.MayWrite ss → D.Keeps m (executeAll fuel ss) D.HasFlow
  executeWhile (m : Machine) (condition : Expr) (body : Stmt) : condition.Writes D.MayWrite →
    body.Writes D.MayWrite → D.Keeps m (executeWhile fuel condition body) D.HasFlow

namespace KeepsAll

variable {fuel : Nat} [D.Lawful]

theorem zero : D.KeepsAll 0 where
  evaluate _ _ _ := .throw _
  evaluateAll _ _ _ := .throw _
  call _ _ _ _ _ _ := .throw _
  invoke _ _ _ _ _ _ := .throw _
  execute _ _ _ := .throw _
  executeAll _ _ _ := .throw _
  executeWhile _ _ _ _ _ := .throw _

theorem succ_evaluate (ih : D.KeepsAll fuel) (m : Machine) (e : Expr)
    (he : e.Writes D.MayWrite) : D.Keeps m (Eval.evaluate (fuel + 1) e) D.HasValue := by
  cases e with
  | literal value => exact .pure (Lawful.plain (Value.isPlain_ofLiteral value))
  | group inner => exact ih.evaluate m inner he.2
  | unary operator operand =>
    refine (ih.evaluate m operand he.2).bind fun v m₁ _ _ => ?_
    exact .orFailAt operator fun _ h => Lawful.plain (Value.isPlain_of_applyUnary h)
  | binary left operator right =>
    refine (ih.evaluate m left he.2.1).bind fun v m₁ _ _ => ?_
    refine (ih.evaluate m₁ right he.2.2).bind fun w m₂ _ _ => ?_
    exact .orFailAt operator fun _ h => Lawful.plain (Value.isPlain_of_applyBinary h)
  | logical left operator right =>
    refine (ih.evaluate m left he.2.1).bind fun v m₁ _ hv => ?_
    split
    · exact .pure hv
    · exact ih.evaluate m₁ right he.2.2
  | «variable» use => exact .lookUp use
  | assign target value =>
    refine (ih.evaluate m value he.2).bind fun v m₁ _ hv => ?_
    exact (Keeps.assign he.1 hv).bind fun _ _ hgrows _ => .pure (Lawful.value_mono hv hgrows)
  | call callee paren arguments =>
    refine (ih.evaluate m callee he.2.1).bind fun v m₁ _ hv => ?_
    refine (ih.evaluateAll m₁ arguments he.2.2).bind fun values m₂ hgrows hvalues => ?_
    exact ih.call m₂ v paren values (Lawful.value_mono hv hgrows) hvalues
  | property object name =>
    refine (ih.evaluate m object he.2).bind fun v m₁ _ hv => ?_
    split
    · exact .getProperty hv name
    · exact .fail name _
  | setProperty object name value =>
    refine (ih.evaluate m object he.2.1).bind fun v m₁ _ _ => ?_
    split
    · refine (ih.evaluate m₁ value he.2.2).bind fun w m₂ _ hw => ?_
      exact (Keeps.setProperty _ name hw).bind fun _ _ hgrows _ =>
        .pure (Lawful.value_mono hw hgrows)
    · exact .fail name _
  | this use => exact .lookUp use
  | super use method => exact .superMethod use method

theorem succ_evaluateAll (ih : D.KeepsAll fuel) (m : Machine) (es : List Expr)
    (hes : Expr.WritesAll D.MayWrite es) :
    D.Keeps m (Eval.evaluateAll (fuel + 1) es) fun m' values => ∀ v ∈ values, D.HasValue m' v := by
  cases es with
  | nil => exact .pure nofun
  | cons first rest =>
    refine (ih.evaluate m first hes.1).bind fun v m₁ _ hv => ?_
    refine (ih.evaluateAll m₁ rest hes.2).bind fun values m₂ hgrows hvalues => .pure ?_
    exact List.forall_mem_cons.2 ⟨Lawful.value_mono hv hgrows, hvalues⟩

theorem succ_call (ih : D.KeepsAll fuel) (m : Machine) (callee : Value) (paren : Token)
    (arguments : List Value) (hcallee : D.HasValue m callee)
    (harguments : ∀ v ∈ arguments, D.HasValue m v) :
    D.Keeps m (Eval.call (fuel + 1) callee paren arguments) D.HasValue := by
  cases callee with
  | native function =>
    cases function
    exact (Keeps.checkArity paren _ _).bind fun _ _ _ _ => .readClock
  | function stamp closure =>
    refine (Keeps.checkArity paren _ _).bind fun _ m₁ hgrows _ => ?_
    have hclosure := Lawful.closure_mono (Lawful.function_closure hcallee) hgrows
    exact ih.invoke m₁ closure paren arguments hclosure
      fun v hv => Lawful.value_mono (harguments v hv) hgrows
  | «class» c =>
    refine (Keeps.checkArity paren _ _).bind fun _ m₁ hgrows₁ _ => ?_
    have hc := Lawful.value_mono hcallee hgrows₁
    refine (Keeps.newInstance hc).bind fun object m₂ hgrows₂ hobject => ?_
    split
    · exact .pure hobject
    · next initializer hinitializer =>
      have hbind := Keeps.bindReceiver (Lawful.value_mono hc hgrows₂) hinitializer hobject
      refine hbind.bind fun bound m₃ hgrows₃ hbound => ?_
      have hgrows := Lawful.trans (Lawful.trans hgrows₁ hgrows₂) hgrows₃
      have harguments₃ : ∀ v ∈ arguments, D.HasValue m₃ v := fun v hv =>
        Lawful.value_mono (harguments v hv) hgrows
      refine (ih.invoke m₃ bound paren arguments hbound harguments₃).bind fun _ m₄ hgrows₄ _ => ?_
      exact .pure (Lawful.value_mono hobject (Lawful.trans hgrows₃ hgrows₄))
  | _ => exact .fail paren _

theorem inFrame_executeAll (ih : D.KeepsAll fuel) {frame : FrameId} (h : D.HasFrame m frame)
    {body : List Stmt} (hbody : Stmt.WritesAll D.MayWrite body) :
    D.Keeps m (inFrame frame (Eval.executeAll fuel body)) D.HasFlow :=
  .inFrame h (ih.executeAll _ body hbody) fun _ _ hflow =>
    hflow.mono (Lawful.grows_of_eq rfl rfl)

theorem succ_invoke (ih : D.KeepsAll fuel) (m : Machine) (closure : Closure) (paren : Token)
    (arguments : List Value) (hclosure : D.HasClosure m closure)
    (harguments : ∀ v ∈ arguments, D.HasValue m v) :
    D.Keeps m (Eval.invoke (fuel + 1) closure paren arguments) D.HasValue := by
  rw [invoke_succ_eq]
  refine (Keeps.callFrame hclosure harguments).bind fun frame m₁ _ hframe => ?_
  have hbody := (Routine.writes_iff.1 (Lawful.closure_writes hclosure)).2
  refine (ih.inFrame_executeAll hframe hbody).bind fun flow m₂ _ hflow => ?_
  split
  · exact .receiverOf closure paren
  · exact .pure hflow.result

/-- The branches of an `if`, when its condition has the value `v`. -/
theorem branches (ih : D.KeepsAll fuel) (m : Machine) (v : Value) {branch : Stmt}
    (other : Option Stmt) (hbranch : branch.Writes D.MayWrite) :
    (∀ s ∈ other, s.Writes D.MayWrite) →
      D.Keeps m (if v.isTruthy then Eval.execute fuel branch else
        match other with
        | some other => Eval.execute fuel other
        | none => return .normal) D.HasFlow := by
  intro hother
  split
  · exact ih.execute m branch hbranch
  · cases other with
    | none => exact .pure trivial
    | some other => exact ih.execute m other (hother other rfl)

/-- What comes behind a statement that ended with a flow. -/
theorem next (m : Machine) {flow : Flow} (hflow : D.HasFlow m flow) {c : Eval Flow}
    (hc : D.Keeps m c D.HasFlow) :
    D.Keeps m (match flow with
      | .normal => c
      | .returned v => return .returned v) D.HasFlow := by
  cases flow with
  | normal => exact hc
  | returned v => exact .pure hflow

theorem succ_execute (ih : D.KeepsAll fuel) (m : Machine) (s : Stmt) (hs : s.Writes D.MayWrite) :
    D.Keeps m (Eval.execute (fuel + 1) s) D.HasFlow := by
  match s with
  | .expression value => exact (ih.evaluate m value hs).bind fun _ _ _ _ => .pure trivial
  | .print value =>
    refine (ih.evaluate m value hs).bind fun v m₁ _ _ => ?_
    exact (Keeps.printLine v.text).bind fun _ _ _ _ => .pure trivial
  | .var name none =>
    exact (Keeps.define hs (v := .nil) (Lawful.plain trivial)).bind fun _ _ _ _ => .pure trivial
  | .var name (some value) =>
    refine (ih.evaluate m value hs.2).bind fun v m₁ _ hv => ?_
    exact (Keeps.define hs.1 hv).bind fun _ _ _ _ => .pure trivial
  | .block body =>
    refine .get_bind (.of_sound fun hm => ?_)
    exact (Keeps.newFrame (Lawful.current hm)).bind fun frame m₁ _ hframe =>
      ih.inFrame_executeAll hframe hs
  | .if condition branch other =>
    rw [Stmt.writes_if_iff] at hs
    exact (ih.evaluate m condition hs.1).bind fun v m₁ _ _ => ih.branches m₁ v other hs.2.1 hs.2.2
  | .while condition body => exact ih.executeWhile m condition body hs.1 hs.2
  | .function routine =>
    exact (Keeps.declareFunction hs.1 hs.2).bind fun _ _ _ _ => .pure trivial
  | .return _ none => exact .pure (Lawful.plain (v := .nil) trivial)
  | .return _ (some value) => exact (ih.evaluate m value hs).bind fun _ _ _ hv => .pure hv
  | .class name superclass methods =>
    exact (Keeps.declareClass hs.1 superclass hs.2).bind fun _ _ _ _ => .pure trivial

theorem succ_executeAll (ih : D.KeepsAll fuel) (m : Machine) (ss : List Stmt)
    (hss : Stmt.WritesAll D.MayWrite ss) :
    D.Keeps m (Eval.executeAll (fuel + 1) ss) D.HasFlow := by
  cases ss with
  | nil => exact .pure trivial
  | cons first rest =>
    exact (ih.execute m first hss.1).bind fun flow m₁ _ hflow =>
      next m₁ hflow (ih.executeAll m₁ rest hss.2)

theorem succ_executeWhile (ih : D.KeepsAll fuel) (m : Machine) (condition : Expr) (body : Stmt)
    (hcondition : condition.Writes D.MayWrite) (hbody : body.Writes D.MayWrite) :
    D.Keeps m (Eval.executeWhile (fuel + 1) condition body) D.HasFlow := by
  refine (ih.evaluate m condition hcondition).bind fun v m₁ _ _ => ?_
  split
  · exact (ih.execute m₁ body hbody).bind fun flow m₂ _ hflow =>
      next m₂ hflow (ih.executeWhile m₂ condition body hcondition hbody)
  · exact .pure trivial

end KeepsAll

section Programs

variable [D.Lawful]

variable (D) in
/-- All functions of the evaluator keep to a lawful discipline, with any fuel. -/
theorem keepsAll (fuel : Nat) : D.KeepsAll fuel := by
  induction fuel with
  | zero => exact .zero
  | succ fuel ih =>
    exact {
      evaluate := ih.succ_evaluate
      evaluateAll := ih.succ_evaluateAll
      call := ih.succ_call
      invoke := ih.succ_invoke
      execute := ih.succ_execute
      executeAll := ih.succ_executeAll
      executeWhile := ih.succ_executeWhile }

theorem Keeps.executeProgram (fuel : Nat) (m : Machine) {program : List Stmt}
    (h : Stmt.WritesAll D.MayWrite program) :
    D.Keeps m (executeProgram fuel program) fun _ _ => True := by
  induction program generalizing m with
  | nil => exact .pure trivial
  | cons first rest ih =>
    exact ((D.keepsAll fuel).execute m first h.1).bind fun _ m₁ _ _ => ih m₁ h.2

theorem Keeps.interpret (fuel : Nat) (m : Machine) {program : List Stmt}
    (h : Stmt.WritesAll D.MayWrite program) : D.Keeps m (interpret fuel program) fun _ _ => True :=
  (executeProgram fuel m h).bind fun _ _ _ _ => .flushOutput

end Programs

end Discipline

end Treewalk
