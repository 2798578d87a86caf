import Treewalk.Proofs.Evaluation.Founded
import Treewalk.Proofs.Evaluation.Outcomes

/-!
# Initializers and their receivers

A method is bound to a receiver by a frame of its own that binds `this` to it, and an initializer
ends by reading `this` from there. No code can write this name, so what it reads is the instance it
was bound to, however long ago that was. That a closure which is an initializer keeps such a frame
is a discipline: functions are no initializers, and a method is only run when it is bound.

## Main definitions

* `Closure.IsBound` — a closure that is bound to an instance
* `Discipline.receiving` — initializers are bound, and what they are bound to is retained
* `Situation.BindsInit` — a method named `init` is bound to an instance

## Main results

* `Discipline.lawful_receiving` — all steps of evaluation keep to this discipline
* `Discipline.keeps_invoke` — running an initializer gives the instance it is bound to
* `Situation.BindsInit.isBound` — a method named `init` is an initializer, and bound to its receiver
-/

namespace Treewalk

open Eval

/-! ### Receivers -/

/-- The frame that the closure keeps binds `this` to the instance. -/
def Closure.IsBound (m : Machine) (closure : Closure) (receiver : Instance) : Prop :=
  m.store.local? closure.frame "this" = some (.instance receiver)

/-- Where a frame binds `this` on the first machine, it still does on the second one. -/
def Machine.Retains (m m' : Machine) : Prop :=
  ∀ frame v, m.store.local? frame "this" = some v → m'.store.local? frame "this" = some v

variable {m m' m₁ : Machine} {closure method bound : Closure} {receiver : Instance} {name : String}
  {v : Value}

theorem Closure.IsBound.unique {receiver' : Instance} (h : closure.IsBound m receiver)
    (h' : closure.IsBound m receiver') : receiver = receiver' := by
  have heq := Option.some.inj (Eq.trans (Eq.symm h) h')
  injection heq

theorem Closure.IsBound.mono (h : closure.IsBound m receiver) (hm : m.Retains m') :
    closure.IsBound m' receiver :=
  hm _ _ h

namespace Machine.Retains

theorem newFrame (m : Machine) (enclosing : Option FrameId) :
    m.Retains { m with store := (m.store.newFrame enclosing).2 } := fun frame _ h =>
  (m.store.local?_newFrame enclosing frame "this").trans h

theorem define (m : Machine) (frame : FrameId) (hname : name ≠ "this") (v : Value) :
    m.Retains { m with store := m.store.define frame name v } := fun _ _ h =>
  (m.store.local?_define ..).trans ((if_neg fun heq => hname heq.2.1.symm).trans h)

/-- The frame that a method is bound in is new. -/
theorem bindReceiver (h : Eval.bindReceiver method receiver m = .ok bound m') : m.Retains m' := by
  cases h
  intro frame v h
  have hlt : frame ≠ m.store.frames.size := by
    rintro rfl
    rw [m.store.local?_of_size_le le_rfl] at h
    cases h
  exact (Store.local?_define ..).trans
    ((if_neg fun heq => hlt heq.1).trans ((m.store.local?_newFrame ..).trans h))

end Machine.Retains

theorem Closure.isInitializer_bindReceiver (h : bindReceiver method receiver m = .ok bound m') :
    bound.isInitializer = method.isInitializer := by
  cases h
  rfl

theorem Closure.isBound_bindReceiver (h : bindReceiver method receiver m = .ok bound m') :
    bound.IsBound m' receiver := by
  cases h
  exact (Store.local?_define ..).trans (if_pos ⟨rfl, rfl, m.store.size_lt_newFrame _⟩)

/-! ### The discipline -/

/-- A method that a class has under a name does not write `this`, and is an initializer just if the
name is `init`. -/
structure Closure.IsMethod (name : String) (method : Closure) : Prop where
  writes : method.routine.Writes (· ≠ "this")
  isInitializer_iff : method.isInitializer ↔ name = "init"

/-- Whatever a class finds under a name is a method of that name. -/
def Class.HasMethods (c : Class) : Prop :=
  ∀ layer ∈ c.layers, ∀ name method, layer.methods.get? name = some method → method.IsMethod name

/-- A closure that does not write `this`, and is bound if it is an initializer. -/
structure Closure.IsReady (m : Machine) (closure : Closure) : Prop where
  writes : closure.routine.Writes (· ≠ "this")
  exists_isBound : closure.isInitializer → ∃ receiver, closure.IsBound m receiver

def Value.IsReady (m : Machine) : Value → Prop
  | .function _ closure => closure.IsReady m
  | .class c => c.HasMethods
  | .instance object => object.class.HasMethods
  | _ => True

structure Machine.IsReady (m : Machine) : Prop where
  locals : ∀ frame name v, m.store.local? frame name = some v → v.IsReady m
  fields : ∀ object name v, m.store.field? object name = some v → v.IsReady m

theorem Class.HasMethods.isMethod {c : Class} (h : c.HasMethods)
    (hmethod : c.findMethod? name = some method) : method.IsMethod name := by
  obtain ⟨layer, hlayer, hget⟩ := List.exists_of_findSome?_eq_some hmethod
  exact h layer hlayer name method hget

theorem Closure.IsReady.mono (h : closure.IsReady m) (hm : m.Retains m') : closure.IsReady m' :=
  ⟨h.writes, fun hinitializer => (h.exists_isBound hinitializer).imp fun _ hbound =>
    hbound.mono hm⟩

theorem Value.IsReady.mono (h : v.IsReady m) (hm : m.Retains m') : v.IsReady m' := by
  cases v with
  | function => exact Closure.IsReady.mono h hm
  | _ => exact h

/-- A bound method is ready. -/
theorem Closure.IsMethod.isReady (h : method.IsMethod name)
    (hbound : bindReceiver method receiver m = .ok bound m') : bound.IsReady m' := by
  refine ⟨?_, fun _ => ⟨receiver, isBound_bindReceiver hbound⟩⟩
  cases hbound
  exact h.writes

/-- A method is an initializer just if it is declared as `init`. -/
theorem Class.hasMethods_extend {stamp : Stamp} {frame : FrameId} {superclass : Option Class}
    {methods : List Routine} (hmethods : Routine.WritesAll (· ≠ "this") methods)
    (hsuperclass : ∀ c ∈ superclass, c.HasMethods) :
    (Class.extend ⟨stamp, name, .ofList (methods.map fun method =>
      (method.name.lexeme, methodClosure frame method))⟩ superclass).HasMethods := by
  intro layer hlayer key method hmethod
  obtain rfl | hinherited := List.mem_cons.1 hlayer
  · have hmethod := (NameMap.get?_ofList ..).symm.trans hmethod
    obtain ⟨entry, hentry, rfl⟩ := Option.map_eq_some_iff.1 hmethod
    have hkey : entry.1 = key := by simpa using List.find?_some hentry
    have hmem := List.mem_reverse.1 (List.mem_of_find?_eq_some hentry)
    obtain ⟨routine, hroutine, rfl⟩ := List.mem_map.1 hmem
    subst hkey
    exact ⟨hmethods.of_mem hroutine, by simp [methodClosure]⟩
  · cases superclass with
    | none => cases hinherited
    | some c => exact hsuperclass c rfl layer hinherited key method hmethod

namespace Machine.IsReady

/-- Everything but what the frames and the objects hold may change. -/
theorem of_eq (h : m.IsReady) (hstore : m'.store = m.store) : m'.IsReady := by
  have hretains : m.Retains m' := fun _ _ h => hstore ▸ h
  constructor
  · rw [hstore]
    exact fun frame name v hv => (h.locals frame name v hv).mono hretains
  · rw [hstore]
    exact fun object name v hv => (h.fields object name v hv).mono hretains

theorem newFrame (h : m.IsReady) (enclosing : Option FrameId) :
    { m with store := (m.store.newFrame enclosing).2 }.IsReady := by
  have hretains := Machine.Retains.newFrame m enclosing
  refine ⟨fun frame name v hv => ?_, fun object name v hv => (h.fields _ _ _ hv).mono hretains⟩
  rw [Store.local?_newFrame] at hv
  exact (h.locals _ _ _ hv).mono hretains

/-- A name is bound to a value that is ready. -/
theorem define (h : m.IsReady) {frame : FrameId}
    (hretains : m.Retains { m with store := m.store.define frame name v }) (hv : v.IsReady m) :
    { m with store := m.store.define frame name v }.IsReady := by
  refine ⟨fun other key w hw => ?_, fun object key w hw => (h.fields _ _ _ hw).mono hretains⟩
  rw [Store.local?_define] at hw
  split at hw
  · cases hw
    exact hv.mono hretains
  · exact (h.locals _ _ _ hw).mono hretains

theorem bindReceiver (h : m.IsReady) (hreceiver : receiver.class.HasMethods)
    (hbound : Eval.bindReceiver method receiver m = .ok bound m') : m'.IsReady := by
  have hretains := Machine.Retains.bindReceiver hbound
  cases hbound
  refine ⟨fun frame name v hv => ?_, fun object name v hv => (h.fields _ _ _ hv).mono hretains⟩
  rw [Store.local?_define] at hv
  split at hv
  · cases hv
    exact hreceiver
  · have hv := (m.store.local?_newFrame (some method.frame) frame name).symm.trans hv
    exact (h.locals _ _ _ hv).mono hretains

theorem newObject (h : m.IsReady) : { m with store := m.store.newObject.2 }.IsReady := by
  have hretains : m.Retains { m with store := m.store.newObject.2 } := fun _ _ h => h
  refine ⟨fun _ _ _ hv => (h.locals _ _ _ hv).mono hretains, fun object name v hv => ?_⟩
  rw [Store.field?_newObject] at hv
  exact (h.fields _ _ _ hv).mono hretains

theorem setField (h : m.IsReady) (object : ObjectId) (name : String) (hv : v.IsReady m) :
    { m with store := m.store.setField object name v }.IsReady := by
  have hretains : m.Retains { m with store := m.store.setField object name v } := fun _ _ h => h
  refine ⟨fun _ _ _ hw => (h.locals _ _ _ hw).mono hretains, fun other key w hw => ?_⟩
  rw [Store.field?_setField] at hw
  split at hw
  · cases hw
    exact hv.mono hretains
  · exact (h.fields _ _ _ hw).mono hretains

/-- The globals hold nothing but plain data. -/
theorem initial (sink : Sink) (reading : Nat → Float) : (Machine.initial sink reading).IsReady := by
  refine ⟨fun frame name v h => ?_, fun object name v h => nomatch h⟩
  rw [Machine.local?_initial] at h
  split at h
  · cases h
    trivial
  · cases h

end Machine.IsReady

namespace Discipline

/-- Initializers that may be run are bound, and what they are bound to is retained. -/
def receiving : Discipline where
  IsSound m := m.IsReady
  Grows m m' := m.Retains m'
  HasFrame _ _ := True
  HasClosure m closure := closure.IsReady m
  HasValue m v := v.IsReady m
  MayWrite name := name ≠ "this"

/-- All steps of evaluation retain receivers. -/
instance lawful_receiving : receiving.Lawful where
  refl _ _ _ h := h
  trans h h' frame v hv := h' frame v (h frame v hv)
  frame_mono _ _ := trivial
  closure_mono h hm := Closure.IsReady.mono h hm
  value_mono h hm := Value.IsReady.mono h hm
  current _ := trivial
  locals hm h := Machine.IsReady.locals hm _ _ _ h
  fields hm h := Machine.IsReady.fields hm _ _ _ h
  plain {m v} h := by cases v <;> trivial
  function_closure h := h
  closure_frame _ := trivial
  closure_writes h := Closure.IsReady.writes h
  instance_class h := h
  grows_of_eq hstore _ _ _ h := hstore ▸ h
  of_eq hm hstore _ _ := Machine.IsReady.of_eq hm hstore
  newFrame {m enclosing} hm _ :=
    ⟨⟨Machine.IsReady.newFrame hm _, Machine.Retains.newFrame m _⟩, trivial⟩
  define {m name v} frame hm hname hv := by
    have hretains := Machine.Retains.define m frame hname v
    exact ⟨Machine.IsReady.define hm hretains hv, hretains⟩
  mayWrite_super := show "super" ≠ "this" by decide
  freshStamp hm := ⟨Machine.IsReady.of_eq hm rfl, fun _ _ h => h⟩
  newFunction _ hclosure := Closure.IsReady.mono hclosure fun _ _ h => h
  newObject hm hc := ⟨⟨Machine.IsReady.newObject hm, fun _ _ h => h⟩, hc⟩
  setField object name hm hv := ⟨Machine.IsReady.setField hm object name hv, fun _ _ h => h⟩
  bindReceiver hm hc hmethod hreceiver hbound :=
    ⟨⟨Machine.IsReady.bindReceiver hm hreceiver hbound, Machine.Retains.bindReceiver hbound⟩,
      (Class.HasMethods.isMethod hc hmethod).isReady hbound⟩
  newClosure _ hroutine := ⟨hroutine, nofun⟩
  newClass _ _ hsuperclass _ hmethods := Class.hasMethods_extend hmethods hsuperclass

end Discipline

/-! ### What initializers give -/

/-- A function that is an initializer bound to the instance. -/
def Value.IsInitOf (m : Machine) (receiver : Instance) (v : Value) : Prop :=
  ∃ stamp closure, v = .function stamp closure ∧ closure.isInitializer ∧ closure.IsBound m receiver

namespace Discipline

/-- Whatever its body returns, an initializer gives the instance it is bound to. -/
theorem keeps_invoke (fuel : Nat) (paren : Token) {arguments : List Value}
    (hclosure : closure.IsReady m) (harguments : ∀ v ∈ arguments, v.IsReady m)
    (hinitializer : closure.isInitializer) (hbound : closure.IsBound m receiver) :
    receiving.Keeps m (invoke fuel closure paren arguments) fun _ v => v = .instance receiver := by
  cases fuel with
  | zero => exact .throw _
  | succ fuel =>
    rw [invoke_succ_eq]
    refine (Keeps.callFrame hclosure harguments).bind fun frame m₁ hm₁ hframe => ?_
    have hbody := (Routine.writes_iff.1 hclosure.writes).2
    refine ((receiving.keepsAll fuel).inFrame_executeAll hframe hbody).bind fun _ m₂ hm₂ _ => ?_
    rw [if_pos hinitializer]
    refine .get_bind ?_
    rw [(hbound.mono hm₁).mono hm₂]
    exact .pure rfl

/-- A method that is found under `init` is made into an initializer. -/
theorem keeps_bindReceiver (hmethod : method.IsMethod "init")
    (hreceiver : receiver.class.HasMethods) :
    receiving.Keeps m (bindReceiver method receiver >>= newFunction)
      (Value.IsInitOf · receiver) := by
  have hbind : receiving.Keeps m (bindReceiver method receiver) fun m' bound =>
      bound.isInitializer ∧ bound.IsBound m' receiver := by
    intro hm
    obtain ⟨bound, m', hbound⟩ : ∃ bound m', bindReceiver method receiver m = .ok bound m' :=
      ⟨_, _, rfl⟩
    rw [hbound]
    refine ⟨⟨Machine.IsReady.bindReceiver hm hreceiver hbound,
      Machine.Retains.bindReceiver hbound⟩, ?_⟩
    rintro _ _ ⟨⟩
    rw [Closure.isInitializer_bindReceiver hbound]
    exact ⟨hmethod.isInitializer_iff.2 rfl, Closure.isBound_bindReceiver hbound⟩
  refine hbind.bind fun bound m₁ _ hbound => ?_
  have hstamp : receiving.Keeps m₁ freshStamp fun m' _ => bound.IsBound m' receiver :=
    .modifyGet (fun hm => Lawful.freshStamp hm) fun _ => hbound.2
  exact hstamp.bind fun stamp _ _ h => .pure ⟨stamp, bound, rfl, hbound.1, h⟩

theorem keeps_getProperty {name : Token} (hname : name.lexeme = "init")
    (hreceiver : receiver.class.HasMethods)
    (hfield : m.store.field? receiver.id name.lexeme = none) :
    receiving.Keeps m (getProperty receiver name) (Value.IsInitOf · receiver) := by
  refine .get_bind ?_
  rw [hfield]
  dsimp only
  split
  · next method hmethod =>
    exact keeps_bindReceiver (hname ▸ hreceiver.isMethod hmethod) hreceiver
  · exact .fail name _

/-- A method of the superclass is bound to the instance that `this` is there. -/
theorem keeps_superMethod {use : Use} {name : Token} {depth : Nat} (hname : name.lexeme = "init")
    (hdepth : m.depths.depth? use.id = some (depth + 1))
    (hthis : m.store.getAt depth m.current ⟨.keyword .this, "this", use.token.line⟩ =
      .ok (.instance receiver)) :
    receiving.Keeps m (superMethod use name) (Value.IsInitOf · receiver) := by
  refine .get_bind (.of_sound fun hm => ?_)
  obtain ⟨frame, -, hlocal⟩ := Store.getAt_eq_ok_iff.1 hthis
  have hreceiver : receiver.class.HasMethods := Machine.IsReady.locals hm _ _ _ hlocal
  rw [hdepth]
  dsimp only
  refine (Keeps.getAt hm (Lawful.refl m) _ _ _).bind fun superclass m₁ _ hsuper => ?_
  simp only [hthis, orFail, pure_bind]
  split
  · next c _ hinstance =>
    cases hinstance
    split
    · next method hmethod =>
      have hc : c.HasMethods := hsuper
      exact keeps_bindReceiver (hname ▸ hc.isMethod hmethod) hreceiver
    · exact .fail name _
  · exact .fail use.token _

end Discipline

/-- In the situation a method named `init` is bound to an instance, and this makes the closure: when
a class is called, to its new instance; when it is looked up in an instance, to this one; and when
it is looked up in a superclass, to `this`. -/
inductive Situation.BindsInit : Situation → Closure → Instance → Prop
  | construct {held : Held} {fuel : Nat} {c : Class} {paren : Token} {values : List Value}
      {object : Instance} {initializer bound : Closure} {m m₁ m₂ : Machine}
      (harity : values.length = c.arity) (hobject : newInstance c m = .ok object m₁)
      (hinitializer : c.initializer? = some initializer)
      (hbound : bindReceiver initializer object m₁ = .ok bound m₂) :
      BindsInit ⟨held, .call (fuel + 1) (.class c) paren values m⟩ bound object
  | property {held : Held} {fuel : Nat} {object : Expr} {name : Token} {receiver : Instance}
      {stamp : Stamp} {closure : Closure} {m m₁ m₂ : Machine} (hname : name.lexeme = "init")
      (hobject : evaluate fuel object m = .ok (.instance receiver) m₁)
      (hfield : m₁.store.field? receiver.id name.lexeme = none)
      (h : evaluate (fuel + 1) (.property object name) m = .ok (.function stamp closure) m₂) :
      BindsInit ⟨held, .evaluate (fuel + 1) (.property object name) m⟩ closure receiver
  | super {held : Held} {fuel depth : Nat} {use : Use} {name : Token} {receiver : Instance}
      {stamp : Stamp} {closure : Closure} {m m₁ : Machine} (hname : name.lexeme = "init")
      (hdepth : m.depths.depth? use.id = some (depth + 1))
      (hthis : m.store.getAt depth m.current ⟨.keyword .this, "this", use.token.line⟩ =
        .ok (.instance receiver))
      (h : evaluate (fuel + 1) (.super use name) m = .ok (.function stamp closure) m₁) :
      BindsInit ⟨held, .evaluate (fuel + 1) (.super use name) m⟩ closure receiver

theorem Situation.BindsInit.isBound {s : Situation} (h : s.BindsInit closure receiver)
    (hs : Discipline.receiving.Holds s) :
    closure.isInitializer ∧ closure.IsBound s.moment.outcome.2 receiver := by
  have hm := hs.machine
  cases h with
  | @construct held fuel c paren values _ initializer _ m m₁ m₂ harity hobject hinitializer
      hbound =>
    have hleads : Situation.Leads ⟨held, .call (fuel + 1) (.class c) paren values m⟩
        ⟨(held.add (.class c)).add (.instance receiver), .invoke fuel closure paren values m₂⟩ :=
      .construct harity hobject hinitializer hbound
    have hc : c.HasMethods := hs.values _ (.head _)
    refine ⟨?_, ?_⟩
    · rw [Closure.isInitializer_bindReceiver hbound]
      exact (hc.isMethod hinitializer).isInitializer_iff.2 rfl
    · -- what the new frame binds is retained while the initializer runs, and afterwards
      have hgrows := (hleads.keeps hs).1.outcome.1.grows
      exact ((Closure.isBound_bindReceiver hbound).mono hgrows).mono (hleads.grows_outcome hs)
  | property hname hobject hfield h =>
    obtain ⟨hm₁, -, hreceiver⟩ := Discipline.evaluated hm hs.writes.2 hobject
    have hproperty := h
    rw [evaluate, bind_eq_of_ok hobject] at hproperty
    obtain ⟨-, -, stamp, closure, heq, hinit⟩ :=
      (Discipline.keeps_getProperty hname hreceiver hfield).of_ok hm₁ hproperty
    cases heq
    rw [Moment.outcome, h]
    exact hinit
  | super hname hdepth hthis h =>
    obtain ⟨-, -, stamp, closure, heq, hinit⟩ :=
      (Discipline.keeps_superMethod hname hdepth hthis).of_ok hm h
    cases heq
    rw [Moment.outcome, h]
    exact hinit

end Treewalk
