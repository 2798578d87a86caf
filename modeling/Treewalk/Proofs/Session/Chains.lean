import Mathlib
import Treewalk.Proofs.Evaluation.Outcomes
import Treewalk.Proofs.Session.CurrentFrame

/-!
# Chains of frames and classes

Frames are shared and names are bound anew, but what a machine makes refers to older things only. So
from every frame there is a way outwards that ends at the globals, and from every class a way to
superclasses that ends, also where a class inherits from a class that inherits from an older one of
the same name. A method is looked up along this way.

## Main definitions

* `Class.ancestor?` — the superclasses of a class, one after the other
* `State.HasFrame`, `State.HasClass` — the frames and classes that are reached from a state
* `State.ChainsEnd` — their chains end, and methods are found along them

## Main results

* `Session.chains_end` — so it is in every state of every session
-/

namespace Treewalk

open Eval

/-! ### The superclasses of a class -/

namespace Class

/-- The class `i` steps along the superclasses. -/
def ancestor? : (i : Nat) → Class → Option Class
  | 0, c => some c
  | i + 1, c => c.superclass?.bind (ancestor? i)

theorem layers_of_superclass? {c d : Class} (h : c.superclass? = some d) :
    c.layers = c.own :: d.layers := by
  obtain ⟨own, inherited⟩ := c
  cases inherited with
  | nil => cases h
  | cons first rest =>
    cases h
    rfl

theorem layers_of_ancestor? {i : Nat} {c d : Class} (h : ancestor? i c = some d) :
    d.layers = c.layers.drop i := by
  induction i generalizing c with
  | zero =>
    cases h
    rfl
  | succ i ih =>
    obtain ⟨super, hsuper, hancestor⟩ := Option.bind_eq_some_iff.1 h
    rw [ih hancestor, layers_of_superclass? hsuper, List.drop_succ_cons]

/-- The own layer of a superclass is one of the layers of the class. -/
theorem getElem?_layers_of_ancestor? {i : Nat} {c d : Class} (h : ancestor? i c = some d) :
    c.layers[i]? = some d.own := by
  have hlayers := layers_of_ancestor? h
  rw [← List.head?_drop, ← hlayers]
  rfl

theorem exists_ancestor? {i : Nat} {c : Class} {layer : ClassLayer}
    (h : c.layers[i]? = some layer) : ∃ d, c.ancestor? i = some d ∧ d.own = layer := by
  obtain ⟨own, inherited⟩ := c
  induction i generalizing own inherited with
  | zero => exact ⟨_, rfl, Option.some.inj h⟩
  | succ i ih =>
    cases inherited with
    | nil => cases h
    | cons first rest => exact ih first rest h

/-- There are as many superclasses as layers, counting the class itself. -/
theorem ancestor?_length (c : Class) : c.ancestor? c.layers.length = none := by
  obtain ⟨own, inherited⟩ := c
  induction inherited generalizing own with
  | nil => rfl
  | cons first rest ih => exact ih first

/-- No class of the chain has a method under a name that is not found. -/
theorem findMethod?_eq_none_iff {c : Class} {name : String} : c.findMethod? name = none ↔
    ∀ i d, c.ancestor? i = some d → d.own.methods.get? name = none := by
  rw [findMethod?, List.findSome?_eq_none_iff]
  constructor
  · exact fun h i d hd => h d.own (List.mem_of_getElem? (getElem?_layers_of_ancestor? hd))
  · intro h layer hlayer
    obtain ⟨i, hi⟩ := List.getElem?_of_mem hlayer
    obtain ⟨d, hd, rfl⟩ := exists_ancestor? hi
    exact h i d hd

/-- The method that is found is the one of the nearest class of the chain that has one. -/
theorem findMethod?_eq_some_iff {c : Class} {name : String} {method : Closure} :
    c.findMethod? name = some method ↔ ∃ i d, c.ancestor? i = some d ∧
      d.own.methods.get? name = some method ∧
        ∀ j d', j < i → c.ancestor? j = some d' → d'.own.methods.get? name = none := by
  rw [findMethod?, List.findSome?_eq_some_iff]
  constructor
  · rintro ⟨nearer, layer, further, hlayers, hmethod, hnearer⟩
    obtain ⟨d, hd, rfl⟩ := @exists_ancestor? nearer.length c layer (by simp [hlayers])
    refine ⟨nearer.length, d, hd, hmethod, fun j d' hj hd' => hnearer _ ?_⟩
    have hlayer := getElem?_layers_of_ancestor? hd'
    rw [hlayers, List.getElem?_append_left hj] at hlayer
    exact List.mem_of_getElem? hlayer
  · rintro ⟨i, d, hd, hmethod, hnearer⟩
    obtain ⟨hi, hlayer⟩ := List.getElem?_eq_some_iff.1 (getElem?_layers_of_ancestor? hd)
    refine ⟨c.layers.take i, d.own, c.layers.drop (i + 1), ?_, hmethod, fun layer hmem => ?_⟩
    · rw [← hlayer, List.cons_getElem_drop_succ, List.take_append_drop]
    · obtain ⟨j, hj⟩ := List.getElem?_of_mem hmem
      rw [List.getElem?_take] at hj
      split at hj
      · next hlt =>
        obtain ⟨d', hd', rfl⟩ := exists_ancestor? hj
        exact hnearer j d' hlt hd'
      · cases hj

/-- A class is newer than its superclasses, each of which is newer than the next. -/
theorem Within.stamp_lt_of_ancestor? {m : Machine} {c d d' : Class} (h : c.Within m) {i j : Nat}
    (hij : i < j) (hd : c.ancestor? i = some d) (hd' : c.ancestor? j = some d') :
    d'.own.stamp < d.own.stamp := by
  obtain ⟨hi, hlayer⟩ := List.getElem?_eq_some_iff.1 (getElem?_layers_of_ancestor? hd)
  obtain ⟨hj, hlayer'⟩ := List.getElem?_eq_some_iff.1 (getElem?_layers_of_ancestor? hd')
  rw [← hlayer, ← hlayer']
  exact List.pairwise_iff_getElem.1 h.older i j hi hj hij

/-- So there are no more of them than stamps. -/
theorem Within.length_layers_le {m : Machine} {c : Class} (h : c.Within m) :
    c.layers.length ≤ m.nextStamp := by
  have hbound (own : ClassLayer) (inherited : List ClassLayer)
      (holder : (own :: inherited).Pairwise fun layer older => older.stamp < layer.stamp) :
      inherited.length ≤ own.stamp := by
    induction inherited generalizing own with
    | nil => exact Nat.zero_le _
    | cons first rest ih =>
      obtain ⟨hfirst, hrest⟩ := List.pairwise_cons.1 holder
      exact (ih first hrest).trans_lt (hfirst first (.head _))
  exact (Nat.succ_le_succ (hbound c.own c.inherited h.older)).trans h.stamp_lt

/-- A superclass refers only to what the class refers to. -/
theorem Within.superclass {m : Machine} {c d : Class} (h : c.Within m)
    (hd : c.superclass? = some d) : d.Within m := by
  have hlayers := layers_of_superclass? hd
  obtain ⟨hstamp, holder, hframe⟩ := h
  rw [hlayers] at holder hframe
  obtain ⟨hlt, holder⟩ := List.pairwise_cons.1 holder
  exact ⟨(hlt d.own (.head _)).trans hstamp, holder,
    fun layer hlayer => hframe layer (.tail _ hlayer)⟩

end Class

/-! ### What is reached from a state -/

/-- The closures of a value: of a function or bound method, of the methods of a class, or of the
class of an instance. -/
inductive Value.HasClosure : Value → Closure → Prop
  | function {stamp : Stamp} {closure : Closure} : HasClosure (.function stamp closure) closure
  | method {c : Class} {layer : ClassLayer} {name : String} {method : Closure}
      (hlayer : layer ∈ c.layers) (hmethod : layer.methods.get? name = some method) :
      HasClosure (.class c) method
  | receiver {object : Instance} {closure : Closure}
      (h : HasClosure (.class object.class) closure) : HasClosure (.instance object) closure

/-- The classes of a value, and their superclasses. -/
inductive Value.HasClass : Value → Class → Prop
  | class (c : Class) : HasClass (.class c) c
  | instance (object : Instance) : HasClass (.instance object) object.class
  | superclass {v : Value} {c d : Class} (h : HasClass v c) (hd : c.superclass? = some d) :
      HasClass v d

namespace State

/-- The values of a state: those in use, and those that its frames and objects hold. -/
inductive HasValue (s : State) : Value → Prop
  | used {v : Value} (h : v ∈ s.values) : HasValue s v
  | local {frame : FrameId} {name : String} {v : Value}
      (h : s.machine.store.local? frame name = some v) : HasValue s v
  | field {object : ObjectId} {name : String} {v : Value}
      (h : s.machine.store.field? object name = some v) : HasValue s v

/-- The frames that are reached from a state: from the current one, or from a closure, outwards. -/
inductive HasFrame (s : State) : FrameId → Prop
  | current : HasFrame s s.machine.current
  | running {closure : Closure} (h : closure ∈ s.closures) : HasFrame s closure.frame
  | closure {v : Value} {closure : Closure} (hv : s.HasValue v) (h : v.HasClosure closure) :
      HasFrame s closure.frame
  | enclosing {frame outer : FrameId} (h : HasFrame s frame)
      (houter : s.machine.store.enclosing? frame = some outer) : HasFrame s outer

/-- The classes of all values of a state, and their superclasses. -/
def HasClass (s : State) (c : Class) : Prop := ∃ v, s.HasValue v ∧ v.HasClass c

/-- The chains of frames and of superclasses come to an end, and methods are found along the
latter. -/
structure ChainsEnd (s : State) : Prop where
  /-- The way outwards from a frame leads to the globals, in no more hops than there are older
  frames. -/
  rooted : ∀ frame, s.HasFrame frame →
    ∃ hops ≤ frame, s.machine.store.outward? hops frame = some globals
  /-- It does not lead further. -/
  outermost : s.machine.store.enclosing? globals = none
  /-- A frame is inside an older one. -/
  inside : ∀ frame outer, s.HasFrame frame → s.machine.store.enclosing? frame = some outer →
    outer < frame
  /-- The superclasses of a class are older and older, so that none of them comes again. -/
  older : ∀ c, s.HasClass c → ∀ i j d d', i < j → c.ancestor? i = some d → c.ancestor? j = some d' →
    d'.own.stamp < d.own.stamp
  /-- There are no more of them than stamps given out. -/
  finite : ∀ c, s.HasClass c → ∃ length ≤ s.machine.nextStamp, c.ancestor? length = none
  /-- The method that is found is the one of the nearest class of the chain that has one. -/
  nearest : ∀ c, s.HasClass c → ∀ name method, c.findMethod? name = some method ↔
    ∃ i d, c.ancestor? i = some d ∧ d.own.methods.get? name = some method ∧
      ∀ j d', j < i → c.ancestor? j = some d' → d'.own.methods.get? name = none
  /-- None is found just if no class of the chain has one. -/
  undeclared : ∀ c, s.HasClass c → ∀ name, c.findMethod? name = none ↔
    ∀ i d, c.ancestor? i = some d → d.own.methods.get? name = none

end State

/-! ### Founded states -/

/-- From every frame there is a way outwards to the globals. -/
theorem Machine.Founded.rooted {m : Machine} (hm : m.Founded) {frame : FrameId}
    (h : frame < m.store.frames.size) :
    ∃ hops ≤ frame, m.store.outward? hops frame = some globals := by
  induction frame using Nat.strong_induction_on with
  | _ frame ih =>
    by_cases hglobals : frame = globals
    · exact ⟨0, Nat.zero_le _, congrArg some hglobals⟩
    · obtain ⟨outer, houter, hlt⟩ := hm.exists_enclosing frame h hglobals
      obtain ⟨hops, hle, hhops⟩ := ih outer hlt (hlt.trans h)
      refine ⟨hops + 1, Nat.succ_le_of_lt (hle.trans_lt hlt), ?_⟩
      rw [Store.outward?, houter]
      exact hhops

theorem Machine.Founded.outer_lt {m : Machine} (hm : m.Founded) {frame outer : FrameId}
    (h : frame < m.store.frames.size) (houter : m.store.enclosing? frame = some outer) :
    outer < frame := by
  have hne : frame ≠ globals := by
    rintro rfl
    rw [hm.enclosing?_globals] at houter
    cases houter
  obtain ⟨outer', houter', hlt⟩ := hm.exists_enclosing frame h hne
  obtain rfl : outer = outer' := Option.some.inj (houter.symm.trans houter')
  exact hlt

theorem Value.Within.frame_lt {m : Machine} {v : Value} {closure : Closure} (hv : v.Within m)
    (h : v.HasClosure closure) : closure.frame < m.store.frames.size := by
  induction h with
  | function => exact hv.2
  | method hlayer hmethod => exact Class.Within.frame_lt hv _ hlayer _ _ hmethod
  | receiver _ ih => exact ih (Instance.Within.class_within hv)

theorem Value.Within.class_within {m : Machine} {v : Value} {c : Class} (hv : v.Within m)
    (h : v.HasClass c) : c.Within m := by
  induction h with
  | «class» => exact hv
  | «instance» => exact Instance.Within.class_within hv
  | superclass _ hd ih => exact (ih hv).superclass hd

namespace State.Founded

variable {s : State}

theorem within (hs : s.Founded) {v : Value} (h : s.HasValue v) : v.Within s.machine := by
  cases h with
  | used h => exact hs.values v h
  | «local» h => exact hs.machine.locals _ _ _ h
  | field h => exact hs.machine.fields _ _ _ h

theorem frame_lt (hs : s.Founded) {frame : FrameId} (h : s.HasFrame frame) :
    frame < s.machine.store.frames.size := by
  induction h with
  | current => exact hs.machine.current_lt
  | running h => exact hs.closures _ h
  | closure hv h => exact (hs.within hv).frame_lt h
  | enclosing _ houter ih => exact (hs.machine.outer_lt ih houter).trans ih

theorem chainsEnd (hs : s.Founded) : s.ChainsEnd where
  rooted _ h := hs.machine.rooted (hs.frame_lt h)
  outermost := hs.machine.enclosing?_globals
  inside _ _ h houter := hs.machine.outer_lt (hs.frame_lt h) houter
  older _ h _ _ _ _ hij hd hd' := by
    obtain ⟨v, hv, hc⟩ := h
    exact ((hs.within hv).class_within hc).stamp_lt_of_ancestor? hij hd hd'
  finite c h := by
    obtain ⟨v, hv, hc⟩ := h
    exact ⟨_, ((hs.within hv).class_within hc).length_layers_le, c.ancestor?_length⟩
  nearest _ _ _ _ := Class.findMethod?_eq_some_iff
  undeclared _ _ _ := Class.findMethod?_eq_none_iff

end State.Founded

/-! ### Sessions -/

namespace Session

variable {s : Session}

/-- A text that is checked may bring entries of the depth table. -/
theorem later_accept (s : Session) (source : String) :
    Machine.Later Source.IsProgram s.machine (s.accept source).2.machine := by
  unfold accept
  split
  · next h => exact (congrArg (·.2.machine) h : s.machine = _) ▸ .refl
  · next program s₁ h =>
    have hcheck : Machine.Later Source.IsProgram s.machine (s₁.check program).2.machine :=
      (congrArg (·.2.machine) h : s.machine = s₁.machine) ▸ .withDepths .refl _
    split
    · next hcheck' => rwa [hcheck'] at hcheck
    · next hcheck' => rwa [hcheck'] at hcheck

theorem isProgram_of_accept {s₁ : Session} {source : String} {program : List Stmt}
    (h : s.accept source = (.ok program, s₁)) : Source.IsProgram program := by
  unfold accept at h
  split at h
  · cases h
  · next program' s' hread =>
    have hresult : (Source.parse source s.nextId).result = .ok program' := congrArg Prod.fst hread
    split at h
    · cases h
      exact ⟨source, s.nextId, hresult⟩
    · cases h

theorem later_run (s : Session) (fuel : Nat) (source : String) :
    Machine.Later Source.IsProgram s.machine (s.run fuel source).2.machine := by
  have haccept := later_accept s source
  unfold run
  split
  · next h => rwa [h] at haccept
  · next program s₁ h =>
    rw [h] at haccept
    show Machine.Later Source.IsProgram s.machine (s₁.machine.run fuel program).2
    rw [Machine.run, machine_outcomeOf]
    exact haccept.interpret fuel (isProgram_of_accept h)

theorem later_runAll (s : Session) (fuel : Nat) (sources : List String) :
    Machine.Later Source.IsProgram s.machine (s.runAll fuel sources).2.machine := by
  induction sources generalizing s with
  | nil => exact .refl
  | cons source rest ih => exact (later_run s fuel source).trans (ih (s.run fuel source).2)

theorem idle_accept (hs : s.machine.Idle) (source : String) : (s.accept source).2.machine.Idle :=
  (later_accept s source).idle hs

theorem idle_runAll (hs : s.machine.Idle) (fuel : Nat) (sources : List String) :
    (s.runAll fuel sources).2.machine.Idle :=
  (later_runAll s fuel sources).idle hs

/-- **Chains of frames and classes end.** In all that a machine comes to, between programs and
inside of them, whatever the programs are and whatever its depth tables say, every frame that is
reached from the current one or from a closure has a way outwards to the globals, and every class
has a finite chain of superclasses, each older than the one before, along which methods are found.
All states of a session are among these. -/
theorem chains_end : (∀ state : State, state.Reachable → state.ChainsEnd) ∧
    ∀ (sink : Sink) (reading : Nat → Float) (fuel : Nat) (before : List String),
      State.Reachable ⟨((initial sink reading).runAll fuel before).2.machine, [], []⟩ ∧
      ∀ source program s₁ situation,
        ((initial sink reading).runAll fuel before).2.accept source = (.ok program, s₁) →
        Situation.OfRun fuel program s₁.machine situation →
        situation.before.Reachable ∧ situation.after.Reachable := by
  refine ⟨fun state h => h.founded.chainsEnd, fun sink reading fuel before => ?_⟩
  have hidle := idle_runAll (s := initial sink reading) (.initial sink reading) fuel before
  refine ⟨.idle hidle, fun source program s₁ situation haccept hsituation => ?_⟩
  have hidle₁ := idle_accept hidle source
  rw [haccept] at hidle₁
  exact ⟨.before hidle₁ hsituation, .after hidle₁ hsituation⟩

/-- A class that inherits from a class that inherits from an older one of the same name. -/
def reboundText : String :=
  "class A \x7b m() \x7b\x7d \x7d class B < A \x7b\x7d class A < B \x7b\x7d"

def reboundProgram : List Stmt :=
  [.class ⟨.identifier, "A", 1⟩ none [⟨⟨.identifier, "m", 1⟩, [], []⟩],
    .class ⟨.identifier, "B", 1⟩ (some ⟨0, ⟨.identifier, "A", 1⟩⟩) [],
    .class ⟨.identifier, "A", 1⟩ (some ⟨1, ⟨.identifier, "B", 1⟩⟩) []]

set_option maxRecDepth 100000 in
theorem parse_reboundText : Source.parse reboundText 0 = ⟨reboundProgram, [], 2, true⟩ := by
  cbv

theorem accept_reboundText : (initial .unbounded fun _ => 0).accept reboundText =
    (.ok reboundProgram,
      ⟨(Machine.initial .unbounded fun _ => 0).record (analyse reboundProgram), 2⟩) :=
  accept_of_parse parse_reboundText rfl

def reboundMethod : Closure := ⟨⟨⟨.identifier, "m", 1⟩, [], []⟩, globals, false⟩

/-- The older class of the name. -/
def reboundOlder : Class := ⟨⟨0, "A", .ofList [("m", reboundMethod)]⟩, []⟩

def reboundNewer : Class := ⟨⟨2, "A", .empty⟩, [⟨1, "B", .empty⟩, reboundOlder.own]⟩

theorem local?_runAll_reboundText :
    ((initial .unbounded fun _ => 0).runAll 10 [reboundText]).2.machine.store.local? globals "A" =
      some (.class reboundNewer) := by
  rw [runAll, run, accept_reboundText]
  cbv

/-- The older class of the name is the second superclass of the newer one, and its method is found
there. -/
theorem chains_end_reboundText : ∃ (state : State) (i hops : Nat) (d : Class),
    state.machine = ((initial .unbounded fun _ => 0).runAll 10 [reboundText]).2.machine ∧
      state.Reachable ∧ state.machine.store.local? globals "A" = some (.class reboundNewer) ∧
      reboundNewer.ancestor? 2 = some reboundOlder ∧ reboundOlder.name = reboundNewer.name ∧
      reboundOlder.own.stamp < reboundNewer.own.stamp ∧
      reboundNewer.ancestor? i = some d ∧ d.own.methods.get? "m" = some reboundMethod ∧
      state.machine.store.outward? hops reboundMethod.frame = some globals := by
  obtain ⟨hchains, hsessions⟩ := chains_end
  have hreachable := (hsessions .unbounded (fun _ => 0) 10 [reboundText]).1
  have hend := hchains _ hreachable
  have hvalue := State.HasValue.local (s := ⟨_, [], []⟩) local?_runAll_reboundText
  have hclass : State.HasClass _ reboundNewer := ⟨_, hvalue, .class _⟩
  have hget : reboundOlder.own.methods.get? "m" = some reboundMethod := rfl
  have hclosure : (Value.class reboundNewer).HasClosure reboundMethod :=
    .method (.tail _ (.tail _ (.head _))) hget
  have holder := hend.older _ hclass 0 2 _ reboundOlder Nat.two_pos rfl rfl
  obtain ⟨i, d, hd, hmethod, -⟩ := (hend.nearest _ hclass "m" reboundMethod).1 rfl
  obtain ⟨hops, -, hrooted⟩ := hend.rooted _ (.closure hvalue hclosure)
  exact ⟨_, i, hops, d, rfl, hreachable, local?_runAll_reboundText, rfl, rfl, holder, hd, hmethod,
    hrooted⟩

end Session

end Treewalk
