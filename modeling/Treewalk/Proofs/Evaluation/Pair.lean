import Mathlib.Data.Option.Basic
import Treewalk.Proofs.Evaluation.Moment
import Treewalk.Proofs.Scope.Linked

/-!
# Pairs of machines

Two machines that run twin programs in step. The second one may have run before, so that its store
has frames and objects of its own beside those that the two have in common. Apart from these the
stores have the same frames and objects, and they hold the same values, except that in some frames
one name is spelled differently. The globals of the second machine may also hold names that those of
the first one do not hold yet.

What is said of a pair contains what is said of its first machine alone: the frames around a closure
are those of the scopes around its declaration, and a name that is defined in a scope is bound in
its frame.

## Main definitions

* `Setting` — what may be different about the two machines
* `Pair` — two machines, and the frames in which names are replaced
* `Mirrors` — the frames from one outwards are those of given scopes
* `Closure.Twin`, `Value.Twin` — two values that behave alike
* `Pair.Sound` — the invariant of a run
* `Pair.Extends` — nothing is lost on the way from one pair to another

## Main results

* `Mirrors.at_depth` — the frame a number of hops out
* `Mirrors.mono`, `Value.Twin.mono` — what is said of a pair stays true of those that extend it
-/

namespace Treewalk

/-! ### Stores -/

theorem Store.Extends.refl (s : Store) : s.Extends s :=
  ⟨le_rfl, fun _ _ => rfl, fun _ _ h => h, fun _ _ _ _ => rfl⟩

theorem Store.Extends.trans {s₁ s₂ s₃ : Store} (h : s₁.Extends s₂) (h' : s₂.Extends s₃) :
    s₁.Extends s₃ where
  size_le := h.size_le.trans h'.size_le
  enclosing?_eq frame hf :=
    (h'.enclosing?_eq frame (hf.trans_le h.size_le)).trans (h.enclosing?_eq frame hf)
  isSome_local? frame name hs := h'.isSome_local? frame name (h.isSome_local? frame name hs)
  reserved_eq frame name hname hs :=
    (h'.reserved_eq frame name hname (h.isSome_local? frame name hs)).trans
      (h.reserved_eq frame name hname hs)

/-- From `frame` outwards stand the frames of the given scopes, innermost first, and then the
globals. `marked` tells the frames in which names are replaced, `marks` the scopes. -/
inductive Mirrors (s : Store) (marked : FrameId → Bool) :
    (scopes : List Scope) → (marks : List Bool) → (frames : List FrameId) → FrameId → Prop
  | globals : Mirrors s marked [] [] [] globals
  | enter {scope : Scope} {scopes : List Scope} {mark : Bool} {marks : List Bool}
      {frame outer : FrameId} {frames : List FrameId} (hlt : frame < s.frames.size)
      (hmark : marked frame = mark)
      (hbound : ∀ name, scope.get? name = some true → (s.local? frame name).isSome)
      (houter : s.enclosing? frame = some outer) (h : Mirrors s marked scopes marks frames outer) :
      Mirrors s marked (scope :: scopes) (mark :: marks) (frame :: frames) frame

namespace Mirrors

variable {s s' : Store} {marked marked' : FrameId → Bool} {scopes : List Scope} {marks : List Bool}
  {frames : List FrameId} {frame : FrameId}

theorem mono (h : Mirrors s marked scopes marks frames frame) (hs : s.Extends s')
    (hmarked : ∀ frame < s.frames.size, marked' frame = marked frame) :
    Mirrors s' marked' scopes marks frames frame := by
  induction h with
  | globals => exact .globals
  | enter hlt hmark hbound houter h ih =>
    exact .enter (hlt.trans_le hs.size_le) ((hmarked _ hlt).trans hmark)
      (fun name hname => hs.isSome_local? _ _ (hbound name hname))
      ((hs.enclosing?_eq _ hlt).trans houter) ih

theorem length_eq (h : Mirrors s marked scopes marks frames frame) :
    frames.length = scopes.length := by
  induction h with
  | globals => rfl
  | enter hlt hmark hbound houter h ih => rw [List.length_cons, List.length_cons, ih]

/-- The frame `depth` hops out is that of the scope `depth` scopes out. -/
theorem at_depth (h : Mirrors s marked scopes marks frames frame) {depth : Nat} {scope : Scope}
    (hs : scopes[depth]? = some scope) :
    ∃ target, frames[depth]? = some target ∧ s.outward? depth frame = some target ∧
      target < s.frames.size ∧ marked target = marks.getD depth false ∧
      ∀ name, scope.get? name = some true → (s.local? target name).isSome := by
  induction h generalizing depth with
  | globals => simp at hs
  | enter hlt hmark hbound houter h ih =>
    cases depth with
    | zero =>
      obtain rfl := Option.some.inj hs
      exact ⟨_, rfl, rfl, hlt, by simpa using hmark, hbound⟩
    | succ depth =>
      obtain ⟨target, hframes, htarget, hrest⟩ := ih hs
      refine ⟨target, by simpa using hframes, ?_, hrest.1, by simpa using hrest.2.1, hrest.2.2⟩
      rw [Store.outward?, houter]
      exact htarget

/-- A name is declared, or defined, in the innermost scope. -/
theorem congr_head {scope scope' : Scope}
    (h : Mirrors s marked (scope :: scopes) marks frames frame)
    (hscope : ∀ name, scope'.get? name = some true → (s.local? frame name).isSome) :
    Mirrors s marked (scope' :: scopes) marks frames frame := by
  cases h with
  | enter hlt hmark hbound houter h => exact .enter hlt hmark hscope houter h

end Mirrors

/-! ### Settings -/

/-- What may be different about two machines: the spelling of names, on how many lines further down
the second one finds what the `origin`-th program has, how many frames, objects and stamps the
second one has more, the names that its globals may hold beforehand, and what the sinks held
beforehand. -/
structure Setting extends Respelling where
  lines : (origin : Nat) → Nat
  frames : Nat
  objects : Nat
  stamps : Nat
  stale : String → Prop
  before : ByteArray
  before' : ByteArray

namespace Setting

variable (S : Setting)

/-- The edit that leads from the `origin`-th program to its twin. -/
def edit (origin : Nat) : Edit := ⟨S.toRespelling, S.lines origin⟩

/-- The counterpart of a frame. The globals are the globals of both machines. -/
def frame (frame : FrameId) : FrameId := if frame = globals then globals else frame + S.frames

@[simp] theorem frame_globals : S.frame globals = globals := if_pos rfl

theorem frame_of_ne {frame : FrameId} (h : frame ≠ globals) : S.frame frame = frame + S.frames :=
  if_neg h

theorem frame_inj {frame frame' : FrameId} : S.frame frame = S.frame frame' ↔ frame = frame' := by
  refine ⟨fun h => ?_, congrArg S.frame⟩
  have hzero {other : FrameId} (hother : other ≠ globals) : globals ≠ other + S.frames := fun heq =>
    hother (Nat.eq_zero_of_add_eq_zero_right heq.symm)
  unfold Setting.frame at h
  split at h <;> split at h
  · next hf hf' => rw [hf, hf']
  · next hf' => exact absurd h (hzero hf')
  · next hf _ => exact absurd h.symm (hzero hf)
  · exact Nat.add_right_cancel h

/-- Both machines are one and the same. -/
def plain : Setting := ⟨.plain, fun _ => 0, 0, 0, 0, fun _ => False, .empty, .empty⟩

@[simp] theorem frame_plain (frame : FrameId) : plain.frame frame = frame := by
  by_cases h : frame = globals
  · rw [h, frame_globals]
  · exact plain.frame_of_ne h

/-- The sinks of two machines: the second one took the same output as the first one. -/
structure SinksTwin (sink sink' : Sink) : Prop where
  limit_eq : sink'.limit = sink.limit
  flushFails_eq : sink'.flushFails = sink.flushFails
  written : ∃ output, sink.written = S.before ++ output ∧ sink'.written = S.before' ++ output
  room : sink.limit = none ∨ S.before' = S.before

/-- All names that the globals of the second machine may hold beforehand are bound by now. -/
def Settled (m : Machine) : Prop := ∀ name, S.stale name → (m.store.local? globals name).isSome

end Setting

/-! ### Pairs -/

/-- Two machines that run the `text`-th program of their sessions, the node numbers given out in
each, and the frames in which names are replaced. -/
structure Pair where
  left : Machine
  right : Machine
  leftBound : NodeId
  rightBound : NodeId
  text : Nat
  marked : FrameId → Bool

namespace Pair

def leftIds (p : Pair) : Numbering := ⟨p.left.depths, p.leftBound⟩

def rightIds (p : Pair) : Numbering := ⟨p.right.depths, p.rightBound⟩

/-- Nothing that is said of values is lost on the way from one pair to another. -/
structure Extends (p p' : Pair) : Prop where
  store : p.left.store.Extends p'.left.store
  leftIds : p.leftIds.Extends p'.leftIds
  rightIds : p.rightIds.Extends p'.rightIds
  text_le : p.text ≤ p'.text
  marked_eq : ∀ frame < p.left.store.frames.size, p'.marked frame = p.marked frame

theorem Extends.refl (p : Pair) : p.Extends p := ⟨.refl _, .refl _, .refl _, le_rfl, fun _ _ => rfl⟩

theorem Extends.trans {p₁ p₂ p₃ : Pair} (h : p₁.Extends p₂) (h' : p₂.Extends p₃) :
    p₁.Extends p₃ where
  store := h.store.trans h'.store
  leftIds := h.leftIds.trans h'.leftIds
  rightIds := h.rightIds.trans h'.rightIds
  text_le := h.text_le.trans h'.text_le
  marked_eq frame hf :=
    (h'.marked_eq frame (hf.trans_le h.store.size_le)).trans (h.marked_eq frame hf)

end Pair

/-! ### Values -/

variable (R : Place → Moment → Prop) (S : Setting)

/-- Two uses in the `origin`-th program whose entries in the tables of a pair are the depth of the
first one. -/
abbrev Pair.linked (p : Pair) (origin : Nat) : UseRelation :=
  Linked (S.edit origin) p.leftIds p.rightIds

/-- Two closures of twin routines. The first one was made at a place whose scopes
belong to the frames around it. -/
structure Closure.Twin (p : Pair) (c c' : Closure) : Prop where
  frame_eq : c'.frame = S.frame c.frame
  isInitializer_eq : c'.isInitializer = c.isInitializer
  receiver : c.isInitializer = true →
    c.frame < p.left.store.frames.size ∧ p.marked c.frame = false
  made : ∃ place marks context m, Happens R place (.make c context m) ∧
    place.text ≤ p.text ∧ m.store.Extends p.left.store ∧
    Mirrors p.left.store p.marked place.site.scopes marks place.frames c.frame ∧
    Routine.Twin (S.edit place.origin) (p.linked S place.origin) place.site marks context c.routine
      c'.routine

/-- Two methods that are not bound to a receiver yet. -/
structure Closure.MethodTwin (p : Pair) (c c' : Closure) : Prop where
  frame_eq : c'.frame = S.frame c.frame
  isInitializer_eq : c'.isInitializer = c.isInitializer
  owned : ∃ place marks m, Happens R place (.own c m) ∧
    place.text ≤ p.text ∧ m.store.Extends p.left.store ∧
    Mirrors p.left.store p.marked place.site.scopes marks place.frames c.frame ∧
    Routine.Twin (S.edit place.origin) (p.linked S place.origin)
      (place.site.enter (.single "this")) (false :: marks) (methodContext c.routine.name) c.routine
      c'.routine

structure ClassLayer.Twin (p : Pair) (layer layer' : ClassLayer) : Prop where
  stamp_eq : layer'.stamp = layer.stamp + S.stamps
  name_eq : layer'.name = layer.name
  methods : ∀ name, Option.Rel (Closure.MethodTwin R S p) (layer.methods.get? name)
    (layer'.methods.get? name)

structure Class.Twin (p : Pair) (c c' : Class) : Prop where
  own : ClassLayer.Twin R S p c.own c'.own
  inherited : List.Forall₂ (ClassLayer.Twin R S p) c.inherited c'.inherited

structure Instance.Twin (p : Pair) (object object' : Instance) : Prop where
  id_eq : object'.id = object.id + S.objects
  class_twin : Class.Twin R S p object.class object'.class

/-- Two values that behave alike. Plain data is the same. The clock is there only if its name may be
used. -/
inductive Value.Twin (p : Pair) : Value → Value → Prop
  | native {function : Native} (h : ¬S.unused "clock") :
      Value.Twin p (.native function) (.native function)
  | function {stamp : Stamp} {c c' : Closure} (h : Closure.Twin R S p c c') :
      Value.Twin p (.function stamp c) (.function (stamp + S.stamps) c')
  | class {c c' : Class} (h : Class.Twin R S p c c') : Value.Twin p (.class c) (.class c')
  | instance {object object' : Instance} (h : Instance.Twin R S p object object') :
      Value.Twin p (.instance object) (.instance object')
  | number {value : Float} : Value.Twin p (.number value) (.number value)
  | string {text : String} : Value.Twin p (.string text) (.string text)
  | boolean {value : Bool} : Value.Twin p (.boolean value) (.boolean value)
  | nil : Value.Twin p .nil .nil

/-- The values that two counterparts of a frame bind to a name. -/
inductive Value.LocalTwin (p : Pair) (frame : FrameId) (name : String) :
    Option Value → Option Value → Prop
  | bound {v v' : Value} (h : Value.Twin R S p v v') :
      Value.LocalTwin p frame name (some v) (some v')
  | unbound : Value.LocalTwin p frame name none none
  | stale {v' : Value} (hframe : frame = globals) (hname : S.stale name) :
      Value.LocalTwin p frame name none (some v')

/-- The two machines of a pair are in the same state, except for the differences that the setting
allows, and for node numbers. -/
structure Pair.Sound (p : Pair) : Prop where
  current_eq : p.right.current = S.frame p.left.current
  sinks : S.SinksTwin p.left.sink p.right.sink
  clock_eq : ¬S.unused "clock" → p.right.clock = p.left.clock
  nextStamp_eq : p.right.nextStamp = p.left.nextStamp + S.stamps
  frames_size_eq : p.right.store.frames.size = p.left.store.frames.size + S.frames
  objects_size_eq : p.right.store.objects.size = p.left.store.objects.size + S.objects
  enclosing?_eq : ∀ frame, p.right.store.enclosing? (S.frame frame) =
    (p.left.store.enclosing? frame).map S.frame
  locals : ∀ frame name name', ¬S.unused name → S.Spells (p.marked frame) name name' →
    Value.LocalTwin R S p frame name (p.left.store.local? frame name)
      (p.right.store.local? (S.frame frame) name')
  fields : ∀ object name, Option.Rel (Value.Twin R S p) (p.left.store.field? object name)
    (p.right.store.field? (object + S.objects) name)
  globals_lt : globals < p.left.store.frames.size
  enclosing?_globals : p.left.store.enclosing? globals = none
  marked_globals : p.marked globals = false
  old_ne_new : ∀ frame, p.marked frame = true → S.old ≠ S.new

/-! ### Values of later pairs -/

variable {R S} {p p' : Pair}

theorem Pair.Extends.linked (h : p.Extends p') (origin : Nat) :
    p.linked S origin ≤ p'.linked S origin :=
  Linked.mono h.leftIds h.rightIds

theorem Pair.Sound.marked_eq_false (hp : p.Sound R S) (h : S.old = S.new) :
    p.marked = fun _ => false := by
  funext frame
  cases hmarked : p.marked frame with
  | false => rfl
  | true => exact absurd h (hp.old_ne_new frame hmarked)

theorem optionRel_imp {α β : Type} {P Q : α → β → Prop} (h : ∀ a b, P a b → Q a b) {o : Option α}
    {o' : Option β} (ho : Option.Rel P o o') : Option.Rel Q o o' := by
  cases ho with
  | none => exact .none
  | some hab => exact .some (h _ _ hab)

theorem Closure.Twin.mono {c c' : Closure} (h : p.Extends p') (hc : Closure.Twin R S p c c') :
    Closure.Twin R S p' c c' := by
  obtain ⟨place, marks, context, m, hmake, htext, hm, hmirrors, hroutine⟩ := hc.made
  refine { hc with receiver := fun hi => ?_, made := ?_ }
  · obtain ⟨hlt, hmarked⟩ := hc.receiver hi
    exact ⟨hlt.trans_le h.store.size_le, (h.marked_eq _ hlt).trans hmarked⟩
  · exact ⟨place, marks, context, m, hmake, htext.trans h.text_le, hm.trans h.store,
      hmirrors.mono h.store h.marked_eq, hroutine.imp (h.linked _)⟩

theorem Closure.MethodTwin.mono {c c' : Closure} (h : p.Extends p')
    (hc : Closure.MethodTwin R S p c c') : Closure.MethodTwin R S p' c c' := by
  obtain ⟨place, marks, m, hown, htext, hm, hmirrors, hroutine⟩ := hc.owned
  exact { hc with
    owned := ⟨place, marks, m, hown, htext.trans h.text_le, hm.trans h.store,
      hmirrors.mono h.store h.marked_eq, hroutine.imp (h.linked _)⟩ }

theorem ClassLayer.Twin.mono {layer layer' : ClassLayer} (h : p.Extends p')
    (hl : ClassLayer.Twin R S p layer layer') : ClassLayer.Twin R S p' layer layer' :=
  { hl with methods := fun name =>
      optionRel_imp (fun _ _ => Closure.MethodTwin.mono h) (hl.methods name) }

theorem Class.Twin.mono {c c' : Class} (h : p.Extends p') (hc : Class.Twin R S p c c') :
    Class.Twin R S p' c c' :=
  ⟨hc.own.mono h, hc.inherited.imp fun _ _ => ClassLayer.Twin.mono h⟩

theorem Instance.Twin.mono {object object' : Instance} (h : p.Extends p')
    (ho : Instance.Twin R S p object object') : Instance.Twin R S p' object object' :=
  ⟨ho.id_eq, ho.class_twin.mono h⟩

theorem Value.Twin.mono {v v' : Value} (h : p.Extends p') (hv : Value.Twin R S p v v') :
    Value.Twin R S p' v v' := by
  cases hv with
  | native hused => exact .native hused
  | function hc => exact .function (hc.mono h)
  | «class» hc => exact .class (hc.mono h)
  | «instance» ho => exact .instance (ho.mono h)
  | number => exact .number
  | string => exact .string
  | boolean => exact .boolean
  | nil => exact .nil

theorem Value.LocalTwin.mono {frame : FrameId} {name : String} {o o' : Option Value}
    (h : p.Extends p') (ho : Value.LocalTwin R S p frame name o o') :
    Value.LocalTwin R S p' frame name o o' := by
  cases ho with
  | bound hv => exact .bound (hv.mono h)
  | unbound => exact .unbound
  | stale hframe hname => exact .stale hframe hname

end Treewalk
