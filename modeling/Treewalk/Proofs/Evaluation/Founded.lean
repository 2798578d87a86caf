import Mathlib.Data.List.Induction
import Treewalk.Proofs.Evaluation.Composed
import Treewalk.Proofs.Evaluation.Moment
import Treewalk.Proofs.Evaluation.Stores

/-!
# Founded machines

Everything a machine makes refers to what was made before it: a frame is inside an older one, a
closure keeps a frame that is there, a class has superclasses with older stamps. This goes for all
that the frames and objects of the store hold.

## Main definitions

* `Machine.Grows` — a machine that has made more than another
* `Value.Within` — a value that refers to nothing but what a machine has made
* `Machine.Founded` — a machine whose frames and objects hold only such values

## Main results

* `Machine.Founded.newFrame`, `Machine.Founded.define`, `Machine.Founded.newObject`,
  `Machine.Founded.setField`, `Machine.Founded.freshStamp` — what a machine does to its store, and
  giving out a stamp, keep it founded
-/

namespace Treewalk

open Eval

variable {α : Type}

/-- The last entry for a name counts. -/
theorem NameMap.get?_ofList (entries : List (String × α)) (name : String) :
    (NameMap.ofList entries).get? name = (entries.reverse.find? (·.1 = name)).map Prod.snd := by
  induction entries using List.reverseRecOn with
  | nil => rfl
  | append_singleton entries entry ih =>
    rw [ofList, List.foldl_append, List.foldl_cons, List.foldl_nil, get?_set, List.reverse_concat,
      List.find?_cons]
    by_cases h : name = entry.1
    · simp [h]
    · rw [if_neg h, decide_eq_false (Ne.symm h)]
      exact ih

/-- What a map holds is one of the entries it was made from. -/
theorem NameMap.mem_of_get?_ofList {entries : List (String × α)} {name : String} {a : α}
    (h : (NameMap.ofList entries).get? name = some a) : ∃ entry ∈ entries, entry.2 = a := by
  rw [get?_ofList, Option.map_eq_some_iff] at h
  obtain ⟨entry, hentry, ha⟩ := h
  exact ⟨entry, List.mem_reverse.1 (List.mem_of_find?_eq_some hentry), ha⟩

/-! ### What was made -/

/-- The second machine has made at least as many frames, objects and stamps. -/
structure Machine.Grows (m m' : Machine) : Prop where
  frames_le : m.store.frames.size ≤ m'.store.frames.size
  objects_le : m.store.objects.size ≤ m'.store.objects.size
  stamps_le : m.nextStamp ≤ m'.nextStamp

namespace Machine.Grows

variable {m m₁ m₂ : Machine}

theorem refl (m : Machine) : m.Grows m := ⟨le_rfl, le_rfl, le_rfl⟩

theorem trans (h : m.Grows m₁) (h' : m₁.Grows m₂) : m.Grows m₂ :=
  ⟨h.frames_le.trans h'.frames_le, h.objects_le.trans h'.objects_le,
    h.stamps_le.trans h'.stamps_le⟩

end Machine.Grows

/-- The layers of a class have older and older stamps, all of them given out, and its methods keep
frames that are there. -/
structure Class.Within (m : Machine) (c : Class) : Prop where
  stamp_lt : c.own.stamp < m.nextStamp
  older : c.layers.Pairwise fun layer inherited => inherited.stamp < layer.stamp
  frame_lt : ∀ layer ∈ c.layers, ∀ name method, layer.methods.get? name = some method →
    method.frame < m.store.frames.size

structure Instance.Within (m : Machine) (object : Instance) : Prop where
  id_lt : object.id < m.store.objects.size
  class_within : object.class.Within m

/-- A value refers only to what the machine has made. -/
def Value.Within (m : Machine) : Value → Prop
  | .function stamp closure => stamp < m.nextStamp ∧ closure.frame < m.store.frames.size
  | .class c => c.Within m
  | .instance object => object.Within m
  | _ => True

section Within

variable {m m' : Machine}

theorem Class.Within.mono {c : Class} (h : c.Within m) (hm : m.Grows m') : c.Within m' where
  stamp_lt := h.stamp_lt.trans_le hm.stamps_le
  older := h.older
  frame_lt layer hlayer name method hmethod :=
    (h.frame_lt layer hlayer name method hmethod).trans_le hm.frames_le

theorem Instance.Within.mono {object : Instance} (h : object.Within m) (hm : m.Grows m') :
    object.Within m' :=
  ⟨h.id_lt.trans_le hm.objects_le, h.class_within.mono hm⟩

theorem Value.Within.mono {v : Value} (h : v.Within m) (hm : m.Grows m') : v.Within m' := by
  cases v with
  | function => exact ⟨h.1.trans_le hm.stamps_le, h.2.trans_le hm.frames_le⟩
  | «class» => exact Class.Within.mono h hm
  | «instance» => exact Instance.Within.mono h hm
  | _ => trivial

/-- A method that is found keeps a frame that is there. -/
theorem Class.Within.method_frame_lt {c : Class} (h : c.Within m) {name : String} {method : Closure}
    (hmethod : c.findMethod? name = some method) : method.frame < m.store.frames.size := by
  obtain ⟨layer, hlayer, hget⟩ := List.exists_of_findSome?_eq_some hmethod
  exact h.frame_lt layer hlayer name method hget

theorem Class.Within.stamp_le {c : Class} (h : c.Within m) {layer : ClassLayer}
    (hlayer : layer ∈ c.layers) : layer.stamp ≤ c.own.stamp := by
  obtain rfl | hinherited := List.mem_cons.1 hlayer
  · exact le_rfl
  · exact ((List.pairwise_cons.1 h.older).1 layer hinherited).le

/-- A class is newer than its superclass if its own layer is. -/
theorem Class.within_extend {layer : ClassLayer} {superclass : Option Class}
    (hstamp : layer.stamp < m.nextStamp)
    (hmethods : ∀ name method, layer.methods.get? name = some method →
      method.frame < m.store.frames.size)
    (hsuperclass : ∀ c, superclass = some c → c.Within m ∧ c.own.stamp < layer.stamp) :
    (Class.extend layer superclass).Within m := by
  cases superclass with
  | none =>
    refine ⟨hstamp, List.pairwise_singleton .., fun layer' hlayer' => ?_⟩
    obtain rfl := List.mem_singleton.1 hlayer'
    exact hmethods
  | some c =>
    obtain ⟨hc, hlt⟩ := hsuperclass c rfl
    refine ⟨hstamp, List.pairwise_cons.2 ⟨fun inherited hinherited => ?_, hc.older⟩, ?_⟩
    · exact (hc.stamp_le hinherited).trans_lt hlt
    · intro layer' hlayer'
      obtain rfl | hinherited := List.mem_cons.1 hlayer'
      · exact hmethods
      · exact hc.frame_lt layer' hinherited

end Within

/-- The chain of frames from every frame leads through older frames to the globals, and what the
frames and objects hold refers only to what was made. -/
structure Machine.Founded (m : Machine) : Prop where
  globals_lt : globals < m.store.frames.size
  enclosing?_globals : m.store.enclosing? globals = none
  exists_enclosing : ∀ frame, frame < m.store.frames.size → frame ≠ globals →
    ∃ outer, m.store.enclosing? frame = some outer ∧ outer < frame
  current_lt : m.current < m.store.frames.size
  locals : ∀ frame name v, m.store.local? frame name = some v → v.Within m
  fields : ∀ object name v, m.store.field? object name = some v → v.Within m

namespace Machine.Founded

variable {m : Machine}

theorem initial (sink : Sink) (reading : Nat → Float) : (Machine.initial sink reading).Founded where
  globals_lt := Nat.zero_lt_one
  enclosing?_globals := rfl
  exists_enclosing frame hframe hne := absurd (Nat.lt_one_iff.1 hframe) hne
  current_lt := Nat.zero_lt_one
  locals frame name v h := by
    rw [Machine.local?_initial] at h
    split at h
    · cases h
      trivial
    · cases h
  fields object name v h := nomatch h

/-- Everything but the frames, the objects and the stamps may change. -/
theorem of_eq {m' : Machine} (hm : m.Founded) (hstore : m'.store = m.store)
    (hstamp : m'.nextStamp = m.nextStamp) (hcurrent : m'.current < m.store.frames.size) :
    m'.Founded := by
  have hgrows : m.Grows m' := ⟨by rw [hstore], by rw [hstore], hstamp.ge⟩
  constructor
  · rw [hstore]
    exact hm.globals_lt
  · rw [hstore]
    exact hm.enclosing?_globals
  · rw [hstore]
    exact hm.exists_enclosing
  · rw [hstore]
    exact hcurrent
  · rw [hstore]
    exact fun frame name v hv => (hm.locals frame name v hv).mono hgrows
  · rw [hstore]
    exact fun object name v hv => (hm.fields object name v hv).mono hgrows

theorem grows_newFrame (m : Machine) (enclosing : Option FrameId) :
    m.Grows { m with store := (m.store.newFrame enclosing).2 } where
  frames_le := (m.store.extends_newFrame enclosing).size_le
  objects_le := le_rfl
  stamps_le := le_rfl

theorem newFrame (hm : m.Founded) {enclosing : FrameId} (h : enclosing < m.store.frames.size) :
    { m with store := (m.store.newFrame (some enclosing)).2 }.Founded := by
  have hgrows := grows_newFrame m (some enclosing)
  constructor
  · exact hm.globals_lt.trans_le hgrows.frames_le
  · exact ((m.store.extends_newFrame _).enclosing?_eq _ hm.globals_lt).trans hm.enclosing?_globals
  · intro frame hframe hne
    rw [Store.enclosing?_newFrame]
    split
    · next heq => exact ⟨enclosing, rfl, heq ▸ h⟩
    · next hsize =>
      rw [Store.size_newFrame] at hframe
      exact hm.exists_enclosing frame ((Nat.lt_succ_iff.1 hframe).lt_of_ne hsize) hne
  · exact hm.current_lt.trans_le hgrows.frames_le
  · intro frame name v hv
    rw [Store.local?_newFrame] at hv
    exact (hm.locals frame name v hv).mono hgrows
  · exact fun object name v hv => (hm.fields object name v hv).mono hgrows

theorem grows_define (m : Machine) (frame : FrameId) (name : String) (v : Value) :
    m.Grows { m with store := m.store.define frame name v } :=
  ⟨(m.store.size_define frame name v).ge, le_rfl, le_rfl⟩

theorem define (hm : m.Founded) (frame : FrameId) (name : String) {v : Value} (hv : v.Within m) :
    { m with store := m.store.define frame name v }.Founded := by
  have hgrows := grows_define m frame name v
  constructor
  · exact hm.globals_lt.trans_le hgrows.frames_le
  · exact (m.store.enclosing?_define frame globals name v).trans hm.enclosing?_globals
  · intro other hother hne
    rw [Store.size_define] at hother
    rw [Store.enclosing?_define]
    exact hm.exists_enclosing other hother hne
  · exact hm.current_lt.trans_le hgrows.frames_le
  · intro other key w hw
    rw [Store.local?_define] at hw
    split at hw
    · cases hw
      exact hv.mono hgrows
    · exact (hm.locals other key w hw).mono hgrows
  · exact fun object key w hw => (hm.fields object key w hw).mono hgrows

theorem grows_newObject (m : Machine) : m.Grows { m with store := m.store.newObject.2 } := by
  refine ⟨le_rfl, ?_, le_rfl⟩
  simp [Store.newObject]

theorem newObject (hm : m.Founded) : { m with store := m.store.newObject.2 }.Founded := by
  have hgrows := grows_newObject m
  refine ⟨hm.globals_lt, hm.enclosing?_globals, hm.exists_enclosing, hm.current_lt, ?_, ?_⟩
  · exact fun frame name v hv => (hm.locals frame name v hv).mono hgrows
  · intro object name v hv
    rw [Store.field?_newObject] at hv
    exact (hm.fields object name v hv).mono hgrows

theorem grows_setField (m : Machine) (object : ObjectId) (name : String) (v : Value) :
    m.Grows { m with store := m.store.setField object name v } := by
  refine ⟨le_rfl, ?_, le_rfl⟩
  simp [Store.setField]

theorem setField (hm : m.Founded) (object : ObjectId) (name : String) {v : Value}
    (hv : v.Within m) : { m with store := m.store.setField object name v }.Founded := by
  have hgrows := grows_setField m object name v
  refine ⟨hm.globals_lt, hm.enclosing?_globals, hm.exists_enclosing, hm.current_lt, ?_, ?_⟩
  · exact fun frame key w hw => (hm.locals frame key w hw).mono hgrows
  · intro other key w hw
    rw [Store.field?_setField] at hw
    split at hw
    · cases hw
      exact hv.mono hgrows
    · exact (hm.fields other key w hw).mono hgrows

theorem grows_freshStamp (m : Machine) : m.Grows { m with nextStamp := m.nextStamp + 1 } :=
  ⟨le_rfl, le_rfl, Nat.le_succ _⟩

theorem freshStamp (hm : m.Founded) : { m with nextStamp := m.nextStamp + 1 }.Founded := by
  have hgrows := grows_freshStamp m
  exact ⟨hm.globals_lt, hm.enclosing?_globals, hm.exists_enclosing, hm.current_lt,
    fun frame name v hv => (hm.locals frame name v hv).mono hgrows,
    fun object name v hv => (hm.fields object name v hv).mono hgrows⟩

end Machine.Founded

end Treewalk
