import Treewalk.Proofs.Evaluation.Discipline
import Treewalk.Proofs.Evaluation.Founded

/-!
# Evaluation keeps machines founded

That machines are founded, and values refer to nothing but what the machine has made, is a
discipline that all steps of evaluation keep to. Nothing is asked of the program or of the depth
table: a step that comes to a wrong frame, or to none, makes nothing that refers to a frame that is
not there.

## Main definitions

* `Discipline.founding` — machines are founded, and closures keep frames that are there

## Main results

* `Discipline.lawful_founding` — all steps of evaluation keep to this discipline
-/

namespace Treewalk

open Eval

namespace Discipline

/-- Machines are founded, and whatever is around on them refers to nothing but what they have
made. -/
def founding : Discipline where
  IsSound m := m.Founded
  Grows m m' := m.Grows m'
  HasFrame m frame := frame < m.store.frames.size
  HasClosure m closure := closure.frame < m.store.frames.size
  HasValue m v := v.Within m
  MayWrite _ := True

theorem founding_bindReceiver {m m' : Machine} {method bound : Closure} {receiver : Instance}
    (hm : m.Founded) (hmethod : method.frame < m.store.frames.size) (hreceiver : receiver.Within m)
    (hbound : bindReceiver method receiver m = .ok bound m') :
    founding.Leads m m' ∧ bound.frame < m'.store.frames.size := by
  cases hbound
  have hgrows := Machine.Founded.grows_newFrame m (some method.frame)
  have hthis : (Value.instance receiver).Within _ := hreceiver.mono hgrows
  have hsize := (m.store.newFrame (some method.frame)).2.size_define m.store.frames.size "this"
    (.instance receiver)
  refine ⟨⟨(hm.newFrame hmethod).define m.store.frames.size "this" hthis, ?_⟩, ?_⟩
  · exact hgrows.trans (Machine.Founded.grows_define _ _ _ _)
  · exact (m.store.size_lt_newFrame _).trans_eq hsize.symm

/-- A class is made after its superclass, and its methods keep a frame that is there. -/
theorem founding_newClass {m : Machine} {frame : FrameId} {superclass : Option Class}
    (name : String) (methods : List Routine) (hsuperclass : ∀ c ∈ superclass, c.Within m)
    (hframe : frame < m.store.frames.size) :
    (Class.extend ⟨m.nextStamp, name, .ofList (methods.map fun method =>
      (method.name.lexeme, methodClosure frame method))⟩ superclass).Within
      { m with nextStamp := m.nextStamp + 1 } := by
  refine Class.within_extend (Nat.lt_succ_self _) (fun key method hmethod => ?_) fun c hc => ?_
  · obtain ⟨entry, hentry, rfl⟩ := NameMap.mem_of_get?_ofList hmethod
    obtain ⟨routine, -, rfl⟩ := List.mem_map.1 hentry
    exact hframe
  · have hfounded := hsuperclass c hc
    exact ⟨hfounded.mono (Machine.Founded.grows_freshStamp m), hfounded.stamp_lt⟩

/-- All steps of evaluation keep machines founded. -/
instance lawful_founding : founding.Lawful where
  refl m := Machine.Grows.refl m
  trans h h' := Machine.Grows.trans h h'
  frame_mono h hm := h.trans_le (Machine.Grows.frames_le hm)
  closure_mono h hm := h.trans_le (Machine.Grows.frames_le hm)
  value_mono h hm := Value.Within.mono h hm
  current hm := Machine.Founded.current_lt hm
  locals hm h := Machine.Founded.locals hm _ _ _ h
  fields hm h := Machine.Founded.fields hm _ _ _ h
  plain {m v} h := by cases v <;> trivial
  function_closure h := h.2
  closure_frame h := h
  closure_writes _ := Routine.writes_of_forall (fun _ => trivial) _
  instance_class h := Instance.Within.class_within h
  grows_of_eq hstore hstamp := ⟨by rw [hstore], by rw [hstore], hstamp.ge⟩
  of_eq hm hstore hstamp hcurrent := Machine.Founded.of_eq hm hstore hstamp hcurrent
  newFrame {m enclosing} hm henclosing :=
    ⟨⟨Machine.Founded.newFrame hm henclosing, Machine.Founded.grows_newFrame m _⟩,
      m.store.size_lt_newFrame (some enclosing)⟩
  define {m name v} frame hm _ hv :=
    ⟨Machine.Founded.define hm frame name hv, Machine.Founded.grows_define m frame name v⟩
  mayWrite_super := trivial
  freshStamp {m} hm := ⟨Machine.Founded.freshStamp hm, Machine.Founded.grows_freshStamp m⟩
  newFunction _ hclosure := ⟨Nat.lt_succ_self _, hclosure⟩
  newObject {m c} hm hc := by
    have hgrows := Machine.Founded.grows_newObject m
    refine ⟨⟨Machine.Founded.newObject hm, hgrows⟩, ?_, Class.Within.mono hc hgrows⟩
    simp [Store.newObject]
  setField {m v} object name hm hv :=
    ⟨Machine.Founded.setField hm object name hv, Machine.Founded.grows_setField m object name v⟩
  bindReceiver hm hc hmethod hreceiver hbound :=
    founding_bindReceiver hm (Class.Within.method_frame_lt hc hmethod) hreceiver hbound
  newClosure hframe _ := hframe
  newClass name _ hsuperclass hframe _ := founding_newClass name _ hsuperclass hframe

end Discipline

end Treewalk
