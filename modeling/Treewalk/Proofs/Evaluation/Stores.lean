import Treewalk.Proofs.Evaluation.Pair

/-!
# Pairs of stores

Each operation on stores, carried out on both stores of a pair, keeps the pair sound.

## Main definitions

* `Pair.withStores` — the pair after an operation on its stores

## Main results

* `Pair.Sound.newFrame`, `Pair.Sound.define`, `Pair.Sound.newObject`, `Pair.Sound.setField`
-/

namespace Treewalk

/-! ### One store -/

namespace Store

variable (s : Store)

theorem size_newFrame (enclosing : Option FrameId) :
    (s.newFrame enclosing).2.frames.size = s.frames.size + 1 := by
  simp [newFrame]

theorem size_lt_newFrame (enclosing : Option FrameId) :
    s.frames.size < (s.newFrame enclosing).2.frames.size :=
  (s.size_newFrame enclosing).symm ▸ Nat.lt_succ_self _

theorem size_define (frame : FrameId) (name : String) (value : Value) :
    (s.define frame name value).frames.size = s.frames.size := by
  simp [define]

theorem enclosing?_newFrame (enclosing : Option FrameId) (frame : FrameId) :
    (s.newFrame enclosing).2.enclosing? frame =
      if frame = s.frames.size then enclosing else s.enclosing? frame := by
  simp only [enclosing?, newFrame, Array.getElem?_push]
  split <;> rfl

theorem local?_of_size_le {frame : FrameId} (h : s.frames.size ≤ frame) (name : String) :
    s.local? frame name = none := by
  rw [local?, Array.getElem?_eq_none h, Option.bind_none]

theorem isSome_local?_define {frame : FrameId} (h : frame < s.frames.size) (name : String)
    (value : Value) : ((s.define frame name value).local? frame name).isSome := by
  simp [local?_define, h]

theorem extends_newFrame (enclosing : Option FrameId) : s.Extends (s.newFrame enclosing).2 where
  size_le := by rw [size_newFrame]; exact Nat.le_succ _
  enclosing?_eq frame hf := by rw [enclosing?_newFrame, if_neg hf.ne]
  isSome_local? frame name h := by rwa [local?_newFrame]
  reserved_eq frame name _ _ := s.local?_newFrame enclosing frame name

/-- A reserved name is bound only where it is not bound yet. -/
theorem extends_define {frame : FrameId} {name : String}
    (hname : IsReserved name → s.local? frame name = none) (value : Value) :
    s.Extends (s.define frame name value) where
  size_le := (s.size_define frame name value).ge
  enclosing?_eq other _ := s.enclosing?_define frame other name value
  isSome_local? other key h := by
    rw [local?_define]
    split
    · rfl
    · exact h
  reserved_eq other key hkey h := by
    rw [local?_define, if_neg]
    rintro ⟨rfl, rfl, -⟩
    simp [hname hkey] at h

theorem extends_of_frames_eq {s s' : Store} (h : s'.frames = s.frames) : s.Extends s' where
  size_le := by rw [h]
  enclosing?_eq frame _ := by rw [enclosing?, enclosing?, h]
  isSome_local? frame name hs := by rwa [local?, h]
  reserved_eq frame name _ _ := by rw [local?, local?, h]

theorem field?_newObject (object : ObjectId) (name : String) :
    (s.newObject).2.field? object name = s.field? object name := by
  simp only [field?, newObject, Array.getElem?_push]
  split
  · rename_i h
    subst h
    simp
  · rfl

/-- From the globals outwards there is only the frame of the globals. -/
theorem holder?_globals (hlt : globals < s.frames.size) (h : s.enclosing? globals = none)
    (name : String) :
    s.holder? globals name = if (s.local? globals name).isSome then some globals else none := by
  obtain ⟨n, hn⟩ := Nat.exists_eq_succ_of_ne_zero (Nat.pos_iff_ne_zero.1 (Nat.zero_lt_of_lt hlt))
  rw [holder?, hn, holderWithin?, h]
  cases s.local? globals name <;> rfl

/-- A name that the frame itself binds is found there. -/
theorem holder?_self {frame : FrameId} {name : String} (hlt : frame < s.frames.size)
    (h : (s.local? frame name).isSome) : s.holder? frame name = some frame := by
  obtain ⟨n, hn⟩ := Nat.exists_eq_succ_of_ne_zero (Nat.pos_iff_ne_zero.1 (Nat.zero_lt_of_lt hlt))
  obtain ⟨value, hvalue⟩ := Option.isSome_iff_exists.1 h
  rw [holder?, hn, holderWithin?, hvalue]

section Read

variable {s : Store} {frame : FrameId} {name : Token} {v : Value} {hops : Nat}

theorem getAt_eq_ok_iff : s.getAt hops frame name = .ok v ↔
    ∃ target, s.outward? hops frame = some target ∧ s.local? target name.lexeme = some v := by
  rw [← Option.bind_eq_some_iff, getAt]
  cases (s.outward? hops frame).bind (s.local? · name.lexeme) <;> simp

theorem get_eq_ok_iff : s.get frame name = .ok v ↔
    ∃ target, s.holder? frame name.lexeme = some target ∧
      s.local? target name.lexeme = some v := by
  rw [← Option.bind_eq_some_iff, get]
  cases (s.holder? frame name.lexeme).bind (s.local? · name.lexeme) <;> simp

end Read

end Store

/-! ### Two stores -/

namespace Pair

variable {R : Place → Moment → Prop} {S : Setting} {p : Pair}

/-- Frames that are counterparts have counterparts around them. -/
theorem Sound.outward?_eq (hp : p.Sound R S) (hops : Nat) (frame : FrameId) :
    p.right.store.outward? hops (S.frame frame) =
      (p.left.store.outward? hops frame).map S.frame := by
  induction hops generalizing frame with
  | zero => rfl
  | succ hops ih =>
    rw [Store.outward?, Store.outward?, hp.enclosing?_eq]
    cases p.left.store.enclosing? frame with
    | none => rfl
    | some outer => exact ih outer

/-- A name that the first machine binds is bound by the second one. -/
theorem Sound.exists_local? (hp : p.Sound R S) {frame : FrameId} {name name' : String}
    (hused : ¬S.unused name) (hname : S.Spells (p.marked frame) name name') {v : Value}
    (hv : p.left.store.local? frame name = some v) :
    ∃ v', p.right.store.local? (S.frame frame) name' = some v' ∧ Value.Twin R S p v v' := by
  have hlocal := hp.locals frame name name' hused hname
  rw [hv] at hlocal
  generalize p.right.store.local? (S.frame frame) name' = o at hlocal
  cases hlocal with
  | bound htwin => exact ⟨_, rfl, htwin⟩

theorem Sound.globals_lt_right (hp : p.Sound R S) : globals < p.right.store.frames.size :=
  hp.frames_size_eq ▸ hp.globals_lt.trans_le (Nat.le_add_right _ _)

theorem Sound.enclosing?_globals_right (hp : p.Sound R S) :
    p.right.store.enclosing? globals = none := by
  have h := hp.enclosing?_eq globals
  rwa [Setting.frame_globals, hp.enclosing?_globals, Option.map_none] at h

/-- The next frame of the second machine is the counterpart of the next frame of the first one. -/
theorem Sound.frame_size (hp : p.Sound R S) :
    S.frame p.left.store.frames.size = p.right.store.frames.size :=
  (S.frame_of_ne hp.globals_lt.ne').trans hp.frames_size_eq.symm

/-- The counterpart of a frame is a frame of the second store. -/
theorem Sound.frame_lt (hp : p.Sound R S) {frame : FrameId}
    (h : frame < p.left.store.frames.size) : S.frame frame < p.right.store.frames.size := by
  by_cases hf : frame = globals
  · rw [hf, S.frame_globals]
    exact hp.globals_lt_right
  · rw [S.frame_of_ne hf, hp.frames_size_eq]
    exact Nat.add_lt_add_right h _

/-- Nothing but the stores, the frames in which names are replaced and the tables matters for what
is said of values. -/
theorem extends_of_store_eq {p p' : Pair} (hstore : p'.left.store = p.left.store)
    (hleft : p'.leftIds = p.leftIds) (hright : p'.rightIds = p.rightIds)
    (htext : p'.text = p.text) (hmarked : p'.marked = p.marked) : p.Extends p' :=
  ⟨hstore ▸ .refl _, hleft ▸ .refl _, hright ▸ .refl _, htext.ge,
    fun frame _ => congrFun hmarked frame⟩

/-- A pair is still sound after its machines changed in the same way beside their stores. -/
theorem Sound.of_store_eq {p' : Pair} (hp : p.Sound R S) (hext : p.Extends p')
    (hleft : p'.left.store = p.left.store) (hright : p'.right.store = p.right.store)
    (hmarked : p'.marked = p.marked) (hcurrent : p'.right.current = S.frame p'.left.current)
    (hsinks : S.SinksTwin p'.left.sink p'.right.sink)
    (hclock : ¬S.unused "clock" → p'.right.clock = p'.left.clock)
    (hstamp : p'.right.nextStamp = p'.left.nextStamp + S.stamps) : p'.Sound R S where
  current_eq := hcurrent
  sinks := hsinks
  clock_eq := hclock
  nextStamp_eq := hstamp
  frames_size_eq := by rw [hleft, hright, hp.frames_size_eq]
  objects_size_eq := by rw [hleft, hright, hp.objects_size_eq]
  enclosing?_eq frame := by rw [hleft, hright, hp.enclosing?_eq]
  locals frame name name' hused hname := by
    rw [hleft, hright]
    rw [hmarked] at hname
    exact (hp.locals frame name name' hused hname).mono hext
  fields object name := by
    rw [hleft, hright]
    exact optionRel_imp (fun _ _ => Value.Twin.mono hext) (hp.fields object name)
  globals_lt := by rw [hleft]; exact hp.globals_lt
  enclosing?_globals := by rw [hleft]; exact hp.enclosing?_globals
  marked_globals := by rw [hmarked]; exact hp.marked_globals
  old_ne_new := by rw [hmarked]; exact hp.old_ne_new

/-- The pair with other stores. -/
def withStores (p : Pair) (s s' : Store) : Pair :=
  { p with left := { p.left with store := s }, right := { p.right with store := s' } }

/-- The pair after a frame was added to both stores. -/
def newFrame (p : Pair) (enclosing enclosing' : FrameId) (mark : Bool) : Pair :=
  { p.withStores (p.left.store.newFrame (some enclosing)).2
      (p.right.store.newFrame (some enclosing')).2 with
    marked := fun frame =>
      if frame = p.left.store.frames.size then mark else p.marked frame }

theorem extends_newFrame (p : Pair) (enclosing enclosing' : FrameId) (mark : Bool) :
    p.Extends (p.newFrame enclosing enclosing' mark) where
  store := p.left.store.extends_newFrame _
  leftIds := .refl _
  rightIds := .refl _
  text_le := le_rfl
  marked_eq _ hf := if_neg hf.ne

theorem Sound.newFrame (hp : p.Sound R S) (enclosing : FrameId) {mark : Bool}
    (hmark : mark = true → S.old ≠ S.new) :
    (p.newFrame enclosing (S.frame enclosing) mark).Sound R S := by
  have hext := p.extends_newFrame enclosing (S.frame enclosing) mark
  refine { hp with
    frames_size_eq := ?_, enclosing?_eq := ?_, locals := ?_, fields := ?_
    globals_lt := ?_, enclosing?_globals := ?_, marked_globals := ?_, old_ne_new := ?_ }
  · show (p.right.store.newFrame _).2.frames.size = (p.left.store.newFrame _).2.frames.size + _
    rw [Store.size_newFrame, Store.size_newFrame, hp.frames_size_eq, Nat.add_right_comm]
  · intro frame
    show (p.right.store.newFrame _).2.enclosing? _ =
      ((p.left.store.newFrame _).2.enclosing? frame).map _
    rw [Store.enclosing?_newFrame, Store.enclosing?_newFrame, ← hp.frame_size]
    simp only [S.frame_inj]
    split
    · rfl
    · exact hp.enclosing?_eq frame
  · intro frame name name' hused hname
    show Value.LocalTwin R S _ frame name ((p.left.store.newFrame _).2.local? frame name)
      ((p.right.store.newFrame _).2.local? (S.frame frame) name')
    rw [Store.local?_newFrame, Store.local?_newFrame]
    by_cases hf : frame = p.left.store.frames.size
    · rw [hf, Store.local?_of_size_le _ le_rfl, hp.frame_size, Store.local?_of_size_le _ le_rfl]
      exact .unbound
    · have hmarked : (p.newFrame enclosing (S.frame enclosing) mark).marked frame =
          p.marked frame :=
        if_neg hf
      rw [hmarked] at hname
      exact (hp.locals frame name name' hused hname).mono hext
  · exact fun object name => optionRel_imp (fun _ _ => Value.Twin.mono hext) (hp.fields object name)
  · exact hp.globals_lt.trans_le hext.store.size_le
  · exact (hext.store.enclosing?_eq _ hp.globals_lt).trans hp.enclosing?_globals
  · exact (hext.marked_eq _ hp.globals_lt).trans hp.marked_globals
  · intro frame hframe
    by_cases hf : frame = p.left.store.frames.size
    · exact hmark ((if_pos hf).symm.trans hframe)
    · exact hp.old_ne_new frame ((if_neg hf).symm.trans hframe)

/-- The pair after a name was bound in a frame of both stores. -/
def define (p : Pair) (frame frame' : FrameId) (name name' : String) (v v' : Value) : Pair :=
  p.withStores (p.left.store.define frame name v) (p.right.store.define frame' name' v')

theorem extends_define (p : Pair) {frame : FrameId} {name : String}
    (hname : IsReserved name → p.left.store.local? frame name = none) (frame' : FrameId)
    (name' : String) (v v' : Value) : p.Extends (p.define frame frame' name name' v v') :=
  ⟨p.left.store.extends_define hname v, .refl _, .refl _, le_rfl, fun _ _ => rfl⟩

theorem Sound.define (hp : p.Sound R S) {frame : FrameId} {name name' : String} {v v' : Value}
    (hreserved : IsReserved name → p.left.store.local? frame name = none)
    (hframe : frame < p.left.store.frames.size) (hname : S.Spells (p.marked frame) name name')
    (hv : Value.Twin R S (p.define frame (S.frame frame) name name' v v') v v') :
    (p.define frame (S.frame frame) name name' v v').Sound R S := by
  have hext := p.extends_define hreserved (S.frame frame) name' v v'
  refine { hp with
    frames_size_eq := ?_, enclosing?_eq := ?_, locals := ?_, fields := ?_
    globals_lt := ?_, enclosing?_globals := ?_ }
  · show (p.right.store.define ..).frames.size = (p.left.store.define ..).frames.size + _
    rw [Store.size_define, Store.size_define, hp.frames_size_eq]
  · intro other
    show (p.right.store.define ..).enclosing? _ = ((p.left.store.define ..).enclosing? other).map _
    rw [Store.enclosing?_define, Store.enclosing?_define, hp.enclosing?_eq]
  · intro other key key' hused hkey
    show Value.LocalTwin R S _ other key ((p.left.store.define ..).local? other key)
      ((p.right.store.define ..).local? (S.frame other) key')
    have hold := (hp.locals other key key' hused hkey).mono hext
    rw [Store.local?_define, Store.local?_define]
    by_cases hother : other = frame
    · subst hother
      simp only [true_and, hkey.inj hname, hframe, hp.frame_lt hframe, and_true]
      split
      · exact .bound hv
      · exact hold
    · simp only [hother, S.frame_inj, false_and, if_false]
      exact hold
  · exact fun object name => optionRel_imp (fun _ _ => Value.Twin.mono hext) (hp.fields object name)
  · exact hp.globals_lt.trans_le hext.store.size_le
  · exact (hext.store.enclosing?_eq _ hp.globals_lt).trans hp.enclosing?_globals

/-- Operations that leave the frames as they are. -/
theorem Sound.withObjects (hp : p.Sound R S) {s s' : Store}
    (hs : s.frames = p.left.store.frames) (hs' : s'.frames = p.right.store.frames)
    (hsize : s'.objects.size = s.objects.size + S.objects)
    (hfields : ∀ object name, Option.Rel (Value.Twin R S p) (s.field? object name)
      (s'.field? (object + S.objects) name)) :
    p.Extends (p.withStores s s') ∧ (p.withStores s s').Sound R S := by
  have hext : p.Extends (p.withStores s s') :=
    ⟨Store.extends_of_frames_eq hs, .refl _, .refl _, le_rfl, fun _ _ => rfl⟩
  refine ⟨hext, { hp with
    frames_size_eq := ?_, objects_size_eq := hsize, enclosing?_eq := ?_, locals := ?_
    fields := ?_, globals_lt := ?_, enclosing?_globals := ?_ }⟩
  · show s'.frames.size = s.frames.size + _
    rw [hs, hs', hp.frames_size_eq]
  · intro frame
    show s'.enclosing? _ = (s.enclosing? frame).map _
    rw [Store.enclosing?, Store.enclosing?, hs, hs']
    exact hp.enclosing?_eq frame
  · intro frame name name' hused hname
    show Value.LocalTwin R S _ frame name (s.local? frame name) (s'.local? (S.frame frame) name')
    rw [Store.local?, Store.local?, hs, hs']
    exact (hp.locals frame name name' hused hname).mono hext
  · exact fun object name => optionRel_imp (fun _ _ => Value.Twin.mono hext) (hfields object name)
  · exact hp.globals_lt.trans_le hext.store.size_le
  · exact (hext.store.enclosing?_eq _ hp.globals_lt).trans hp.enclosing?_globals

theorem Sound.newObject (hp : p.Sound R S) :
    p.Extends (p.withStores p.left.store.newObject.2 p.right.store.newObject.2) ∧
      (p.withStores p.left.store.newObject.2 p.right.store.newObject.2).Sound R S := by
  refine hp.withObjects rfl rfl ?_ fun object name => ?_
  · simp [Store.newObject, hp.objects_size_eq, Nat.add_right_comm]
  · rw [Store.field?_newObject, Store.field?_newObject]
    exact hp.fields object name

theorem Sound.setField (hp : p.Sound R S) (object : ObjectId) (name : String) {v v' : Value}
    (hv : Value.Twin R S p v v') :
    p.Extends (p.withStores (p.left.store.setField object name v)
        (p.right.store.setField (object + S.objects) name v')) ∧
      (p.withStores (p.left.store.setField object name v)
        (p.right.store.setField (object + S.objects) name v')).Sound R S := by
  refine hp.withObjects rfl rfl ?_ fun other key => ?_
  · simp [Store.setField, hp.objects_size_eq]
  · rw [Store.field?_setField, Store.field?_setField, hp.objects_size_eq]
    simp only [Nat.add_right_cancel_iff, Nat.add_lt_add_iff_right]
    split
    · exact .some hv
    · exact hp.fields other key

end Pair

end Treewalk
