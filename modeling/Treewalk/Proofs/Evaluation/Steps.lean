import Treewalk.Proofs.Evaluation.Access

/-!
# The steps of evaluation

Every step of evaluation that evaluates no part of the program itself, taken by both machines of a
pair. A closure that a step binds to a receiver is put at the place where it is made.

## Main results

* `Runs.bindReceiver`, `Runs.getProperty`, `Runs.superMethod` — methods and receivers
* `Runs.applyUnary`, `Runs.applyBinary` — operators
-/

namespace Treewalk

open Eval

variable {α β : Type} {R : Place → Moment → Prop} {S : Setting} {p p' : Pair}

/-- A frame that binds one name, inside a given one. -/
def Eval.frameFor (enclosing : FrameId) (name : String) (value : Value) : Eval FrameId := do
  let frame ← newFrame enclosing
  defineIn frame name value
  return frame

theorem Eval.bindReceiver_eq (method : Closure) (receiver : Instance) :
    bindReceiver method receiver = (do
      let frame ← frameFor method.frame "this" (.instance receiver)
      return { method with frame }) := by
  simp only [bindReceiver, frameFor, bind_assoc, pure_bind]

theorem Eval.routine_bindReceiver {method bound : Closure} {receiver : Instance} {m m' : Machine}
    (h : bindReceiver method receiver m = .ok bound m') : bound.routine = method.routine := by
  have hbind : ∃ m'', bindReceiver method receiver m =
      .ok { method with frame := m.store.frames.size } m'' := ⟨_, rfl⟩
  obtain ⟨m'', hbind⟩ := hbind
  rw [hbind] at h
  injection h with hbound
  rw [← hbound]

theorem Eval.methodFrame_eq (superclass : Option Class) :
    methodFrame superclass = (do
      let current := (← get).current
      match superclass with
      | none => return current
      | some c => frameFor current "super" (.class c)) :=
  rfl

theorem Scope.get?_single (name other : String) :
    (Scope.single name).get? other = if other = name then some true else none := by
  rw [Scope.single, NameMap.get?_set, NameMap.get?_empty]

/-- Where `super` is no class, or `this` no instance, there is no method of a superclass. -/
theorem Eval.superMethod_of_misused {use : Use} {method : Token} {depth : Nat} {v w : Value}
    {m : Machine} (hdepth : m.depths.depth? use.id = some (depth + 1))
    (hv : m.store.getAt (depth + 1) m.current use.token = .ok v)
    (hw : m.store.getAt depth m.current ⟨.keyword .this, "this", use.token.line⟩ = .ok w)
    (h : ∀ superclass receiver, v = .class superclass → w ≠ .instance receiver) :
    superMethod use method m = .error (.fault (.runtime use.token.line .superOutsideMethod)) m := by
  have hget : (get : Eval Machine) m = .ok m m := rfl
  unfold superMethod
  rw [bind_eq_of_ok hget]
  simp only [hdepth, hv, hw, orFail, pure_bind]
  rfl

/-! ### Sinks -/

/-- Writing a text appends to what was written. -/
theorem Sink.exists_write_eq (sink : Sink) (text : String) :
    ∃ bytes, (sink.write text).2 = { sink with written := sink.written ++ bytes } := by
  unfold Sink.write
  dsimp only
  split
  · exact ⟨_, rfl⟩
  · exact ⟨_, rfl⟩

theorem Sink.write_of_limit_eq_none {sink : Sink} (h : sink.limit = none) (text : String) :
    sink.write text = (none, { sink with written := sink.written ++ text.toUTF8 }) := by
  have hroom : sink.room text.toUTF8.size = text.toUTF8.size := by rw [Sink.room, h]
  rw [Sink.write, hroom, if_pos le_rfl]

namespace Setting.SinksTwin

variable {sink sink' : Sink}

theorem eq_of_before_eq (h : S.SinksTwin sink sink') (hbefore : S.before' = S.before) :
    sink' = sink := by
  obtain ⟨output, hwritten, hwritten'⟩ := h.written
  obtain ⟨written, limit, flushFails⟩ := sink
  obtain ⟨written', limit', flushFails'⟩ := sink'
  obtain rfl : limit' = limit := h.limit_eq
  obtain rfl : flushFails' = flushFails := h.flushFails_eq
  obtain rfl : written' = written := hwritten'.trans ((hbefore ▸ hwritten.symm :))
  rfl

theorem append (h : S.SinksTwin sink sink') (bytes : ByteArray) :
    S.SinksTwin { sink with written := sink.written ++ bytes }
      { sink' with written := sink'.written ++ bytes } := by
  obtain ⟨output, hwritten, hwritten'⟩ := h.written
  refine ⟨h.limit_eq, h.flushFails_eq, ⟨output ++ bytes, ?_, ?_⟩, h.room⟩
  · rw [hwritten, ByteArray.append_assoc]
  · rw [hwritten', ByteArray.append_assoc]

/-- Both sinks take a text in the same way. -/
theorem write (h : S.SinksTwin sink sink') (text : String) :
    (sink'.write text).1 = (sink.write text).1 ∧
      S.SinksTwin (sink.write text).2 (sink'.write text).2 := by
  rcases h.room with hlimit | hbefore
  · rw [Sink.write_of_limit_eq_none hlimit, Sink.write_of_limit_eq_none (h.limit_eq.trans hlimit)]
    exact ⟨rfl, h.append _⟩
  · obtain rfl := h.eq_of_before_eq hbefore
    obtain ⟨bytes, hwrite⟩ := sink'.exists_write_eq text
    rw [hwrite]
    exact ⟨rfl, h.append bytes⟩

end Setting.SinksTwin

namespace Runs

variable {Q : Pair → α → β → Prop} {place : Place} {moment : Moment}

/-! ### Faults -/

theorem fail {anchor anchor' : Token} {cause : RuntimeFault} (hp : p.Sound R S)
    (hh : Happens R place moment) (hraises : Raises moment anchor cause)
    (hline : anchor'.line = anchor.line + S.lines place.origin) :
    Runs R S p (fail anchor cause : Eval α) (Eval.fail anchor' cause : Eval β) Q := by
  unfold Eval.fail
  rw [hline]
  exact .throw hp (.fault hh hraises)

theorem exhausted (hp : p.Sound R S) :
    Runs R S p (throw .exhausted : Eval α) (throw .exhausted : Eval β) Q :=
  .throw hp .exhausted

theorem checkArity {fuel expected : Nat} {v : Value} {paren paren' : Token} {values : List Value}
    {m : Machine} (hp : p.Sound R S)
    (hh : Happens R place (.call (fuel + 1) v paren values m)) (hv : v.arity? = some expected)
    (hline : paren'.line = paren.line + S.lines place.origin) :
    Runs R S p (checkArity paren expected values.length)
      (Eval.checkArity paren' expected values.length)
      fun p' _ _ => p' = p ∧ values.length = expected := by
  unfold Eval.checkArity
  split
  · next h => exact .pure hp ⟨rfl, h⟩
  · next h => exact fail hp hh (.arity hv h) hline

/-! ### Frames -/

theorem newFrame {enclosing enclosing' : FrameId} (hp : p.Sound R S)
    (henclosing : enclosing' = S.frame enclosing) {mark : Bool}
    (hmark : mark = true → S.old ≠ S.new) :
    Runs R S p (newFrame enclosing) (Eval.newFrame enclosing') fun p' frame frame' =>
      p' = p.newFrame enclosing enclosing' mark ∧ frame = p.left.store.frames.size ∧
        frame' = S.frame frame := by
  subst henclosing
  exact .modifyGet _ (hp.newFrame enclosing hmark) (p.extends_newFrame ..) rfl rfl rfl rfl rfl rfl
    (.refl _) ⟨rfl, rfl, hp.frame_size.symm⟩

/-- Names bound in one frame, to twin values. -/
def BindingsTwin (R : Place → Moment → Prop) (S : Setting) (p : Pair) (mark : Bool)
    (b b' : String × Value) : Prop :=
  S.Spells mark b.1 b'.1 ∧ ¬IsReserved b.1 ∧ Value.Twin R S p b.2 b'.2

theorem defineAllIn {frame : FrameId} {bs bs' : List (String × Value)} (hp : p.Sound R S)
    (hframe : frame < p.left.store.frames.size)
    (h : List.Forall₂ (BindingsTwin R S p (p.marked frame)) bs bs') :
    Runs R S p (defineAllIn frame bs) (Eval.defineAllIn (S.frame frame) bs') fun p' _ _ =>
      ∀ name ∈ bs.map Prod.fst, (p'.left.store.local? frame name).isSome := by
  induction bs generalizing p bs' with
  | nil =>
    cases h
    exact .pure hp (by simp)
  | cons b rest ih =>
    obtain _ | @⟨_, b', _, rest', ⟨hname, hreserved, hv⟩, hrest⟩ := h
    have hreserved : IsReserved b.1 → p.left.store.local? frame b.1 = none := (absurd · hreserved)
    have hext := p.extends_define hreserved (S.frame frame) b'.1 b.2 b'.2
    -- binding the first name is a step of its own
    show Runs R S p (Eval.defineIn frame b.1 b.2 >>= fun _ => Eval.defineAllIn frame rest)
      (Eval.defineIn (S.frame frame) b'.1 b'.2 >>= fun _ =>
        Eval.defineAllIn (S.frame frame) rest') _
    refine (defineIn hp hreserved rfl hframe hname hv).bind ?_
    rintro p' _ _ hk - rfl
    refine (ih hk.sound (hframe.trans_le hext.store.size_le) ?_).mono ?_
    · exact hrest.imp fun _ _ hrel => ⟨hrel.1, hrel.2.1, hrel.2.2.mono hext⟩
    · intro p'' _ _ hk' hnames name hname
      rcases List.mem_cons.1 hname with rfl | hname
      · exact hk'.extends_.store.isSome_local? _ _
          (p.left.store.isSome_local?_define hframe b.1 b.2)
      · exact hnames name hname

/-! ### Values with an identity -/

theorem freshStamp (hp : p.Sound R S) :
    Runs R S p freshStamp Eval.freshStamp fun _ stamp stamp' => stamp' = stamp + S.stamps := by
  refine .modifyGet { p with
    left := { p.left with nextStamp := p.left.nextStamp + 1 }
    right := { p.right with nextStamp := p.right.nextStamp + 1 } }
    ?_ (Pair.extends_of_store_eq rfl rfl rfl rfl rfl) rfl rfl rfl rfl rfl rfl (.refl _)
    hp.nextStamp_eq
  exact hp.of_store_eq (Pair.extends_of_store_eq rfl rfl rfl rfl rfl) rfl rfl rfl hp.current_eq
    hp.sinks hp.clock_eq ((congrArg (· + 1) hp.nextStamp_eq).trans (Nat.add_right_comm ..))

theorem newFunction {c c' : Closure} (hp : p.Sound R S) (hc : Closure.Twin R S p c c') :
    Runs R S p (newFunction c) (Eval.newFunction c') (Value.Twin R S) := by
  refine (freshStamp hp).bind_pure ?_
  rintro p' stamp _ hk rfl
  exact .function (hc.mono hk.extends_)

theorem newInstance {c c' : Class} (hp : p.Sound R S) (hc : Class.Twin R S p c c') :
    Runs R S p (newInstance c) (Eval.newInstance c') (Instance.Twin R S) :=
  .modifyGet _ hp.newObject.2 hp.newObject.1 rfl rfl rfl rfl rfl rfl (.refl _)
    ⟨hp.objects_size_eq, hc.mono hp.newObject.1⟩

theorem frameFor {enclosing enclosing' : FrameId} {name : String} {v v' : Value}
    (hp : p.Sound R S) (henclosing : enclosing' = S.frame enclosing) (hv : Value.Twin R S p v v') :
    Runs R S p (frameFor enclosing name v) (Eval.frameFor enclosing' name v')
      fun p' frame frame' => frame' = S.frame frame ∧ frame < p'.left.store.frames.size ∧
        p'.left.store.enclosing? frame = some enclosing ∧ p'.marked frame = false ∧
        p'.left.store.local? frame name = some v := by
  have hmark : false = true → S.old ≠ S.new := by simp
  refine (newFrame hp henclosing hmark).bind ?_
  rintro p₁ frame _ hk - ⟨rfl, rfl, rfl⟩
  have hlt : p.left.store.frames.size <
      (p.newFrame enclosing enclosing' false).left.store.frames.size := by
    show _ < (p.left.store.newFrame _).2.frames.size
    rw [Store.size_newFrame]
    exact Nat.lt_succ_self _
  have hmark : (p.newFrame enclosing enclosing' false).marked p.left.store.frames.size = false :=
    if_pos rfl
  have hnew : (p.newFrame enclosing enclosing' false).left.store.local?
      p.left.store.frames.size name = none := by
    show (p.left.store.newFrame _).2.local? _ _ = none
    rw [Store.local?_newFrame, Store.local?_of_size_le _ le_rfl]
  refine (defineIn hk.sound (fun _ => hnew) rfl hlt ?_ (hv.mono hk.extends_)).bind_pure ?_
  · rw [hmark]
    exact S.spells_refl name
  · rintro p₂ _ _ hk' rfl
    refine ⟨rfl, hlt.trans_le hk'.extends_.store.size_le, ?_, hmark, ?_⟩
    · rw [hk'.extends_.store.enclosing?_eq _ hlt]
      show (p.left.store.newFrame _).2.enclosing? _ = _
      rw [Store.enclosing?_newFrame, if_pos rfl]
    · show (Store.define _ _ _ _).local? _ _ = _
      rw [Store.local?_define, if_pos ⟨rfl, rfl, hlt⟩]

/-- What is known of the frame that binds a receiver. -/
structure ReceiverFrame (p : Pair) (method : Closure) (receiver : Instance) (frame : FrameId) :
    Prop where
  lt_size : frame < p.left.store.frames.size
  enclosing?_eq : p.left.store.enclosing? frame = some method.frame
  marked_eq : p.marked frame = false
  this_eq : p.left.store.local? frame "this" = some (.instance receiver)

theorem bindReceiver_frame {method method' : Closure} {receiver receiver' : Instance}
    (hp : p.Sound R S) (hframe : method'.frame = S.frame method.frame)
    (ho : Instance.Twin R S p receiver receiver') :
    Runs R S p (bindReceiver method receiver) (Eval.bindReceiver method' receiver')
      fun p' bound bound' => ∃ frame, bound = { method with frame } ∧
        bound' = { method' with frame := S.frame frame } ∧
        ReceiverFrame p' method receiver frame := by
  rw [bindReceiver_eq, bindReceiver_eq]
  refine (frameFor hp hframe (.instance ho)).bind_pure ?_
  rintro p' frame _ - ⟨rfl, hlt, houter, hmark, hthis⟩
  exact ⟨_, rfl, rfl, hlt, houter, hmark, hthis⟩

/-- The frame that binds a receiver is that of a scope around the method. -/
theorem ReceiverFrame.mirrors {method : Closure} {receiver : Instance} {frame : FrameId}
    {scopes : List Scope} {marks : List Bool} {frames : List FrameId}
    (h : ReceiverFrame p method receiver frame)
    (hmirrors : Mirrors p.left.store p.marked scopes marks frames method.frame) :
    Mirrors p.left.store p.marked (.single "this" :: scopes) (false :: marks) (frame :: frames)
      frame := by
  refine .enter h.lt_size h.marked_eq (fun name hname => ?_) h.enclosing?_eq hmirrors
  rw [Scope.get?_single] at hname
  split at hname
  · next heq =>
    rw [heq, h.this_eq]
    rfl
  · cases hname

theorem bindReceiver {user : Place} {method method' : Closure} {receiver receiver' : Instance}
    (hp : p.Sound R S) (hm : Closure.MethodTwin R S p method method')
    (ho : Instance.Twin R S p receiver receiver') (huser : user.text = p.text)
    (hh : Happens R user (.bind method receiver p.left)) :
    Runs R S p (bindReceiver method receiver) (Eval.bindReceiver method' receiver')
      (Closure.Twin R S) := by
  obtain ⟨place, marks, m, hown, htext, hbefore, hmirrors, hroutine⟩ := hm.owned
  refine (bindReceiver_frame hp hm.frame_eq ho).with_eq.mono ?_
  rintro p' _ _ hk ⟨⟨frame, rfl, rfl, hframe⟩, hbound⟩
  refine ⟨rfl, hm.isInitializer_eq, fun _ => ⟨hframe.lt_size, hframe.marked_eq⟩, ?_⟩
  refine ⟨(place.inMethod method receiver frame).during user.text, false :: marks,
    methodContext method.routine.name, p'.left, .bound hh hown (huser ▸ htext) hbefore hbound,
    (huser.trans hk.text_eq.symm).le, .refl _, ?_, ?_⟩
  · exact hframe.mirrors (hmirrors.mono hk.extends_.store hk.extends_.marked_eq)
  · rw [hk.linked_eq]
    exact hroutine

/-! ### Properties -/

theorem optionRel_some_left {α β : Type} {P : α → β → Prop} {a : α} {o' : Option β}
    (h : Option.Rel P (some a) o') : ∃ b, o' = some b ∧ P a b := by
  cases h with
  | some hab => exact ⟨_, rfl, hab⟩

theorem optionRel_none_left {α β : Type} {P : α → β → Prop} {o' : Option β}
    (h : Option.Rel P none o') : o' = none := by
  cases h
  rfl

theorem findMethod? {c c' : Class} (hc : Class.Twin R S p c c') (name : String) :
    Option.Rel (Closure.MethodTwin R S p) (c.findMethod? name) (c'.findMethod? name) := by
  have hlayers : List.Forall₂ (ClassLayer.Twin R S p) c.layers c'.layers :=
    .cons hc.own hc.inherited
  unfold Class.findMethod?
  generalize c.layers = layers, c'.layers = layers' at hlayers
  induction hlayers with
  | nil => exact .none
  | @cons layer layer' _ _ hlayer _ ih =>
    have hmethod := hlayer.methods name
    rw [List.findSome?_cons, List.findSome?_cons]
    cases h : layer.methods.get? name <;> cases h' : layer'.methods.get? name <;>
      rw [h, h'] at hmethod <;> cases hmethod
    · exact ih
    · next hm => exact .some hm

theorem getProperty {fuel : Nat} {object : Expr} {receiver receiver' : Instance} {name : Token}
    {m : Machine} (hp : p.Sound R S) (ho : Instance.Twin R S p receiver receiver')
    (htext : place.text = p.text)
    (hh : Happens R place (.evaluate (fuel + 1) (.property object name) m))
    (hobject : evaluate fuel object m = .ok (.instance receiver) p.left) :
    Runs R S p (getProperty receiver name)
      (Eval.getProperty receiver' (name.down (S.lines place.origin))) (Value.Twin R S) := by
  refine .get_bind ?_
  rw [ho.id_eq, Token.lexeme_down]
  have hrel := hp.fields receiver.id name.lexeme
  cases hfield : p.left.store.field? receiver.id name.lexeme with
  | some v =>
    obtain ⟨v', hv', hv⟩ := optionRel_some_left (hfield ▸ hrel)
    rw [hv']
    exact .pure hp hv
  | none =>
    rw [optionRel_none_left (hfield ▸ hrel :)]
    have hfound := findMethod? ho.class_twin name.lexeme
    dsimp only
    cases hm : receiver.class.findMethod? name.lexeme with
    | none =>
      rw [optionRel_none_left (hm ▸ hfound :)]
      exact fail hp hh (.undefinedProperty hobject hfield hm) rfl
    | some method =>
      obtain ⟨method', hm', hmethod⟩ := optionRel_some_left (hm ▸ hfound)
      rw [hm']
      refine (bindReceiver hp hmethod ho htext (hh.bindProperty hobject hfield hm)).bind ?_
      exact fun p' _ _ hk _ hc => newFunction hk.sound hc

theorem setProperty {receiver receiver' : Instance} {name : Token} {lines : Nat} {v v' : Value}
    (hp : p.Sound R S) (ho : Instance.Twin R S p receiver receiver') (hv : Value.Twin R S p v v') :
    Runs R S p (setProperty receiver name v) (Eval.setProperty receiver' (name.down lines) v')
      fun _ _ _ => True := by
  have hset := hp.setField receiver.id name.lexeme hv
  unfold Eval.setProperty
  rw [ho.id_eq]
  exact .modifyGet _ hset.2 hset.1 rfl rfl rfl rfl rfl rfl (.refl _) trivial

/-- An initializer gives its receiver, which is in a frame without replaced names. -/
theorem receiverOf {fuel : Nat} {initializer initializer' : Closure} {paren paren' : Token}
    {values : List Value} {m : Machine} (hp : p.Sound R S)
    (hc : Closure.Twin R S p initializer initializer') (hi : initializer.isInitializer = true)
    (hh : Happens R place (.invoke (fuel + 1) initializer paren values m))
    (hbefore : m.store.Extends p.left.store)
    (hline : paren'.line = paren.line + S.lines place.origin) :
    Runs R S p (receiverOf initializer paren) (Eval.receiverOf initializer' paren')
      (Value.Twin R S) := by
  refine .get_bind ?_
  obtain ⟨hlt, hmarked⟩ := hc.receiver hi
  rw [hc.frame_eq]
  have hlocal := hp.locals initializer.frame _ _ S.used_this (hmarked ▸ S.spells_refl "this")
  generalize hthis : p.left.store.local? initializer.frame "this" = o at hlocal
  generalize p.right.store.local? (S.frame initializer.frame) "this" = o' at hlocal
  cases hlocal with
  | bound hv => exact .pure hp hv
  | unbound =>
    refine fail hp hh (.initializer hi ?_) hline
    by_contra hne
    have := hbefore.isSome_local? _ _ (Option.ne_none_iff_isSome.1 hne)
    simp [hthis] at this
  | stale hframe hstale => exact stale hstale (hframe ▸ hthis)

/-! ### Clock and output -/

theorem readClock (hp : p.Sound R S) (hused : ¬S.unused "clock") :
    Runs R S p readClock Eval.readClock (Value.Twin R S) := by
  have hclock := hp.clock_eq hused
  refine .modifyGet { p with
    left := { p.left with clock := { p.left.clock with taken := p.left.clock.taken + 1 } }
    right := { p.right with clock := { p.right.clock with taken := p.right.clock.taken + 1 } } }
    ?_ (Pair.extends_of_store_eq rfl rfl rfl rfl rfl) rfl rfl rfl rfl rfl rfl (.refl _) ?_
  · refine hp.of_store_eq (Pair.extends_of_store_eq rfl rfl rfl rfl rfl) rfl rfl rfl hp.current_eq
      hp.sinks (fun _ => ?_) hp.nextStamp_eq
    rw [hclock]
  · rw [hclock]
    exact .number

theorem printLine {text : String} (hp : p.Sound R S) :
    Runs R S p (printLine text) (Eval.printLine text) fun _ _ _ => True := by
  obtain ⟨hfault, hsinks⟩ := hp.sinks.write (text ++ "\n")
  refine Runs.bind (Q := fun _ fault? fault?' => fault?' = fault?) ?_ ?_
  · refine .modifyGet { p with
      left := { p.left with sink := (p.left.sink.write (text ++ "\n")).2 }
      right := { p.right with sink := (p.right.sink.write (text ++ "\n")).2 } }
      ?_ (Pair.extends_of_store_eq rfl rfl rfl rfl rfl) rfl rfl rfl rfl rfl rfl
      (Sink.extends_write _ _) hfault
    exact hp.of_store_eq (Pair.extends_of_store_eq rfl rfl rfl rfl rfl) rfl rfl rfl hp.current_eq
      hsinks hp.clock_eq hp.nextStamp_eq
  · rintro p' _ fault? hk - rfl
    cases fault? with
    | none => exact .pure hk.sound trivial
    | some fault => exact .throw hk.sound .output

theorem flushOutput (hp : p.Sound R S) :
    Runs R S p flushOutput Eval.flushOutput fun _ _ _ => True := by
  have hflush : p.right.sink.flush = p.left.sink.flush := by
    rw [Sink.flush, Sink.flush, hp.sinks.flushFails_eq]
  refine .get_bind ?_
  rw [hflush]
  cases p.left.sink.flush with
  | none => exact .pure hp trivial
  | some fault => exact .throw hp .output

/-! ### Superclass methods -/

/-- A use of `super` finds a class, and directly inside its frame one that binds `this`. -/
theorem superMethod {marks : List Bool} {use use' : Use} {method : Token} {fuel : Nat}
    (hat : p.At R S place marks) (hu : p.linked S place.origin .super place.site marks use use')
    (hh : Happens R place (.evaluate (fuel + 1) (.super use method) p.left)) :
    Runs R S p (superMethod use method)
      (Eval.superMethod use' (method.down (S.lines place.origin))) (Value.Twin R S) := by
  have hp := hat.sound
  obtain ⟨-, depth, scope, hsite, -, hscope, hthis, hunmarked⟩ := hu.receiver rfl
  have hdepth : p.left.depths.depth? use.id = some (depth + 1) := hu.left.2.trans hsite
  -- the superclass
  obtain ⟨target, -, -, hleft, hright, hspells, hbound⟩ := hu.target hat hdepth
  obtain ⟨c, hc⟩ := Option.isSome_iff_exists.1 (hbound (by simp))
  obtain ⟨c', hc', hctwin⟩ := hp.exists_local? hu.used hspells hc
  have hgetc : p.left.store.getAt (depth + 1) p.left.current use.token = .ok c := by
    unfold Use.name at hc
    simp only [Store.getAt, hleft, Option.bind_some, hc]
  have hgetc' : p.right.store.getAt (depth + 1) p.right.current use'.token = .ok c' := by
    unfold Use.name at hc'
    simp only [Store.getAt, hright, Option.bind_some, hc']
  -- the receiver
  obtain ⟨inner, -, hinner, -, hmarked, hinnerBound⟩ := hat.mirrors.at_depth hscope
  have hinner' : p.right.store.outward? depth p.right.current = some (S.frame inner) := by
    rw [hp.current_eq, hp.outward?_eq, hinner, Option.map_some]
  obtain ⟨v, hv⟩ := Option.isSome_iff_exists.1 (hinnerBound _ hthis)
  obtain ⟨v', hv', hvtwin⟩ := hp.exists_local? S.used_this
    ((hmarked.trans hunmarked) ▸ S.spells_refl "this") hv
  have hgetv (line : Nat) : p.left.store.getAt depth p.left.current
      ⟨.keyword .this, "this", line⟩ = .ok v := by
    simp only [Store.getAt, hinner, Option.bind_some, hv]
  have hgetv' (line : Nat) : p.right.store.getAt depth p.right.current
      ⟨.keyword .this, "this", line⟩ = .ok v' := by
    simp only [Store.getAt, hinner', Option.bind_some, hv']
  have hmisused (h : ∀ superclass receiver, c = .class superclass → v ≠ .instance receiver) :
      Raises (.evaluate (fuel + 1) (.super use method) p.left) use.token .superOutsideMethod :=
    .super (superMethod_of_misused hdepth hgetc (hgetv _) h)
  refine .get_bind ?_
  rw [hu.right_depth?_eq, hdepth]
  simp only [hgetc, hgetc', hgetv, hgetv', orFail, pure_bind, Token.lexeme_down]
  cases hctwin with
  | «class» hclass =>
    cases hvtwin with
    | «instance» hinstance =>
      have hfound := findMethod? hclass method.lexeme
      dsimp only
      split
      · next found hm =>
        obtain ⟨found', hm', hmethod⟩ := optionRel_some_left (hm ▸ hfound)
        rw [hm']
        have hbind := hh.bindSuper hdepth hgetc (hgetv use.token.line) rfl hm
        refine (bindReceiver hp hmethod hinstance hat.text_eq hbind).bind ?_
        exact fun p' _ _ hk _ hb => newFunction hk.sound hb
      · next hm =>
        have hnone := optionRel_none_left (hm ▸ hfound :)
        rw [hnone]
        exact fail hp hh (.undefinedMethod hdepth hgetc hm) rfl
    | _ => exact fail hp hh (hmisused (by simp)) hu.line_eq
  | _ => exact fail hp hh (hmisused (by simp)) hu.line_eq

/-! ### Operators -/

/-- Two results of an operator: the same fault, or twin values. -/
inductive OperatorTwin (R : Place → Moment → Prop) (S : Setting) (p : Pair) :
    Except RuntimeFault Value → Except RuntimeFault Value → Prop
  | ok {v v' : Value} (h : Value.Twin R S p v v') : OperatorTwin R S p (.ok v) (.ok v')
  | error {cause : RuntimeFault} : OperatorTwin R S p (.error cause) (.error cause)

theorem orFailAt {anchor anchor' : Token} {e e' : Except RuntimeFault Value} (hp : p.Sound R S)
    (h : OperatorTwin R S p e e') (hh : Happens R place moment)
    (hraises : ∀ cause, e = .error cause → Raises moment anchor cause)
    (hline : anchor'.line = anchor.line + S.lines place.origin) :
    Runs R S p (orFailAt anchor e) (Eval.orFailAt anchor' e') (Value.Twin R S) := by
  cases h with
  | ok hv => exact .pure hp hv
  | error => exact fail hp hh (hraises _ rfl) hline

theorem isTruthy_eq {v v' : Value} (h : Value.Twin R S p v v') : v'.isTruthy = v.isTruthy := by
  cases h <;> rfl

theorem decides_eq {v v' : Value} (h : Value.Twin R S p v v') (operator : Kind) :
    v'.decides operator = v.decides operator := by
  rw [Value.decides, Value.decides, isTruthy_eq h]

theorem text_eq {v v' : Value} (h : Value.Twin R S p v v') : v'.text = v.text := by
  cases h with
  | function hc =>
    obtain ⟨_, _, _, _, _, _, _, _, hroutine⟩ := hc.made
    rw [Value.text, Value.text, Closure.name, Closure.name, hroutine.name_eq, Token.lexeme_down]
  | «class» hc => exact hc.own.name_eq
  | «instance» ho => exact congrArg (· ++ " instance") ho.class_twin.own.name_eq
  | _ => rfl

theorem equals_eq {v v' w w' : Value} (hv : Value.Twin R S p v v') (hw : Value.Twin R S p w w') :
    v'.equals w' = v.equals w := by
  have hadd (a b n : Nat) : (a + n == b + n) = (a == b) := by simp
  cases hv <;> cases hw <;> try rfl
  case function.function => exact hadd _ _ _
  case «class».class hc _ _ hc' =>
    rw [Value.equals, Value.equals, hc.own.stamp_eq, hc'.own.stamp_eq]
    exact hadd _ _ _
  case «instance».instance ho _ _ ho' =>
    rw [Value.equals, Value.equals, ho.id_eq, ho'.id_eq]
    exact hadd _ _ _

theorem applyUnary {v v' : Value} (h : Value.Twin R S p v v') (operator : Kind) :
    OperatorTwin R S p (v.applyUnary operator) (v'.applyUnary operator) := by
  by_cases hminus : operator = .symbol .minus
  · subst hminus
    cases h <;> first | exact .ok .number | exact .error
  · by_cases hbang : operator = .symbol .bang
    · subst hbang
      show OperatorTwin R S p (.ok (.boolean !v.isTruthy)) (.ok (.boolean !v'.isTruthy))
      rw [isTruthy_eq h]
      exact .ok .boolean
    · have hinvalid (w : Value) : w.applyUnary operator = .error .invalidUnaryOperator := by
        simp [Value.applyUnary, hminus]
      rw [hinvalid, hinvalid]
      exact .error

theorem applyNumeric (a b : Float) (operator : Kind) :
    OperatorTwin R S p (Value.applyNumeric operator a b) (Value.applyNumeric operator a b) := by
  unfold Value.applyNumeric
  split <;> first | exact .ok .number | exact .ok .boolean | exact .error

theorem applyBinary {v v' w w' : Value} (hv : Value.Twin R S p v v') (hw : Value.Twin R S p w w')
    (operator : Kind) :
    OperatorTwin R S p (v.applyBinary operator w) (v'.applyBinary operator w') := by
  have hequals := equals_eq hv hw
  unfold Value.applyBinary
  split
  · cases hv <;> cases hw <;> first | exact .ok .number | exact .ok .string | exact .error
  · rw [hequals]
    exact .ok .boolean
  · rw [hequals]
    exact .ok .boolean
  · cases hv <;> cases hw <;> first | exact applyNumeric _ _ _ | exact .error

end Runs

end Treewalk
