import Treewalk.Proofs.Evaluation.Stores

/-!
# Computations in step

Two computations, one on each machine of a pair, that end in the same way: both with results of
which a relation holds, or both halted for the same reason. In any case the pair they leave is
sound, and extends the one they began with.

A runtime fault of one is a runtime fault of the other with the same cause. It is raised at some
moment of the run of the first machine, and the second machine reports it as many lines further down
as the program of that moment stands.

If names may be bound beforehand for the second machine, it can only go on where the first one halts
at a name that it does not bind. Nothing is said of that case: it does not arise if the first
machine has all these names bound when it halts.

## Main definitions

* `Pair.Kept` — the pair that computations leave
* `Halt.Twin` — two halts for the same reason
* `Runs` — two computations in step

## Main results

* `Runs.bind` — computations one after the other
* `Runs.inFrame` — computations in another frame
-/

namespace Treewalk

open Eval

variable {α β γ δ : Type}

/-- The second sink is the first one after more was written to it. -/
structure Sink.Extends (sink sink' : Sink) : Prop where
  limit_eq : sink'.limit = sink.limit
  flushFails_eq : sink'.flushFails = sink.flushFails
  written : ∃ output, sink'.written = sink.written ++ output

theorem Sink.Extends.refl (sink : Sink) : sink.Extends sink :=
  ⟨rfl, rfl, .empty, ByteArray.append_empty.symm⟩

theorem Sink.Extends.trans {s₁ s₂ s₃ : Sink} (h : s₁.Extends s₂) (h' : s₂.Extends s₃) :
    s₁.Extends s₃ := by
  obtain ⟨output, hwritten⟩ := h.written
  obtain ⟨output', hwritten'⟩ := h'.written
  refine ⟨h'.limit_eq.trans h.limit_eq, h'.flushFails_eq.trans h.flushFails_eq,
    output ++ output', ?_⟩
  rw [hwritten', hwritten, ByteArray.append_assoc]

theorem Sink.extends_write (sink : Sink) (text : String) : sink.Extends (sink.write text).2 := by
  unfold Sink.write
  dsimp only
  split <;> exact ⟨rfl, rfl, _, rfl⟩

section Definitions

variable (R : Place → Moment → Prop) (S : Setting)

/-- The pair `p'` is sound, extends `p`, and stands in the same frame with the same tables and room
for output, still running the same program. -/
structure Pair.Kept (p p' : Pair) : Prop where
  sound : p'.Sound R S
  extends_ : p.Extends p'
  current_eq : p'.left.current = p.left.current
  leftIds_eq : p'.leftIds = p.leftIds
  rightIds_eq : p'.rightIds = p.rightIds
  text_eq : p'.text = p.text
  sink_extends : p.left.sink.Extends p'.left.sink

/-- Two evaluations halted for the same reason. A runtime fault was raised at a moment of the first
run, and the line of the second one tells from which program the token comes at which it was
raised. -/
inductive Halt.Twin : Halt → Halt → Prop
  | fault {place : Place} {moment : Moment} {token : Token} {cause : RuntimeFault}
      (h : Happens R place moment) (hraises : Raises moment token cause) :
      Halt.Twin (.fault (.runtime token.line cause))
        (.fault (.runtime (token.line + S.lines place.origin) cause))
  | output {fault : OutputFault} : Halt.Twin (.fault (.output fault)) (.fault (.output fault))
  | exhausted : Halt.Twin .exhausted .exhausted

/-- The two computations end in the same way on the machines of `p`. If they give results, `Q` holds
of these and of the pair they leave. -/
def Runs (p : Pair) (c : Eval α) (c' : Eval β) (Q : Pair → α → β → Prop) : Prop :=
  match c p.left with
  | .ok a m => ∃ b p', c' p.right = .ok b p'.right ∧ p'.left = m ∧ p.Kept R S p' ∧ Q p' a b
  | .error halt m => S.Settled m →
    ∃ halt' p', c' p.right = .error halt' p'.right ∧ p'.left = m ∧ p.Kept R S p' ∧
      Halt.Twin R S halt halt'

end Definitions

/-! ### One computation -/

namespace Eval

variable {c : Eval α} {f : α → Eval β} {m m' : Machine}

theorem bind_eq_of_ok {a : α} (h : c m = .ok a m') : (c >>= f) m = f a m' := by
  simp only [bind, EStateM.bind, h]

theorem bind_eq_error {halt : Halt} (h : c m = .error halt m') :
    (c >>= f) m = .error halt m' := by
  simp only [bind, EStateM.bind, h]

theorem get_bind_apply (g : Machine → Eval β) (m : Machine) : (get >>= g) m = g m m := rfl

theorem modifyGet_bind_apply (g : Machine → α × Machine) (m : Machine) :
    (modifyGet g >>= f) m = f (g m).1 (g m).2 := rfl

theorem inFrame_eq_of_ok {frame : FrameId} {a : α} (h : c { m with current := frame } = .ok a m') :
    inFrame frame c m = .ok a { m' with current := m.current } := by
  simp only [inFrame, h]

theorem inFrame_eq_error {frame : FrameId} {halt : Halt}
    (h : c { m with current := frame } = .error halt m') :
    inFrame frame c m = .error halt { m' with current := m.current } := by
  simp only [inFrame, h]

end Eval

variable {R : Place → Moment → Prop} {S : Setting} {p p' : Pair}

namespace Pair.Kept

theorem refl (hp : p.Sound R S) : p.Kept R S p := ⟨hp, .refl p, rfl, rfl, rfl, rfl, .refl _⟩

theorem trans {p₁ p₂ p₃ : Pair} (h : p₁.Kept R S p₂) (h' : p₂.Kept R S p₃) : p₁.Kept R S p₃ :=
  ⟨h'.sound, h.extends_.trans h'.extends_, h'.current_eq.trans h.current_eq,
    h'.leftIds_eq.trans h.leftIds_eq, h'.rightIds_eq.trans h.rightIds_eq,
    h'.text_eq.trans h.text_eq, h.sink_extends.trans h'.sink_extends⟩

theorem linked_eq (h : p.Kept R S p') (origin : Nat) : p'.linked S origin = p.linked S origin := by
  rw [Pair.linked, Pair.linked, h.leftIds_eq, h.rightIds_eq]

/-- If no name is replaced, a pair that is kept is told by its machines. -/
theorem eq_mk (h : p.Kept R S p') (hr : S.old = S.new) :
    p' = ⟨p'.left, p'.right, p.leftBound, p.rightBound, p.text, fun _ => false⟩ := by
  obtain ⟨left, right, leftBound, rightBound, text, marked⟩ := p'
  obtain rfl : marked = fun _ => false := h.sound.marked_eq_false hr
  obtain rfl : leftBound = p.leftBound := congrArg Numbering.bound h.leftIds_eq
  obtain rfl : rightBound = p.rightBound := congrArg Numbering.bound h.rightIds_eq
  obtain rfl : text = p.text := h.text_eq
  rfl

end Pair.Kept

namespace Runs

variable {c : Eval α} {c' : Eval β} {f : α → Eval γ} {f' : β → Eval δ}
  {Q Q' : Pair → α → β → Prop} {T : Pair → γ → δ → Prop}

/-! ### Computations that are known to end in one way -/

theorem of_ok {a : α} {b : β} (hc : c p.left = .ok a p'.left) (hc' : c' p.right = .ok b p'.right)
    (hk : p.Kept R S p') (hQ : Q p' a b) : Runs R S p c c' Q := by
  unfold Runs
  rw [hc]
  exact ⟨b, p', hc', rfl, hk, hQ⟩

theorem of_error {halt : Halt} {m : Machine} (hc : c p.left = .error halt m)
    (h : S.Settled m → ∃ halt' p', c' p.right = .error halt' p'.right ∧ p'.left = m ∧
      p.Kept R S p' ∧ Halt.Twin R S halt halt') : Runs R S p c c' Q := by
  unfold Runs
  rwa [hc]

theorem exists_of_ok (h : Runs R S p c c' Q) {a : α} {m : Machine} (hc : c p.left = .ok a m) :
    ∃ b p', c' p.right = .ok b p'.right ∧ p'.left = m ∧ p.Kept R S p' ∧ Q p' a b := by
  unfold Runs at h
  rwa [hc] at h

theorem exists_of_error (h : Runs R S p c c' Q) {halt : Halt} {m : Machine}
    (hc : c p.left = .error halt m) (hm : S.Settled m) :
    ∃ halt' p', c' p.right = .error halt' p'.right ∧ p'.left = m ∧ p.Kept R S p' ∧
      Halt.Twin R S halt halt' := by
  unfold Runs at h
  rw [hc] at h
  exact h hm

/-! ### Computations one after the other -/

theorem mono (h : Runs R S p c c' Q) (hQ : ∀ p' a b, p.Kept R S p' → Q p' a b → Q' p' a b) :
    Runs R S p c c' Q' := by
  unfold Runs at h ⊢
  split at h
  · obtain ⟨b, p', hr, hl, hk, hq⟩ := h
    exact ⟨b, p', hr, hl, hk, hQ p' _ _ hk hq⟩
  · exact h

/-- What the first computation gives is what its machine computes. -/
theorem with_eq (h : Runs R S p c c' Q) :
    Runs R S p c c' fun p' a b => Q p' a b ∧ c p.left = .ok a p'.left := by
  unfold Runs at h ⊢
  split at h
  · next hc =>
    obtain ⟨b, p', hr, hl, hk, hq⟩ := h
    exact ⟨b, p', hr, hl, hk, hq, by rw [hc, hl]⟩
  · exact h

protected theorem pure {a : α} {b : β} (hp : p.Sound R S) (h : Q p a b) :
    Runs R S p (pure a) (pure b) Q :=
  ⟨b, p, rfl, rfl, .refl hp, h⟩

protected theorem throw {halt halt' : Halt} (hp : p.Sound R S) (h : Halt.Twin R S halt halt') :
    Runs R S p (throw halt : Eval α) (throw halt' : Eval β) Q :=
  fun _ => ⟨halt', p, rfl, rfl, .refl hp, h⟩

/-- The first machine halts while a name is not bound that the second one may bind. -/
theorem throw_of_not_settled {halt : Halt} (h : ¬S.Settled p.left) :
    Runs R S p (throw halt : Eval α) c' Q :=
  fun hsettled => absurd hsettled h

/-- The second computations begin with the pair that the first ones leave. -/
protected theorem bind (h : Runs R S p c c' Q)
    (hf : ∀ p' a b, p.Kept R S p' → c p.left = .ok a p'.left → Q p' a b →
      Runs R S p' (f a) (f' b) T) : Runs R S p (c >>= f) (c' >>= f') T := by
  cases hc : c p.left with
  | error halt m =>
    refine of_error (bind_eq_error hc) fun hm => ?_
    obtain ⟨halt', p', hc', hl, hk, hhalt⟩ := h.exists_of_error hc hm
    exact ⟨halt', p', bind_eq_error hc', hl, hk, hhalt⟩
  | ok a m =>
    obtain ⟨b, p', hc', rfl, hk, hq⟩ := h.exists_of_ok hc
    have hrun := hf p' a b hk hc hq
    cases hx : f a p'.left with
    | ok d m =>
      obtain ⟨d', p'', hx', rfl, hk', ht⟩ := hrun.exists_of_ok hx
      exact of_ok ((bind_eq_of_ok hc).trans hx) ((bind_eq_of_ok hc').trans hx') (hk.trans hk') ht
    | error halt m =>
      refine of_error ((bind_eq_of_ok hc).trans hx) fun hm => ?_
      obtain ⟨halt', p'', hx', hl, hk', hhalt⟩ := hrun.exists_of_error hx hm
      exact ⟨halt', p'', (bind_eq_of_ok hc').trans hx', hl, hk.trans hk', hhalt⟩

theorem bind_pure {g : α → γ} {g' : β → δ} (h : Runs R S p c c' Q)
    (hg : ∀ p' a b, p.Kept R S p' → Q p' a b → T p' (g a) (g' b)) :
    Runs R S p (c >>= fun a => pure (g a)) (c' >>= fun b => pure (g' b)) T :=
  h.bind fun p' a b hk _ hq => .pure hk.sound (hg p' a b hk hq)

/-- The state is looked at first. -/
theorem get_bind {f : Machine → Eval γ} {f' : Machine → Eval δ}
    (h : Runs R S p (f p.left) (f' p.right) T) : Runs R S p (get >>= f) (get >>= f') T :=
  h

/-- A change of both machines. -/
theorem modifyGet {f : Machine → α × Machine} {f' : Machine → β × Machine} (p' : Pair)
    (hp' : p'.Sound R S) (hext : p.Extends p') (hf : (f p.left).2 = p'.left)
    (hf' : (f' p.right).2 = p'.right) (hcurrent : p'.left.current = p.left.current)
    (hleft : p'.leftIds = p.leftIds) (hright : p'.rightIds = p.rightIds) (htext : p'.text = p.text)
    (hsink : p.left.sink.Extends p'.left.sink) (hQ : Q p' (f p.left).1 (f' p.right).1) :
    Runs R S p (modifyGet f) (modifyGet f') Q := by
  have hkept : p.Kept R S p' := ⟨hp', hext, hcurrent, hleft, hright, htext, hsink⟩
  refine of_ok ?_ ?_ hkept hQ
  · rw [← hf]
    rfl
  · rw [← hf']
    rfl

/-! ### Other frames -/

end Runs

/-- The pair with its machines in counterparts of a frame. -/
def Pair.setCurrent (p : Pair) (S : Setting) (frame : FrameId) : Pair :=
  { p with
    left := { p.left with current := frame }
    right := { p.right with current := S.frame frame } }

theorem Pair.extends_setCurrent (p : Pair) (S : Setting) (frame : FrameId) :
    p.Extends (p.setCurrent S frame) :=
  ⟨.refl _, .refl _, .refl _, le_rfl, fun _ _ => rfl⟩

theorem Pair.Sound.setCurrent (hp : p.Sound R S) (frame : FrameId) :
    (p.setCurrent S frame).Sound R S :=
  hp.of_store_eq (p.extends_setCurrent S frame) rfl rfl rfl rfl hp.sinks hp.clock_eq
    hp.nextStamp_eq

namespace Runs

variable {c : Eval α} {c' : Eval β} {Q Q' : Pair → α → β → Prop}

theorem inFrame {frame frame' : FrameId} (hp : p.Sound R S) (hframe : frame' = S.frame frame)
    (h : Runs R S (p.setCurrent S frame) c c' Q)
    (hQ : ∀ p' a b, p.Extends p' → Q p' a b → Q' (p'.setCurrent S p.left.current) a b) :
    Runs R S p (inFrame frame c) (inFrame frame' c') Q' := by
  subst hframe
  have hext {p' : Pair} (hk : (p.setCurrent S frame).Kept R S p') : p.Extends p' :=
    (p.extends_setCurrent S frame).trans hk.extends_
  have hback {p' : Pair} (hk : (p.setCurrent S frame).Kept R S p') :
      p.Kept R S (p'.setCurrent S p.left.current) :=
    ⟨hk.sound.setCurrent _, (hext hk).trans (p'.extends_setCurrent S _), rfl, hk.leftIds_eq,
      hk.rightIds_eq, hk.text_eq, hk.sink_extends⟩
  cases hc : c (p.setCurrent S frame).left with
  | ok a m =>
    obtain ⟨b, p', hc', rfl, hk, hq⟩ := h.exists_of_ok hc
    have hleft : Eval.inFrame frame c p.left = .ok a (p'.setCurrent S p.left.current).left :=
      inFrame_eq_of_ok hc
    refine of_ok hleft ?_ (hback hk) (hQ p' a b (hext hk) hq)
    rw [inFrame_eq_of_ok hc', hp.current_eq]
    rfl
  | error halt m =>
    refine of_error (inFrame_eq_error hc) fun hm => ?_
    obtain ⟨halt', p', hc', rfl, hk, hhalt⟩ := h.exists_of_error hc hm
    refine ⟨halt', p'.setCurrent S p.left.current, ?_, rfl, hback hk, hhalt⟩
    rw [inFrame_eq_error hc', hp.current_eq]
    rfl

end Runs

end Treewalk
