import Treewalk.Proofs.Evaluation.Steps

/-!
# Declarations

Declarations of functions and classes, by both machines of a pair. A function is made at the place
behind its own name, which is bound by then. The methods of a class belong to the frame around them,
which binds `super` if there is a superclass.

## Main results

* `Linked.introduce` — a use in front of a declaration of another name
* `Runs.declareFunction`, `Runs.declareClass`
-/

namespace Treewalk

open Eval

variable {R : Place → Moment → Prop} {S : Setting} {p p' : Pair}

/-! ### Places behind a declaration -/

namespace Site

/-- Behind the declaration of another name, a name belongs to the same scope. -/
theorem depth?_introduce (site : Site) (name : Token) {other : String}
    (h : other ≠ name.lexeme) : (site.introduce name).2.depth? other = site.depth? other := by
  obtain ⟨scopes, routine, classContext⟩ := site
  cases scopes with
  | nil => rfl
  | cons scope outer =>
    obtain ⟨scope', hscope', -, hget⟩ := introduce_cons scope outer routine classContext name
    rw [hscope', depth?, depth?, List.findIdx?_cons, List.findIdx?_cons, NameMap.contains,
      NameMap.contains, hget other h]

theorem Defines.of_introduce {site : Site} {name : Token} {other : String}
    (hother : (site.introduce name).2.Defines other) (h : other ≠ name.lexeme) :
    site.Defines other := by
  intro depth hdepth
  obtain ⟨scope, hscope, hname⟩ := hother depth ((site.depth?_introduce name h).trans hdepth)
  obtain ⟨scopes, routine, classContext⟩ := site
  cases scopes with
  | nil => exact ⟨scope, hscope, hname⟩
  | cons first outer =>
    obtain ⟨first', hfirst', -, hget⟩ := introduce_cons first outer routine classContext name
    rw [hfirst'] at hscope
    cases depth with
    | succ depth => exact ⟨scope, hscope, hname⟩
    | zero =>
      obtain rfl := Option.some.inj hscope
      exact ⟨first, rfl, (hget other h).symm.trans hname⟩

end Site

/-- The superclass clause of a class is read in front of the name of the class. -/
theorem Linked.of_introduce {r : Edit} {N N' : Numbering} {site : Site} {marks : List Bool}
    {name : Token} {use use' : Use}
    (h : Linked r N N' .variable (site.introduce name).2 marks use use')
    (hname : use.name ≠ name.lexeme) : Linked r N N' .variable site marks use use' := by
  have hdepth := site.depth?_introduce name hname
  have hspells := h.spells
  rw [Site.isRespelled, hdepth] at hspells
  exact ⟨hdepth ▸ h.left, hdepth ▸ h.right, h.line_eq, hspells, h.used, h.names,
    fun hkind => (h.defines hkind).of_introduce hname, (by cases ·), (by cases ·)⟩

/-! ### Names bound in the current frame -/

theorem DeclaresTwins.not_isReserved {r : Edit} {marks : List Bool} {name name' : Token}
    (h : DeclaresTwins r marks name name') : ¬IsReserved name.lexeme :=
  not_or.2 ⟨h.ne_this, h.ne_super⟩

namespace Runs

variable {place : Place} {marks : List Bool}

theorem define {name name' : Token} {v v' : Value} (hat : p.At R S place marks)
    (hname : DeclaresTwins (S.edit place.origin) marks name name') (hv : Value.Twin R S p v v') :
    Runs R S p (define name.lexeme v) (Eval.define name'.lexeme v') fun p' _ _ =>
      (p'.left.store.local? p.left.current name.lexeme).isSome := by
  refine .get_bind ?_
  refine (defineIn hat.sound (absurd · hname.not_isReserved) hat.sound.current_eq hat.current_lt
    (hat.marked_current ▸ hname.spells) hv).mono ?_
  rintro p' _ _ - rfl
  exact p.left.store.isSome_local?_define hat.current_lt name.lexeme v

theorem declareFunction {routine routine' : Routine} {fuel : Nat} (hat : p.At R S place marks)
    (hname : DeclaresTwins (S.edit place.origin) marks routine.name routine'.name)
    (hroutine : Routine.Twin (S.edit place.origin) (p.linked S place.origin)
      (place.site.introduce routine.name).2 marks .function routine routine')
    (hh : Happens R place (.execute (fuel + 1) (.function routine) p.left)) :
    Runs R S p (declareFunction routine) (Eval.declareFunction routine') fun p' _ _ =>
      (p'.left.store.local? p.left.current routine.name.lexeme).isSome := by
  have hp := hat.sound
  -- both machines after the declaration, which refers to the frame it binds the function in
  let stamped : Pair := { p with
    left := { p.left with nextStamp := p.left.nextStamp + 1 }
    right := { p.right with nextStamp := p.right.nextStamp + 1 } }
  let v := Value.function p.left.nextStamp ⟨routine, p.left.current, false⟩
  let v' := Value.function (p.left.nextStamp + S.stamps) ⟨routine', S.frame p.left.current, false⟩
  let done := stamped.define p.left.current (S.frame p.left.current) routine.name.lexeme
    routine'.name.lexeme v v'
  have hreserved : IsReserved routine.name.lexeme →
      stamped.left.store.local? p.left.current routine.name.lexeme = none :=
    (absurd · hname.not_isReserved)
  have hstamped : p.Extends stamped := Pair.extends_of_store_eq rfl rfl rfl rfl rfl
  have hext : p.Extends done := hstamped.trans (stamped.extends_define hreserved ..)
  have hsound : stamped.Sound R S := hp.of_store_eq hstamped rfl rfl rfl hp.current_eq hp.sinks
    hp.clock_eq ((congrArg (· + 1) hp.nextStamp_eq).trans (Nat.add_right_comm ..))
  have hleft : Eval.declareFunction routine p.left = .ok () done.left := rfl
  have hright : Eval.declareFunction routine' p.right = .ok () done.right := by
    have heq : Eval.declareFunction routine' p.right = .ok () { p.right with
        store := p.right.store.define p.right.current routine'.name.lexeme
          (.function p.right.nextStamp ⟨routine', p.right.current, false⟩)
        nextStamp := p.right.nextStamp + 1 } := rfl
    rw [heq, hp.current_eq, hp.nextStamp_eq]
    simp only [done, stamped, v', Pair.define, Pair.withStores, hp.current_eq, hp.nextStamp_eq]
  have hbound : (done.left.store.local? p.left.current routine.name.lexeme).isSome :=
    p.left.store.isSome_local?_define hat.current_lt _ _
  have hclosure : Closure.Twin R S done ⟨routine, p.left.current, false⟩
      ⟨routine', S.frame p.left.current, false⟩ := by
    refine ⟨rfl, rfl, (by simp), place.introduce routine.name, marks, .function, done.left,
      .function hh hleft, hat.text_eq.le, .refl _, ?_, hroutine⟩
    exact (hat.mirrors.mono hext.store hext.marked_eq).introduce hbound
  have hdone : done.Sound R S := hsound.define hreserved hat.current_lt
    (hat.marked_current ▸ hname.spells) (.function hclosure)
  exact of_ok hleft hright ⟨hdone, hext, rfl, rfl, rfl, rfl, .refl _⟩ hbound

/-! ### Classes -/

theorem superclassClassOf {name : Token} {superclass superclass' : Option Use}
    {methods : List Routine} {fuel : Nat} (hat : p.At R S place marks)
    (hsuperclass : SuperclassTwin (p.linked S place.origin) (place.site.introduce name).2 marks name
      superclass superclass')
    (hh : Happens R place (.execute (fuel + 1) (.class name superclass methods) p.left)) :
    Runs R S p (superclassClassOf superclass) (Eval.superclassClassOf superclass')
      fun p' c c' => Option.Rel (Class.Twin R S p') c c' ∧ c.isSome = superclass.isSome := by
  cases hsuperclass with
  | none => exact .pure hat.sound ⟨.none, rfl⟩
  | @some use use' hu hname =>
    have hlookUp := lookUp hat (hu.of_introduce hname) (by simp) hh.superclass
    have hclass : Runs R S p (superclassOf use) (superclassOf use') (Class.Twin R S) := by
      refine hlookUp.bind ?_
      rintro p' v v' hk hlook hv
      cases hv with
      | «class» hc => exact .pure hk.sound hc
      | _ => exact fail hk.sound hh (.superclass hlook (by simp)) hu.line_eq
    have hmap (use : Use) : Eval.superclassClassOf (some use) =
        (superclassOf use >>= fun c => pure (some c)) := rfl
    rw [hmap, hmap]
    exact hclass.bind_pure fun p' c c' _ hc => ⟨.some hc, rfl⟩

/-- The frame around the methods of a class is that of the place around them. -/
theorem methodFrame {superclass : Option Use} {c c' : Option Class} (hat : p.At R S place marks)
    (hc : Option.Rel (Class.Twin R S p) c c') (hsome : c.isSome = superclass.isSome) :
    Runs R S p (methodFrame c) (Eval.methodFrame c') fun p' frame frame' =>
      frame' = S.frame frame ∧ Mirrors p'.left.store p'.marked
        (place.aroundMethods superclass c frame).site.scopes (classMarks superclass marks)
        (place.aroundMethods superclass c frame).frames frame ∧
      ∀ superclass, c = some superclass →
        p'.left.store.local? frame "super" = some (.class superclass) := by
  rw [methodFrame_eq, methodFrame_eq]
  refine .get_bind ?_
  cases hc with
  | none =>
    obtain rfl : superclass = none := by simpa using hsome
    exact .pure hat.sound ⟨hat.sound.current_eq, hat.mirrors, by simp⟩
  | some hc =>
    obtain ⟨use, rfl⟩ := Option.isSome_iff_exists.1 hsome.symm
    refine (frameFor hat.sound hat.sound.current_eq (.class hc)).mono ?_
    rintro p' frame _ hk ⟨rfl, hlt, houter, hmark, hsuper⟩
    refine ⟨rfl, .enter hlt hmark (fun name hname => ?_) houter
      (hat.mirrors.mono hk.extends_.store hk.extends_.marked_eq), ?_⟩
    · rw [Scope.get?_single] at hname
      split at hname
      · next heq =>
        rw [heq, hsuper]
        rfl
      · cases hname
    · rintro superclass heq
      rw [hsuper, Option.some.inj heq]

/-- Maps of the same names to related values. -/
theorem rel_ofList {α β : Type} {P : α → β → Prop} {l : List (String × α)} {l' : List (String × β)}
    (h : List.Forall₂ (fun a b => a.1 = b.1 ∧ P a.2 b.2) l l') (name : String) :
    Option.Rel P ((NameMap.ofList l).get? name) ((NameMap.ofList l').get? name) := by
  unfold NameMap.ofList
  have hempty : ∀ name, Option.Rel P ((NameMap.empty : NameMap α).get? name)
      ((NameMap.empty : NameMap β).get? name) := fun _ => .none
  generalize (NameMap.empty : NameMap α) = m, (NameMap.empty : NameMap β) = m' at hempty
  induction h generalizing m m' with
  | nil => exact hempty name
  | cons hentry _ ih =>
    refine ih _ _ fun other => ?_
    rw [NameMap.get?_set, NameMap.get?_set, hentry.1]
    split
    · exact .some hentry.2
    · exact hempty other

theorem methodClosures {methods methods' : List Routine} {around : Place} {frame : FrameId}
    (hmethods : MethodsTwin (S.edit around.origin) (p.linked S around.origin)
      (around.site.enter (.single "this")) (false :: marks) methods methods')
    (htext : around.text ≤ p.text)
    (hmirrors : Mirrors p.left.store p.marked around.site.scopes marks around.frames frame)
    {m : Machine} (hbefore : m.store.Extends p.left.store)
    (howned : ∀ method ∈ methods, Happens R around (.own (methodClosure frame method) m)) :
    List.Forall₂ (fun a b => a.1 = b.1 ∧ Closure.MethodTwin R S p a.2 b.2)
      (methods.map fun method => (method.name.lexeme, methodClosure frame method))
      (methods'.map fun method => (method.name.lexeme, methodClosure (S.frame frame) method)) := by
  generalize hsite : around.site.enter (.single "this") = inner at hmethods
  generalize hmarks : false :: marks = inMarks at hmethods
  induction methods generalizing methods' with
  | nil =>
    cases hmethods
    exact .nil
  | cons method rest ih =>
    subst hsite hmarks
    cases hmethods with
    | @cons _ _ _ method' _ rest' hmethod hrest =>
      have hname : method'.name.lexeme = method.name.lexeme := by
        rw [hmethod.name_eq, Token.lexeme_down]
      refine .cons ⟨hname.symm, rfl, ?_, ?_⟩
        (ih (fun other hother => howned other (.tail _ hother)) hrest)
      · show decide _ = decide _
        rw [hname]
      · exact ⟨around, marks, m, howned method (.head _), htext, hbefore, hmirrors, hmethod⟩

theorem assignNearest {name name' : Token} {v v' : Value}
    (hat : p.At R S place marks) (hname : DeclaresTwins (S.edit place.origin) marks name name')
    (hbound : (p.left.store.local? p.left.current name.lexeme).isSome)
    (hv : Value.Twin R S p v v') :
    Runs R S p (assignNearest name v) (Eval.assignNearest name' v') fun _ _ _ => True := by
  have hp := hat.sound
  have hlt := hat.current_lt
  have hspells : S.Spells (p.marked p.left.current) name.lexeme name'.lexeme :=
    hat.marked_current ▸ hname.spells
  obtain ⟨w, hw⟩ := Option.isSome_iff_exists.1 hbound
  obtain ⟨w', hw', -⟩ := hp.exists_local? hname.used hspells hw
  have hbound' : (p.right.store.local? (S.frame p.left.current) name'.lexeme).isSome := by
    rw [hw']
    rfl
  refine .get_bind ?_
  rw [hp.current_eq]
  simp only [Store.target, p.left.store.holder?_self hlt hbound,
    p.right.store.holder?_self (hp.frame_lt hlt) hbound', orFail, pure_bind]
  exact (defineIn hp (absurd · hname.not_isReserved) rfl hlt hspells hv).mono
    fun _ _ _ _ _ => trivial

theorem declareClass {name : Token} {superclass superclass' : Option Use}
    {methods methods' : List Routine} {fuel : Nat} (hat : p.At R S place marks)
    (hname : DeclaresTwins (S.edit place.origin) marks name (name.down (S.lines place.origin)))
    (hsuperclass : SuperclassTwin (p.linked S place.origin) (place.site.introduce name).2 marks name
      superclass superclass')
    (hmethods : MethodsTwin (S.edit place.origin) (p.linked S place.origin)
      ((place.site.introduce name).2.enterClass superclass) (false :: classMarks superclass marks)
      methods methods')
    (hh : Happens R place (.execute (fuel + 1) (.class name superclass methods) p.left)) :
    Runs R S p (declareClass name superclass methods)
      (Eval.declareClass (name.down (S.lines place.origin)) superclass' methods')
      fun p' _ _ => (p'.left.store.local? p.left.current name.lexeme).isSome := by
  rw [declareClass_eq, declareClass_eq]
  refine (superclassClassOf hat hsuperclass hh).bind ?_
  rintro p₁ c c' hk₁ hc ⟨hctwin, hsome⟩
  refine (define (hat.kept hk₁) hname .nil).bind ?_
  rintro p₂ _ _ hk₂ hdefine hbound
  have hk := hk₁.trans hk₂
  have hat₂ : p₂.At R S (place.introduce name) marks :=
    ⟨hk.sound, (hat.kept hk).text_eq, (hat.kept hk).mirrors.introduce (by rwa [hk₂.current_eq])⟩
  have hctwin₂ : Option.Rel (Class.Twin R S p₂) c c' :=
    optionRel_imp (fun _ _ => Class.Twin.mono hk₂.extends_) hctwin
  refine (methodFrame hat₂ hctwin₂ hsome).bind ?_
  rintro p₃ frame _ hk₃ hframe ⟨rfl, hmirrors, -⟩
  refine (freshStamp hk₃.sound).bind ?_
  rintro p₄ stamp _ hk₄ - rfl
  have hk₃₄ := hk₃.trans hk₄
  have hbound₂ : (p₂.left.store.local? p₂.left.current name.lexeme).isSome := by
    rwa [hk₂.current_eq]
  have hbound₄ : (p₄.left.store.local? p₂.left.current name.lexeme).isSome :=
    hk₃₄.extends_.store.isSome_local? _ _ hbound₂
  let around := (place.introduce name).aroundMethods superclass c frame
  have haround : MethodsTwin (S.edit around.origin) (p₄.linked S around.origin)
      (around.site.enter (.single "this")) (false :: classMarks superclass marks) methods
      methods' := by
    rw [(hk.trans hk₃₄).linked_eq]
    rw [Site.enterClass_eq] at hmethods
    exact hmethods
  have hclosures := methodClosures haround (hat₂.text_eq.trans hk₃₄.text_eq.symm).le
    (hmirrors.mono hk₄.extends_.store hk₄.extends_.marked_eq) hk₄.extends_.store
    fun method hmethod => hh.own hc hdefine hframe hmethod
  have hclass : Class.Twin R S p₄
      (.extend ⟨stamp, name.lexeme, .ofList (methods.map fun method =>
        (method.name.lexeme, methodClosure frame method))⟩ c)
      (.extend ⟨stamp + S.stamps, name.lexeme, .ofList (methods'.map fun method =>
        (method.name.lexeme, methodClosure (S.frame frame) method))⟩ c') := by
    refine ⟨⟨rfl, rfl, rel_ofList hclosures⟩, ?_⟩
    have hctwin₄ := optionRel_imp (fun _ _ => Class.Twin.mono hk₃₄.extends_) hctwin₂
    cases hctwin₄ with
    | none => exact .nil
    | some hsuper => exact .cons hsuper.own hsuper.inherited
  refine (assignNearest (hat₂.kept hk₃₄) hname (by rwa [hk₃₄.current_eq]) (.class hclass)).mono ?_
  rintro p₅ _ _ hk₅ -
  rw [hk.current_eq] at hbound₄
  exact hk₅.extends_.store.isSome_local? _ _ hbound₄

end Runs

end Treewalk
