import Treewalk.Proofs.Evaluation.Declarations

/-!
# Receivers and superclasses

Inside a method, `this` belongs to the frame that was made when the method was bound to its
receiver, and inside a subclass `super` belongs to the frame that was made when the class was
declared. No other frame in between binds these names, as no program can declare them.

## Main definitions

* `Place.Grounded` — what the frames around a place bind `this` and `super` to

## Main results

* `Place.Grounded.behind`, `Place.Grounded.body` — places in the same method
* `Place.Grounded.aroundMethods`, `Place.Grounded.inMethod` — places inside a class and a method
-/

namespace Treewalk

variable {place place' : Place} {s s' : Store}

/-- The frame of the scope that `this` belongs to binds the receiver, and in a subclass that of the
scope that `super` belongs to binds the superclass. -/
structure Place.Grounded (place : Place) (s : Store) : Prop where
  receiver : ∀ depth, place.site.depth? "this" = some depth → ∃ frame receiver,
    place.frames[depth]? = some frame ∧ place.receiver = some receiver ∧
      s.local? frame "this" = some (.instance receiver)
  superclass : place.site.classContext = .subclass → ∀ depth,
    place.site.depth? "super" = some depth → ∃ frame c, place.frames[depth]? = some frame ∧
      place.superclass = some c ∧ s.local? frame "super" = some (.class c)

/-! ### Scopes around a place -/

namespace Site

variable {site site' : Site}

/-- The reserved names belong to the same scopes. -/
structure SameReserved (site site' : Site) : Prop where
  depth?_eq : ∀ name, IsReserved name → site'.depth? name = site.depth? name
  classContext_eq : site'.classContext = site.classContext

theorem SameReserved.refl (site : Site) : site.SameReserved site := ⟨fun _ _ => rfl, rfl⟩

theorem SameReserved.trans {site'' : Site} (h : site.SameReserved site')
    (h' : site'.SameReserved site'') : site.SameReserved site'' :=
  ⟨fun name hname => (h'.depth?_eq name hname).trans (h.depth?_eq name hname),
    h'.classContext_eq.trans h.classContext_eq⟩

theorem classContext_introduce (site : Site) (name : Token) :
    (site.introduce name).2.classContext = site.classContext := by
  obtain ⟨scopes, routine, classContext⟩ := site
  cases scopes with
  | nil => rfl
  | cons scope outer =>
    obtain ⟨scope', hscope', -, -⟩ := introduce_cons scope outer routine classContext name
    rw [hscope']

theorem sameReserved_introduce (site : Site) {name : Token} (h : ¬IsReserved name.lexeme) :
    site.SameReserved (site.introduce name).2 :=
  ⟨fun _ hother => site.depth?_introduce name fun heq => h (heq ▸ hother),
    site.classContext_introduce name⟩

theorem sameReserved_declare (site : Site) {name : Token} (h : ¬IsReserved name.lexeme) :
    site.SameReserved (site.declare name).2 := by
  obtain ⟨scopes, routine, classContext⟩ := site
  cases scopes with
  | nil => exact .refl _
  | cons scope outer =>
    unfold Site.declare
    dsimp only
    split
    · exact .refl _
    · refine ⟨fun other hother => ?_, rfl⟩
      have hne : other ≠ name.lexeme := fun heq => h (heq ▸ hother)
      rw [depth?, depth?, List.findIdx?_cons, List.findIdx?_cons, NameMap.contains,
        NameMap.contains, NameMap.get?_set_of_ne _ hne]

theorem sameReserved_introduceAll (site : Site) {r : Edit} {marks : List Bool}
    {names names' : List Token} (h : List.Forall₂ (DeclaresTwins r marks) names names') :
    site.SameReserved (site.introduceAll names).2 := by
  induction h generalizing site with
  | nil => exact .refl _
  | cons hname _ ih => exact (site.sameReserved_introduce hname.not_isReserved).trans (ih _)

/-- In a new scope that does not hold a name, the scope of the name is one further out. -/
theorem depth?_enter (site : Site) {scope : Scope} {name : String} (h : scope.get? name = none) :
    (site.enter scope).depth? name = (site.depth? name).map (· + 1) := by
  have hcontains : scope.contains name = false := by rw [NameMap.contains, h]; rfl
  rw [depth?, enter, List.findIdx?_cons, hcontains]
  rfl

theorem depth?_enter_single (site : Site) (name : String) :
    (site.enter (.single name)).depth? name = some 0 := by
  have hcontains : (Scope.single name).contains name = true := by
    rw [NameMap.contains, Scope.get?_single, if_pos rfl]
    rfl
  rw [depth?, enter, List.findIdx?_cons, hcontains]
  rfl

end Site

/-- Behind a statement the reserved names belong to the same scopes as before it. -/
theorem Stmt.Twin.sameReserved {r : Edit} {U : UseRelation} {site : Site} {marks : List Bool}
    {s s' : Stmt} (h : Stmt.Twin r U site marks s s') : site.SameReserved (s.analyse site).2 := by
  have hsame {site' : Site} (heq : site' = site) : site.SameReserved site' := heq ▸ .refl site
  cases h with
  | expression | print | block | «return» | returnValue => exact .refl _
  | declaration hname | definition hname =>
    exact site.sameReserved_introduce hname.not_isReserved
  | ifThen _ _ hb => exact hsame hb
  | ifElse _ _ hb _ ho =>
    refine hsame ?_
    simp only [Stmt.analyse, hb, ho]
  | «while» _ _ hb => exact hsame hb
  | function hname | «class» hname => exact site.sameReserved_introduce hname.not_isReserved

/-! ### Grounded places -/

namespace Place.Grounded

theorem top (text : Nat) : (Place.top text).Grounded s :=
  ⟨nofun, nofun⟩

theorem mono (h : place.Grounded s) (hs : s.Extends s') : place.Grounded s' := by
  refine ⟨fun depth hdepth => ?_, fun hsub depth hdepth => ?_⟩
  · obtain ⟨frame, receiver, hframe, hreceiver, hthis⟩ := h.receiver depth hdepth
    refine ⟨frame, receiver, hframe, hreceiver, ?_⟩
    rw [hs.reserved_eq frame "this" (.inl rfl) (by rw [hthis]; rfl), hthis]
  · obtain ⟨frame, c, hframe, hc, hsuper⟩ := h.superclass hsub depth hdepth
    refine ⟨frame, c, hframe, hc, ?_⟩
    rw [hs.reserved_eq frame "super" (.inr rfl) (by rw [hsuper]; rfl), hsuper]

theorem during (h : place.Grounded s) (text : Nat) : (place.during text).Grounded s := ⟨h.1, h.2⟩

theorem withSite (h : place.Grounded s) {site : Site} (hsite : place.site.SameReserved site) :
    Grounded { place with site } s :=
  ⟨fun depth hdepth => h.receiver depth ((hsite.depth?_eq _ (.inl rfl)).symm.trans hdepth),
    fun hsub depth hdepth => h.superclass (hsite.classContext_eq.symm.trans hsub) depth
      ((hsite.depth?_eq _ (.inr rfl)).symm.trans hdepth)⟩

/-- A new scope holds no reserved name. -/
theorem enter (h : place.Grounded s) (frame : FrameId) :
    (place.enter .empty frame).Grounded s := by
  refine ⟨fun depth hdepth => ?_, fun hsub depth hdepth => ?_⟩
  · obtain ⟨outer, houter, rfl⟩ :=
      Option.map_eq_some_iff.1 ((Site.depth?_enter _ rfl).symm.trans hdepth)
    exact h.receiver outer houter
  · obtain ⟨outer, houter, rfl⟩ :=
      Option.map_eq_some_iff.1 ((Site.depth?_enter _ rfl).symm.trans hdepth)
    exact h.superclass hsub outer houter

theorem behind (h : place.Grounded s) {r : Edit} {U : UseRelation} {marks : List Bool}
    {stmt stmt' : Stmt} (htwin : Stmt.Twin r U place.site marks stmt stmt') :
    (place.behind stmt).Grounded s :=
  h.withSite htwin.sameReserved

theorem introduce (h : place.Grounded s) {name : Token} (hname : ¬IsReserved name.lexeme) :
    (place.introduce name).Grounded s :=
  h.withSite (place.site.sameReserved_introduce hname)

theorem body (h : place.Grounded s) (context : RoutineContext) {r : Edit} {marks : List Bool}
    {parameters parameters' : List Token}
    (hparameters : List.Forall₂ (DeclaresTwins r marks) parameters parameters') (frame : FrameId) :
    (place.body context parameters frame).Grounded s := by
  have hroutine : Grounded { place with site := { place.site with routine := context } } s :=
    h.withSite ⟨fun _ _ => rfl, rfl⟩
  exact (hroutine.enter frame).withSite (Site.sameReserved_introduceAll _ hparameters)

/-- The frame that binds the receiver is that of the scope of `this`. -/
theorem inMethod (h : place.Grounded s) (method : Closure) {receiver : Instance} {frame : FrameId}
    (hthis : s.local? frame "this" = some (.instance receiver)) :
    (place.inMethod method receiver frame).Grounded s := by
  refine ⟨fun depth hdepth => ?_, fun hsub depth hdepth => ?_⟩
  · obtain rfl : 0 = depth := Option.some.inj ((Site.depth?_enter_single _ _).symm.trans hdepth)
    exact ⟨frame, receiver, rfl, rfl, hthis⟩
  · obtain ⟨outer, houter, rfl⟩ :=
      Option.map_eq_some_iff.1 ((Site.depth?_enter _ rfl).symm.trans hdepth)
    exact h.superclass hsub outer houter

/-- The frame around the methods of a subclass is that of the scope of `super`. -/
theorem aroundMethods (h : place.Grounded s) {superclass : Option Use} {c : Option Class}
    {frame : FrameId} (hsome : c.isSome = superclass.isSome)
    (hsuper : ∀ superclass, c = some superclass →
      s.local? frame "super" = some (.class superclass)) :
    (place.aroundMethods superclass c frame).Grounded s := by
  cases superclass with
  | none => exact ⟨h.receiver, fun hsub => by cases hsub⟩
  | some use =>
    obtain ⟨superclass, rfl⟩ := Option.isSome_iff_exists.1 hsome
    refine ⟨fun depth hdepth => ?_, fun _ depth hdepth => ?_⟩
    · obtain ⟨outer, houter, rfl⟩ :=
        Option.map_eq_some_iff.1 ((Site.depth?_enter _ rfl).symm.trans hdepth)
      exact h.receiver outer houter
    · obtain rfl : 0 = depth := Option.some.inj ((Site.depth?_enter_single _ _).symm.trans hdepth)
      exact ⟨frame, superclass, rfl, rfl, hsuper superclass rfl⟩

end Place.Grounded

end Treewalk
