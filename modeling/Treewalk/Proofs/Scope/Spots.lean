import Mathlib.Data.List.Forall2
import Treewalk.Proofs.Scope.Linked
import Treewalk.Proofs.Scope.Rules
import Treewalk.Proofs.Scope.Sites

/-!
# The places of the walk

Scope analysis keeps its scopes on a stack while it walks a program. At every spot of the program
the scopes on the stack have the names that the scope rules give them there, and the walk knows what
kinds of function and class it is in. Here it is shown that this stays so from one landmark to the
next, when the walk enters a scope and when it comes back from one.

## Main definitions

* `Sees` — what the walk knows at a place is what the rules say of a spot

## Main results

* `Sees.introduce`, `Sees.declare` — a declaration
* `Sees.enter`, `Sees.leave` — a scope
* `Sees.depth?_eq_some` — the depth of a name is that of the nearest scope with the name
-/

namespace Treewalk

/-! ### The places of the walk -/

/-- A scope of the walk has the names that the rules give it. -/
def Knows (before : List Entry) (enclosure : Enclosure) (scope : Scope) : Prop :=
  ∀ name, scope.contains name = true ↔ Declares before enclosure name

/-- The walk knows which kinds of function and class it is in. -/
structure Contexts (spot : Spot) (site : Site) : Prop where
  outsideFunction : site.routine = .none ↔ OutsideFunction spot
  inInitializer : site.routine = .initializer ↔ InInitializer spot
  outsideClass : site.classContext = .none ↔ OutsideClass spot
  inPlainClass : site.classContext = .plain ↔ InPlainClass spot

/-- What the walk knows at a place is what the rules say of the spot. -/
structure Sees (spot : Spot) (site : Site) : Prop extends Contexts spot site where
  scopes : List.Forall₂ (Knows spot.before) (scopesOf spot.around) site.scopes
  isBeingInitialized : ∀ name, site.isBeingInitialized name = true ↔ InOwnInitializer spot name
  ordered : spot.Ordered

section Sees

variable {spot spot' inner : Spot} {site site' : Site} {landmark : Landmark}

theorem Contexts.of_around_eq (h : Contexts spot site) (haround : spot'.around = spot.around) :
    Contexts spot' site := by
  obtain ⟨hfunction, hinitializer, hclass, hplain⟩ := h
  unfold OutsideFunction at hfunction
  unfold InInitializer at hinitializer
  unfold OutsideClass at hclass
  unfold InPlainClass at hplain
  rw [← haround] at hfunction hinitializer hclass hplain
  exact ⟨hfunction, hinitializer, hclass, hplain⟩

theorem sees_top : Sees .top .top where
  outsideFunction := by simp [Site.top, Spot.top, OutsideFunction]
  inInitializer := by simp [Site.top, Spot.top, InInitializer]
  outsideClass := by simp [Site.top, Spot.top, OutsideClass]
  inPlainClass := by simp [Site.top, Spot.top, InPlainClass]
  scopes := .nil
  isBeingInitialized name := by
    simp [Site.top, Site.isBeingInitialized, not_inOwnInitializer Spot.plain_top]
  ordered := Spot.ordered_top

/-- The walk sees at a later spot what it saw before, if no scope has got a name in between. -/
theorem Sees.congr (h : Sees spot site) (haround : spot'.around = spot.around)
    (hbefore : spot.before <+: spot'.before) (hordered : spot'.Ordered)
    (hdeclares : ∀ enclosure ∈ scopesOf spot.around, ∀ name,
      Declares spot'.before enclosure name ↔ Declares spot.before enclosure name) :
    Sees spot' site := by
  refine ⟨h.toContexts.of_around_eq haround, ?_, fun name => ?_, hordered⟩
  · rw [haround]
    refine ((List.forall₂_and_left _ _).2 ⟨hdeclares, h.scopes⟩).imp ?_
    rintro enclosure scope ⟨hiff, hknows⟩ name
    exact (hknows name).trans (hiff name).symm
  · exact (h.isBeingInitialized name).trans
      (inOwnInitializer_congr haround hbefore h.ordered).symm

theorem Sees.add (h : Sees spot site) (hlandmark : landmark.declared? = none) :
    Sees (spot.add landmark) site :=
  h.congr rfl (List.prefix_append _ _) (h.ordered.add landmark)
    fun _ _ _ => declares_add_of_declared?_eq_none hlandmark

/-- Behind a scope the walk sees what it saw at its beginning. -/
theorem Sees.leave (h : Sees (spot.add landmark) site) (hspot : spot.Ordered)
    (hopens : landmark.opensScope = true) (hgrows : Grows (spot.enter landmark) inner)
    (hinner : inner.Ordered) : Sees (spot.leave inner) site := by
  refine h.congr rfl ?_ (hinner.leave hgrows) fun enclosure hmem name => ?_
  · obtain ⟨new, hnew, -⟩ := hgrows.exists_new
    exact ⟨new, hnew.symm⟩
  · exact hgrows.declares_iff hopens (hspot.around_lt _ (mem_of_mem_scopesOf hmem))

/-- At the beginning of a scope the walk sees the name that the scope has from the start. -/
theorem Sees.enter (h : Sees (spot.add landmark) site) (hspot : spot.Ordered)
    (hplain : spot.Plain) (hopens : landmark.opensScope = true) {scope : Scope}
    (hscopes : site'.scopes = scope :: site.scopes)
    (hnames : ∀ name, scope.contains name = true ↔ landmark.implicit? = some name)
    (hdefined : ∀ name, scope.get? name ≠ some false)
    (hcontexts : Contexts (spot.enter landmark) site') : Sees (spot.enter landmark) site' := by
  have hvar : landmark.isVar = false := by cases landmark <;> first | rfl | cases hopens
  refine ⟨hcontexts, ?_, fun name => ?_, hspot.enter landmark⟩
  · rw [hscopes, Spot.enter, scopesOf_cons_of_opensScope hopens]
    exact .cons (fun name => (hnames name).trans (declares_enter hspot landmark name).symm) h.scopes
  · have hnone : site'.isBeingInitialized name = false := by
      simp [Site.isBeingInitialized, hscopes, hdefined name]
    simp [hnone, not_inOwnInitializer (hplain.enter hvar)]

end Sees

/-! ### Contexts -/

section Contexts

variable {spot : Spot} {site site' : Site} {landmark : Landmark}

theorem Contexts.enter (h : Contexts spot site) (hroutine : landmark.isRoutine = false)
    (hclass : landmark.isClassBody = false) (hroutine' : site'.routine = site.routine)
    (hclass' : site'.classContext = site.classContext) :
    Contexts (spot.enter landmark) site' where
  outsideFunction := by simp [hroutine', h.outsideFunction, outsideFunction_enter, hroutine]
  inInitializer := by rw [hroutine', h.inInitializer, inInitializer_enter hroutine]
  outsideClass := by simp [hclass', h.outsideClass, outsideClass_enter, hclass]
  inPlainClass := by rw [hclass', h.inPlainClass, inPlainClass_enter hclass]

theorem Contexts.enter_function (h : Contexts spot site) (name : Token)
    (hroutine : site'.routine = .function) (hclass : site'.classContext = site.classContext) :
    Contexts (spot.enter (.function name)) site' where
  outsideFunction := by simp [hroutine, outsideFunction_enter, Landmark.isRoutine]
  inInitializer := by
    rw [inInitializer_enter_of_isRoutine rfl]
    simp [hroutine]
  outsideClass := by simp [hclass, h.outsideClass, outsideClass_enter, Landmark.isClassBody]
  inPlainClass := by rw [hclass, h.inPlainClass, inPlainClass_enter rfl]

theorem Contexts.enter_method (h : Contexts spot site) (name : Token)
    (hroutine : site'.routine = methodContext name)
    (hclass : site'.classContext = site.classContext) :
    Contexts (spot.enter (.method name)) site' where
  outsideFunction := by
    rw [hroutine, outsideFunction_enter]
    by_cases h : name.lexeme = "init" <;> simp [methodContext, h, Landmark.isRoutine]
  inInitializer := by
    rw [hroutine, inInitializer_enter_of_isRoutine rfl]
    by_cases h : name.lexeme = "init" <;> simp [methodContext, h]
  outsideClass := by simp [hclass, h.outsideClass, outsideClass_enter, Landmark.isClassBody]
  inPlainClass := by rw [hclass, h.inPlainClass, inPlainClass_enter rfl]

theorem Contexts.enter_classBody (h : Contexts spot site) (superclass : Option Use)
    (hroutine : site'.routine = site.routine)
    (hclass : site'.classContext = if superclass.isNone then .plain else .subclass) :
    Contexts (spot.enter (.classBody superclass)) site' where
  outsideFunction := by
    simp [hroutine, h.outsideFunction, outsideFunction_enter, Landmark.isRoutine]
  inInitializer := by rw [hroutine, h.inInitializer, inInitializer_enter rfl]
  outsideClass := by
    rw [hclass, outsideClass_enter]
    cases superclass <;> simp [Landmark.isClassBody]
  inPlainClass := by
    rw [hclass, inPlainClass_enter_classBody]
    cases superclass <;> simp

end Contexts

/-! ### Declarations -/

namespace Site

/-- The second place has one more name in its innermost scope, if there is a scope. -/
inductive Gains (name : String) : Site → Site → Prop
  | top {routine : RoutineContext} {classContext : ClassContext} :
      Gains name ⟨[], routine, classContext⟩ ⟨[], routine, classContext⟩
  | inner {scope scope' : Scope} {outer : List Scope} {routine : RoutineContext}
      {classContext : ClassContext}
      (h : ∀ other, scope'.contains other = true ↔ scope.contains other = true ∨ name = other) :
      Gains name ⟨scope :: outer, routine, classContext⟩ ⟨scope' :: outer, routine, classContext⟩

/-- Declaring a name leaves it as it is if it is there already, and changes no other. -/
theorem declare_cons (scope : Scope) (outer : List Scope) (routine : RoutineContext)
    (classContext : ClassContext) (name : Token) :
    ∃ scope' : Scope, (declare ⟨scope :: outer, routine, classContext⟩ name).2 =
        ⟨scope' :: outer, routine, classContext⟩ ∧
      scope'.get? name.lexeme = some ((scope.get? name.lexeme).getD false) ∧
      ∀ other, other ≠ name.lexeme → scope'.get? other = scope.get? other := by
  by_cases h : scope.contains name.lexeme
  · obtain ⟨defined, hdefined⟩ := Option.isSome_iff_exists.1 h
    exact ⟨scope, by simp [declare, h], by simp [hdefined], fun _ _ => rfl⟩
  · have hnone : scope.get? name.lexeme = none := by simpa [NameMap.contains] using h
    exact ⟨scope.set name.lexeme false, by simp [declare, h], by simp [hnone],
      fun other hne => NameMap.get?_set_of_ne _ hne _⟩

theorem gains_of_get?_eq {name : String} {scope scope' : Scope} {outer : List Scope}
    {routine : RoutineContext} {classContext : ClassContext} {defined : Bool}
    (hname : scope'.get? name = some defined)
    (hother : ∀ other, other ≠ name → scope'.get? other = scope.get? other) :
    Gains name ⟨scope :: outer, routine, classContext⟩
      ⟨scope' :: outer, routine, classContext⟩ := by
  refine .inner fun other => ?_
  by_cases h : other = name
  · simp [NameMap.contains, h, hname]
  · simp [NameMap.contains, hother other h, Ne.symm h]

theorem gains_declare (site : Site) (name : Token) :
    Gains name.lexeme site (site.declare name).2 := by
  obtain ⟨_ | ⟨scope, outer⟩, routine, classContext⟩ := site
  · exact .top
  obtain ⟨scope', hsite, hname, hother⟩ := declare_cons scope outer routine classContext name
  exact hsite ▸ gains_of_get?_eq hname hother

theorem gains_introduce (site : Site) (name : Token) :
    Gains name.lexeme site (site.introduce name).2 := by
  obtain ⟨_ | ⟨scope, outer⟩, routine, classContext⟩ := site
  · exact .top
  obtain ⟨scope', hsite, hname, hother⟩ := introduce_cons scope outer routine classContext name
  exact hsite ▸ gains_of_get?_eq hname hother

variable {site : Site}

/-- A name that is introduced is defined at once. -/
theorem isBeingInitialized_introduce (h : ∀ other, site.isBeingInitialized other = false)
    (name : Token) (other : String) :
    (site.introduce name).2.isBeingInitialized other = false := by
  obtain ⟨_ | ⟨scope, outer⟩, routine, classContext⟩ := site
  · exact h other
  obtain ⟨scope', hsite, hname, hother⟩ := introduce_cons scope outer routine classContext name
  rw [hsite]
  by_cases heq : other = name.lexeme
  · simp [isBeingInitialized, heq, hname]
  · have hnone := h other
    simpa [isBeingInitialized, hother other heq] using hnone

/-- A name that is declared is not yet defined if it is new in the innermost scope. -/
theorem isBeingInitialized_declare (h : ∀ other, site.isBeingInitialized other = false)
    (name : Token) (other : String) : (site.declare name).2.isBeingInitialized other = true ↔
      name.lexeme = other ∧
        ∃ scope, site.scopes.head? = some scope ∧ ¬scope.contains other = true := by
  obtain ⟨_ | ⟨scope, outer⟩, routine, classContext⟩ := site
  · simp [declare, isBeingInitialized]
  obtain ⟨scope', hsite, hname, hother⟩ := declare_cons scope outer routine classContext name
  have hnone : scope.get? other ≠ some false := by simpa [isBeingInitialized] using h other
  rw [hsite]
  by_cases heq : other = name.lexeme
  · subst heq
    cases hget : scope.get? name.lexeme with
    | none => simp [isBeingInitialized, NameMap.contains, hname, hget]
    | some defined =>
      have hdefined : defined = true := by simpa [hget] using hnone
      simp [isBeingInitialized, NameMap.contains, hname, hget, hdefined]
  · simp [isBeingInitialized, hother other heq, hnone, Ne.symm heq]

end Site

section Declarations

variable {spot : Spot} {site site' : Site} {landmark : Landmark} {token : Token}

theorem Contexts.gains (h : Contexts spot site) {name : String}
    (hsite : Site.Gains name site site') : Contexts spot site' := by
  obtain ⟨hfunction, hinitializer, hclass, hplain⟩ := h
  cases hsite <;> exact ⟨hfunction, hinitializer, hclass, hplain⟩

/-- Behind a declaration the stack has the names that the rules give to its scopes. -/
theorem knows_add_of_declared? (hspot : spot.Ordered) (htoken : landmark.declared? = some token)
    (h : List.Forall₂ (Knows spot.before) (scopesOf spot.around) site.scopes)
    (hsite : Site.Gains token.lexeme site site') :
    List.Forall₂ (Knows (spot.add landmark).before) (scopesOf spot.around) site'.scopes := by
  have hsorted : (scopesOf spot.around).Pairwise fun x y => y.position < x.position :=
    hspot.around_sorted.filter _
  have hdeclares (enclosure : Enclosure) (name : String) :
      Declares (spot.add landmark).before enclosure name ↔ Declares spot.before enclosure name ∨
        (scopesOf spot.around).head? = some enclosure ∧ token.lexeme = name :=
    declares_add_of_declared? htoken
  generalize scopesOf spot.around = enclosures at h hsorted hdeclares ⊢
  cases hsite with
  | top =>
    cases h
    exact .nil
  | inner hscope =>
    cases h with
    | @cons enclosure _ outer _ hknows hrest =>
    refine .cons (fun name => ?_) ?_
    · rw [hscope, hdeclares, hknows name]
      simp
    · -- the outer scopes are others than the innermost one
      refine ((List.forall₂_and_left _ _).2 ⟨(List.pairwise_cons.1 hsorted).1, hrest⟩).imp ?_
      rintro enclosure' scope ⟨hlt, hknows'⟩ name
      have hne : enclosure ≠ enclosure' := fun heq => absurd hlt (heq ▸ Nat.lt_irrefl _)
      rw [hdeclares, hknows' name]
      simp [hne]

theorem Sees.eq_false_of_plain (h : Sees spot site) (hplain : spot.Plain) (name : String) :
    site.isBeingInitialized name = false := by
  rw [← Bool.not_eq_true, h.isBeingInitialized]
  exact not_inOwnInitializer hplain

theorem Sees.introduce (h : Sees spot site) (hplain : spot.Plain)
    (htoken : landmark.declared? = some token) :
    Sees (spot.add landmark) (site.introduce token).2 := by
  have hgains := site.gains_introduce token
  refine ⟨(h.toContexts.gains hgains).of_around_eq rfl,
    knows_add_of_declared? h.ordered htoken h.scopes hgains, fun name => ?_, h.ordered.add landmark⟩
  have hplain' : (spot.add landmark).Plain := hplain
  rw [Site.isBeingInitialized_introduce (h.eq_false_of_plain hplain)]
  simp [not_inOwnInitializer hplain']

/-- In the initializer of a variable the walk sees its name, declared and not yet defined. -/
theorem Sees.declare (h : Sees spot site) (hplain : spot.Plain) (token : Token) :
    Sees (spot.enter (.var token)) (site.declare token).2 := by
  have hgains := site.gains_declare token
  refine ⟨?_, knows_add_of_declared? h.ordered rfl h.scopes hgains, fun name => ?_,
    h.ordered.enter _⟩
  · exact (h.toContexts.gains hgains).enter rfl rfl rfl rfl
  rw [Site.isBeingInitialized_declare (h.eq_false_of_plain hplain),
    inOwnInitializer_enter_var hplain]
  refine and_congr_right fun _ => ?_
  have hscopes := h.scopes
  generalize scopesOf spot.around = enclosures, site.scopes = scopes at hscopes ⊢
  cases hscopes with
  | nil => simp
  | cons hknows _ => simpa using not_congr (hknows name)

end Declarations

/-! ### Depths -/

/-- Among scopes with the names that the rules give them, a name is found in the nearest one that
declares it. -/
theorem findIdx?_eq_some_of_knows {before : List Entry} {enclosures : List Enclosure}
    {scopes : List Scope} (h : List.Forall₂ (Knows before) enclosures scopes) (name : String)
    (depth : Nat) : scopes.findIdx? (·.contains name) = some depth ↔
      (∃ scope, enclosures[depth]? = some scope ∧ Declares before scope name) ∧
        ∀ inner < depth, ∀ scope, enclosures[inner]? = some scope →
          ¬Declares before scope name := by
  induction h generalizing depth with
  | nil => simp
  | @cons enclosure scope enclosures scopes hknows _ ih =>
    rw [List.findIdx?_cons]
    by_cases hname : scope.contains name = true
    · have hdeclares := (hknows name).1 hname
      cases depth with
      | zero => simp [hname, hdeclares]
      | succ depth =>
        have hinner : ¬∀ inner < depth + 1, ∀ scope,
            (enclosure :: enclosures)[inner]? = some scope → ¬Declares before scope name :=
          fun h => h 0 (Nat.succ_pos _) enclosure rfl hdeclares
        simp only [hname, if_true, Option.some.injEq, hinner, and_false]
        simp
    · have hdeclares : ¬Declares before enclosure name := mt (hknows name).2 hname
      cases depth with
      | zero => simp [hname, hdeclares]
      | succ depth =>
        have hinner : (∀ inner < depth + 1, ∀ scope,
            (enclosure :: enclosures)[inner]? = some scope → ¬Declares before scope name) ↔
            ∀ inner < depth, ∀ scope, enclosures[inner]? = some scope →
              ¬Declares before scope name := by
          rw [Nat.forall_lt_succ_left]
          simp [hdeclares]
        rw [hinner, List.getElem?_cons_succ, ← ih]
        simp [hname]

theorem Sees.depth?_eq_some {spot : Spot} {site : Site} (h : Sees spot site) (name : String)
    (depth : Nat) : site.depth? name = some depth ↔ Nearest spot name depth := by
  rw [Site.depth?, findIdx?_eq_some_of_knows h.scopes]
  exact ⟨fun h => ⟨h.1, h.2⟩, fun h => ⟨h.1, h.2⟩⟩

end Treewalk
