import Treewalk.Proofs.Scope.Linked
import Treewalk.Proofs.Scope.Placed

/-!
# Places of twin programs

The scopes around a place in a program and around its counterpart in a twin program declare the same
names, spelled differently in the scopes in which names are replaced. Two spellings of one use
therefore have the same depth, and what is wrong with one program is wrong with the other.

## Main definitions

* `Paired` — two uses of one name
* `SitesTwin` — two places that are counterparts of each other

## Main results

* `SitesTwin.depth?_eq` — counterparts have the same depth
* `Stmt.TwinAll.scopeFaults_eq_nil` — a twin of a program without faults is without faults
-/

namespace Treewalk

/-- Neither spelling is a reserved name. -/
structure Respelling.Fair (r : Respelling) : Prop where
  old_ne_this : r.old ≠ "this"
  old_ne_super : r.old ≠ "super"
  new_ne_this : r.old ≠ r.new → r.new ≠ "this"
  new_ne_super : r.old ≠ r.new → r.new ≠ "super"

/-- Two uses of one name, spelled as it is spelled in its scope. The new spelling is not used in the
first program. -/
structure Paired (r : Edit) (kind : OccurrenceKind) (site : Site) (marks : List Bool)
    (use use' : Use) : Prop where
  kind_eq : use'.token.kind = use.token.kind
  line_eq : use'.token.line = use.token.line + r.lines
  spells : r.Spells (site.isRespelled marks use.name) use.name use'.name
  ne_new : r.old ≠ r.new → use.name ≠ r.new
  used : ¬r.unused use.name
  names : kind.Names use.name

/-! ### Scopes -/

/-- Two scopes of the same names, up to their spelling. -/
structure ScopeTwin (r : Edit) (mark : Bool) (scope scope' : Scope) : Prop where
  get?_eq : ∀ name name', r.Spells mark name name' → scope'.get? name' = scope.get? name
  new_eq : r.old ≠ r.new → scope.get? r.new = none
  old_eq : mark = true → r.old ≠ r.new ∧ scope'.get? r.old = none

namespace ScopeTwin

variable {r : Edit} {mark : Bool} {scope scope' : Scope}

theorem empty (hmark : mark = true → r.old ≠ r.new) : ScopeTwin r mark .empty .empty :=
  ⟨fun _ _ _ => rfl, fun _ => rfl, fun h => ⟨hmark h, rfl⟩⟩

theorem set (h : ScopeTwin r mark scope scope') {name name' : String}
    (hname : r.Spells mark name name') (hnew : r.old ≠ r.new → name ≠ r.new) (value : Bool) :
    ScopeTwin r mark (scope.set name value) (scope'.set name' value) where
  get?_eq other other' hother := by
    rw [NameMap.get?_set, NameMap.get?_set, h.get?_eq other other' hother]
    simp only [hother.inj hname]
  new_eq hne := by rw [NameMap.get?_set_of_ne _ (hnew hne).symm, h.new_eq hne]
  old_eq hmark := by
    obtain ⟨hne, hold⟩ := h.old_eq hmark
    have hne' : r.old ≠ name' := by
      rw [hname.1, hmark, Respelling.spell]
      split
      · exact hne
      · next hname => exact fun heq => hname ⟨rfl, heq.symm⟩
    exact ⟨hne, by rw [NameMap.get?_set_of_ne _ hne', hold]⟩

theorem single {name : String} (hnew : r.old ≠ r.new → name ≠ r.new) :
    ScopeTwin r false (.single name) (.single name) :=
  (ScopeTwin.empty (by simp)).set (r.spells_refl name) hnew true

/-- A name that may belong to this scope or to one further out, as it is spelled there. -/
theorem get?_eq_of_spells (h : ScopeTwin r mark scope scope') {b : Bool} {name name' : String}
    (hname : r.Spells b name name') (hb : scope.contains name → b = mark)
    (hnew : r.old ≠ r.new → name ≠ r.new) : scope'.get? name' = scope.get? name := by
  by_cases hscope : scope.contains name
  · exact h.get?_eq name name' (hb hscope ▸ hname)
  · have hnone : scope.get? name = none := by simpa [NameMap.contains] using hscope
    rw [hnone]
    -- the spelling of a scope further out is not a name of this one either
    by_cases hbmark : b = mark
    · exact (h.get?_eq name name' (hbmark ▸ hname)).trans hnone
    · cases mark with
      | true =>
        obtain rfl : b = false := by simpa using hbmark
        obtain rfl := hname.eq
        obtain ⟨hne, hold⟩ := h.old_eq rfl
        by_cases heq : name' = r.old
        · rw [heq, hold]
        · rw [h.get?_eq name' name' ⟨by simp [Respelling.spell, heq], fun _ => hnew hne⟩, hnone]
      | false =>
        obtain rfl : b = true := by simpa using hbmark
        rw [h.get?_eq name' name' (r.spells_refl name'), hname.1, Respelling.spell]
        split
        · next heq =>
          by_cases hne : r.old = r.new
          · rw [← hne, ← heq.2, hnone]
          · exact h.new_eq hne
        · exact hnone

end ScopeTwin

/-! ### Places -/

/-- The scopes around two places. -/
inductive ScopesTwin (r : Edit) : List Scope → List Bool → List Scope → Prop
  | nil : ScopesTwin r [] [] []
  | cons {scope scope' : Scope} {scopes scopes' : List Scope} {mark : Bool} {marks : List Bool}
      (h : ScopeTwin r mark scope scope') (hrest : ScopesTwin r scopes marks scopes') :
      ScopesTwin r (scope :: scopes) (mark :: marks) (scope' :: scopes')

/-- Two places that are counterparts of each other. -/
structure SitesTwin (r : Edit) (marks : List Bool) (site site' : Site) : Prop where
  scopes : ScopesTwin r site.scopes marks site'.scopes
  routine_eq : site'.routine = site.routine
  classContext_eq : site'.classContext = site.classContext

namespace SitesTwin

variable {r : Edit} {marks : List Bool} {site site' : Site} {name name' : Token}

theorem top : SitesTwin r [] .top .top := ⟨.nil, rfl, rfl⟩

theorem enter (h : SitesTwin r marks site site') {mark : Bool} {scope scope' : Scope}
    (hscope : ScopeTwin r mark scope scope') :
    SitesTwin r (mark :: marks) (site.enter scope) (site'.enter scope') :=
  ⟨.cons hscope h.scopes, h.routine_eq, h.classContext_eq⟩

/-- Counterparts have the same depth. -/
theorem depth?_eq (h : SitesTwin r marks site site') {name name' : String}
    (hname : r.Spells (site.isRespelled marks name) name name')
    (hnew : r.old ≠ r.new → name ≠ r.new) : site'.depth? name' = site.depth? name := by
  obtain ⟨scopes, routine, classContext⟩ := site
  obtain ⟨scopes', routine', classContext'⟩ := site'
  have hscopes : ScopesTwin r scopes marks scopes' := h.scopes
  clear h
  induction hscopes with
  | nil => rfl
  | @cons scope scope' scopes scopes' mark marks hscope hrest ih =>
    simp only [Site.isRespelled, Site.depth?, List.findIdx?_cons] at hname ih ⊢
    have hget := hscope.get?_eq_of_spells hname (fun hc => by simp [hc]) hnew
    have hcontains : scope'.contains name' = scope.contains name := by
      rw [NameMap.contains, NameMap.contains, hget]
    rw [hcontains]
    cases hc : scope.contains name with
    | true => rfl
    | false =>
      simp only [hc, Bool.false_eq_true, if_false] at hname ⊢
      rw [ih]
      · cases hfind : scopes.findIdx? (·.contains name) <;> simpa [hfind] using hname

theorem isBeingInitialized_eq (h : SitesTwin r marks site site') {name name' : String}
    (hname : r.Spells (site.isRespelled marks name) name name')
    (hnew : r.old ≠ r.new → name ≠ r.new) :
    site'.isBeingInitialized name' = site.isBeingInitialized name := by
  obtain ⟨scopes, routine, classContext⟩ := site
  obtain ⟨scopes', routine', classContext'⟩ := site'
  have hscopes : ScopesTwin r scopes marks scopes' := h.scopes
  cases hscopes with
  | nil => rfl
  | @cons scope scope' scopes scopes' mark marks hscope hrest =>
    have hb : scope.contains name → Site.isRespelled ⟨scope :: scopes, routine, classContext⟩
        (mark :: marks) name = mark := by
      intro hc
      simp [Site.isRespelled, Site.depth?, List.findIdx?_cons, hc]
    have hget := hscope.get?_eq_of_spells hname hb hnew
    simp only [Site.isBeingInitialized, hget]

theorem declare (h : SitesTwin r marks site site') (hname : DeclaresTwins r marks name name') :
    SitesTwin r marks (site.declare name).2 (site'.declare name').2 ∧
      (scopeFaults (site.declare name).1 = [] → scopeFaults (site'.declare name').1 = []) := by
  obtain ⟨scopes, routine, classContext⟩ := site
  obtain ⟨scopes', routine', classContext'⟩ := site'
  have hscopes : ScopesTwin r scopes marks scopes' := h.scopes
  cases hscopes with
  | nil => exact ⟨h, id⟩
  | @cons scope scope' scopes scopes' mark marks hscope hrest =>
    have hcontains : scope'.contains name'.lexeme = scope.contains name.lexeme := by
      rw [NameMap.contains, NameMap.contains, hscope.get?_eq _ _ hname.spells]
    unfold Site.declare
    simp only [hcontains]
    split
    · exact ⟨h, fun hfault => by simp at hfault⟩
    · exact ⟨⟨.cons (hscope.set hname.spells hname.ne_new false) hrest, h.routine_eq,
        h.classContext_eq⟩, fun _ => rfl⟩

theorem define (h : SitesTwin r marks site site') (hname : DeclaresTwins r marks name name') :
    SitesTwin r marks (site.define name) (site'.define name') := by
  obtain ⟨scopes, routine, classContext⟩ := site
  obtain ⟨scopes', routine', classContext'⟩ := site'
  have hscopes : ScopesTwin r scopes marks scopes' := h.scopes
  cases hscopes with
  | nil => exact h
  | cons hscope hrest =>
    exact ⟨.cons (hscope.set hname.spells hname.ne_new true) hrest, h.routine_eq,
      h.classContext_eq⟩

theorem introduce (h : SitesTwin r marks site site') (hname : DeclaresTwins r marks name name') :
    SitesTwin r marks (site.introduce name).2 (site'.introduce name').2 ∧
      (scopeFaults (site.introduce name).1 = [] → scopeFaults (site'.introduce name').1 = []) :=
  ⟨(h.declare hname).1.define hname, (h.declare hname).2⟩

theorem introduceAll {names names' : List Token} (h : SitesTwin r marks site site')
    (hnames : List.Forall₂ (DeclaresTwins r marks) names names') :
    SitesTwin r marks (site.introduceAll names).2 (site'.introduceAll names').2 ∧
      (scopeFaults (site.introduceAll names).1 = [] →
        scopeFaults (site'.introduceAll names').1 = []) := by
  induction hnames generalizing site site' with
  | nil => exact ⟨h, id⟩
  | cons hname _ ih =>
    obtain ⟨hsite, hfaults⟩ := h.introduce hname
    obtain ⟨hsite', hfaults'⟩ := ih hsite
    refine ⟨hsite', fun hnone => ?_⟩
    simp only [Site.introduceAll, scopeFaults_append_eq_nil] at hnone ⊢
    exact ⟨hfaults hnone.1, hfaults' hnone.2⟩

theorem inner (h : SitesTwin r marks site site') {mark : Bool}
    (hmark : mark = true → r.old ≠ r.new) (context : RoutineContext) :
    SitesTwin r (mark :: marks) ({ site with routine := context }.enter .empty)
      ({ site' with routine := context }.enter .empty) :=
  ⟨.cons (.empty hmark) h.scopes, rfl, h.classContext_eq⟩

theorem enterClass (h : SitesTwin r marks site site') (hr : r.Fair)
    {superclass superclass' : Option Use} (hsome : superclass'.isSome = superclass.isSome) :
    SitesTwin r (false :: classMarks superclass marks) (site.enterClass superclass)
      (site'.enterClass superclass') := by
  have hthis : ScopeTwin r false (.single "this") (.single "this") :=
    .single fun hne => (hr.new_ne_this hne).symm
  have hsuper : ScopeTwin r false (.single "super") (.single "super") :=
    .single fun hne => (hr.new_ne_super hne).symm
  cases superclass with
  | none =>
    obtain rfl : superclass' = none := by simpa using hsome
    exact ⟨.cons hthis h.scopes, h.routine_eq, rfl⟩
  | some use =>
    obtain ⟨use', rfl⟩ := Option.isSome_iff_exists.1 hsome
    exact ⟨.cons hthis (.cons hsuper h.scopes), h.routine_eq, rfl⟩

end SitesTwin

/-! ### Faults of twin programs -/

@[simp] theorem Site.scopeFaults_bind (site : Site) (use : Use) :
    scopeFaults (site.bind use) = [] := by
  unfold Site.bind
  split <;> rfl

theorem Use.scopeFaults_readFindings (site : Site) (use : Use) :
    scopeFaults (use.readFindings site) = [] ↔ site.isBeingInitialized use.name = false := by
  rw [readFindings, scopeFaults_append_eq_nil, Site.scopeFaults_bind]
  cases site.isBeingInitialized use.name <;> simp

theorem scopeFaults_superclassFindings (site : Site) (name : Token) (use : Use) :
    scopeFaults (superclassFindings site name use) = [] ↔
      use.name ≠ name.lexeme ∧ site.isBeingInitialized use.name = false := by
  rw [superclassFindings, scopeFaults_append_eq_nil, Use.scopeFaults_readFindings]
  by_cases h : use.name = name.lexeme <;> simp [h]

variable {r : Edit}

theorem Paired.scopeFaults_readFindings {site site' : Site} {marks : List Bool}
    {kind : OccurrenceKind} {use use' : Use} (h : Paired r kind site marks use use')
    (hsite : SitesTwin r marks site site') (hfaults : scopeFaults (use.readFindings site) = []) :
    scopeFaults (use'.readFindings site') = [] := by
  rw [Use.scopeFaults_readFindings] at hfaults ⊢
  rw [hsite.isBeingInitialized_eq h.spells h.ne_new, hfaults]

mutual

theorem Expr.Twin.scopeFaults_eq_nil {site site' : Site} {marks : List Bool}
    (hsite : SitesTwin r marks site site') :
    ∀ {e e' : Expr}, Expr.Twin r (Paired r) site marks e e' →
    scopeFaults (e.findings site) = [] → scopeFaults (e'.findings site') = []
  | _, _, .literal, hfaults => hfaults
  | _, _, .unary h, hfaults => h.scopeFaults_eq_nil hsite hfaults
  | _, _, .binary hleft hright, hfaults => by
    simp only [Expr.findings, scopeFaults_append_eq_nil] at hfaults ⊢
    exact ⟨hleft.scopeFaults_eq_nil hsite hfaults.1, hright.scopeFaults_eq_nil hsite hfaults.2⟩
  | _, _, .logical hleft hright, hfaults => by
    simp only [Expr.findings, scopeFaults_append_eq_nil] at hfaults ⊢
    exact ⟨hleft.scopeFaults_eq_nil hsite hfaults.1, hright.scopeFaults_eq_nil hsite hfaults.2⟩
  | _, _, .group h, hfaults => h.scopeFaults_eq_nil hsite hfaults
  | _, _, .variable h, hfaults => h.scopeFaults_readFindings hsite hfaults
  | _, _, .assign h hvalue, hfaults => by
    simp only [Expr.findings, scopeFaults_append_eq_nil, Site.scopeFaults_bind, and_true]
      at hfaults ⊢
    exact hvalue.scopeFaults_eq_nil hsite hfaults
  | _, _, .call hcallee harguments, hfaults => by
    simp only [Expr.findings, scopeFaults_append_eq_nil] at hfaults ⊢
    exact ⟨hcallee.scopeFaults_eq_nil hsite hfaults.1,
      harguments.scopeFaults_eq_nil hsite hfaults.2⟩
  | _, _, .property h, hfaults => h.scopeFaults_eq_nil hsite hfaults
  | _, _, .setProperty h hvalue, hfaults => by
    simp only [Expr.findings, scopeFaults_append_eq_nil] at hfaults ⊢
    exact ⟨hvalue.scopeFaults_eq_nil hsite hfaults.1, h.scopeFaults_eq_nil hsite hfaults.2⟩
  | _, _, .this h, hfaults => by
    simp only [Expr.findings, hsite.classContext_eq] at hfaults ⊢
    split at hfaults
    · simp at hfaults
    · exact Site.scopeFaults_bind _ _
  | _, _, .super h, hfaults => by
    simp only [Expr.findings, hsite.classContext_eq] at hfaults ⊢
    split at hfaults
    · simp at hfaults
    · simp at hfaults
    · exact Site.scopeFaults_bind _ _

theorem Expr.TwinAll.scopeFaults_eq_nil {site site' : Site} {marks : List Bool}
    (hsite : SitesTwin r marks site site') : ∀ {es es' : List Expr},
    Expr.TwinAll r (Paired r) site marks es es' → scopeFaults (Expr.findingsAll site es) = [] →
    scopeFaults (Expr.findingsAll site' es') = []
  | _, _, .nil, hfaults => hfaults
  | _, _, .cons h hrest, hfaults => by
    simp only [Expr.findingsAll, scopeFaults_append_eq_nil] at hfaults ⊢
    exact ⟨h.scopeFaults_eq_nil hsite hfaults.1, hrest.scopeFaults_eq_nil hsite hfaults.2⟩

end

/-- What is found in the superclass clause of a class. -/
def clauseFindings (site : Site) (name : Token) (superclass : Option Use) : List Finding :=
  match superclass with
  | none => []
  | some use => superclassFindings site name use

theorem Stmt.analyse_class (site : Site) (name : Token) (superclass : Option Use)
    (methods : List Routine) : (Stmt.class name superclass methods).analyse site =
      ((site.introduce name).1 ++ clauseFindings (site.introduce name).2 name superclass ++
          Routine.findingsAll ((site.introduce name).2.enterClass superclass) methods,
        (site.introduce name).2) := by
  cases superclass <;> rfl

theorem SuperclassTwin.isSome_eq {U : UseRelation} {site : Site} {marks : List Bool} {name : Token}
    {superclass superclass' : Option Use}
    (h : SuperclassTwin U site marks name superclass superclass') :
    superclass'.isSome = superclass.isSome := by
  cases h <;> rfl

theorem SuperclassTwin.scopeFaults_eq_nil {site site' : Site} {marks : List Bool} {name : Token}
    {superclass superclass' : Option Use} (hsite : SitesTwin r marks site site')
    (hname : DeclaresTwins r marks name (name.down r.lines))
    (h : SuperclassTwin (Paired r) site marks name superclass superclass')
    (hfaults : scopeFaults (clauseFindings site name superclass) = []) :
    scopeFaults (clauseFindings site' (name.down r.lines) superclass') = [] := by
  cases h with
  | none => rfl
  | @some use use' hu hne =>
    obtain ⟨-, hinit⟩ := (scopeFaults_superclassFindings site name use).1 hfaults
    refine (scopeFaults_superclassFindings site' _ use').2 ⟨fun heq => ?_, ?_⟩
    · -- the name of a class is not the new spelling
      have hspell : use'.name = r.spell (site.isRespelled marks use.name) use.name := hu.spells.1
      rw [Respelling.spell] at hspell
      split at hspell
      · next hold =>
        by_cases hr : r.old = r.new
        · exact hne (by rw [hold.2, hr, ← hspell, heq, Token.lexeme_down])
        · exact hname.ne_new hr (heq ▸ hspell)
      · exact hne (hspell ▸ heq)
    · rw [hsite.isBeingInitialized_eq hu.spells hu.ne_new, hinit]

theorem scopeFaults_returnFindings (site : Site) (keyword : Token) (hasValue : Bool) :
    scopeFaults (returnFindings site keyword hasValue) = [] ↔
      site.routine ≠ .none ∧ (hasValue = true → site.routine ≠ .initializer) := by
  rw [returnFindings, scopeFaults_append_eq_nil]
  by_cases h : site.routine = .none <;> by_cases h' : site.routine = .initializer <;>
    cases hasValue <;> simp [h, h']

theorem SitesTwin.scopeFaults_returnFindings {site site' : Site} {marks : List Bool}
    (hsite : SitesTwin r marks site site') {keyword keyword' : Token} {hasValue : Bool}
    (hfaults : scopeFaults (returnFindings site keyword hasValue) = []) :
    scopeFaults (returnFindings site' keyword' hasValue) = [] := by
  rw [Treewalk.scopeFaults_returnFindings] at hfaults ⊢
  rwa [hsite.routine_eq]

mutual

/-- The places behind twin statements are counterparts again, and the second statement is without
faults if the first one is. -/
theorem Stmt.Twin.analyse (hr : r.Fair) : ∀ {site site' : Site} {marks : List Bool} {s s' : Stmt},
    Stmt.Twin r (Paired r) site marks s s' → SitesTwin r marks site site' →
    SitesTwin r marks (s.analyse site).2 (s'.analyse site').2 ∧
      (scopeFaults (s.analyse site).1 = [] → scopeFaults (s'.analyse site').1 = [])
  | _, _, _, _, _, .expression h, hsite => ⟨hsite, h.scopeFaults_eq_nil hsite⟩
  | _, _, _, _, _, .print h, hsite => ⟨hsite, h.scopeFaults_eq_nil hsite⟩
  | _, _, _, _, _, .declaration hname, hsite => hsite.introduce hname
  | _, _, _, _, _, .definition hname hvalue, hsite => by
    obtain ⟨hdeclared, hfaults⟩ := hsite.declare hname
    refine ⟨hdeclared.define hname, fun hnone => ?_⟩
    simp only [Stmt.analyse, scopeFaults_append_eq_nil] at hnone ⊢
    exact ⟨hfaults hnone.1, hvalue.scopeFaults_eq_nil hdeclared hnone.2⟩
  | _, _, _, _, _, .block mark hmark h, hsite =>
    ⟨hsite, (h.analyse hr (hsite.enter (.empty hmark))).2⟩
  | _, _, _, _, _, .ifThen hcondition hbranch _, hsite => by
    obtain ⟨hbehind, hfaults⟩ := hbranch.analyse hr hsite
    refine ⟨hbehind, fun hnone => ?_⟩
    simp only [Stmt.analyse, scopeFaults_append_eq_nil] at hnone ⊢
    exact ⟨hcondition.scopeFaults_eq_nil hsite hnone.1, hfaults hnone.2⟩
  | _, _, _, _, _, .ifElse hcondition hbranch hb hother _, hsite => by
    obtain ⟨hbehind, hfaults⟩ := hbranch.analyse hr hsite
    obtain ⟨hbehind', hfaults'⟩ := hother.analyse hr (hb ▸ hbehind)
    rw [← hb] at hbehind' hfaults'
    refine ⟨by simpa only [Stmt.analyse, hb] using hbehind', fun hnone => ?_⟩
    simp only [Stmt.analyse, scopeFaults_append_eq_nil] at hnone ⊢
    exact ⟨⟨hcondition.scopeFaults_eq_nil hsite hnone.1.1, hfaults hnone.1.2⟩, hfaults' hnone.2⟩
  | _, _, _, _, _, .while hcondition hbody _, hsite => by
    obtain ⟨hbehind, hfaults⟩ := hbody.analyse hr hsite
    refine ⟨hbehind, fun hnone => ?_⟩
    simp only [Stmt.analyse, scopeFaults_append_eq_nil] at hnone ⊢
    exact ⟨hcondition.scopeFaults_eq_nil hsite hnone.1, hfaults hnone.2⟩
  | _, _, _, _, _, .function hname h, hsite => by
    obtain ⟨hintroduced, hfaults⟩ := hsite.introduce hname
    refine ⟨hintroduced, fun hnone => ?_⟩
    simp only [Stmt.analyse, scopeFaults_append_eq_nil] at hnone ⊢
    exact ⟨hfaults hnone.1, h.scopeFaults_eq_nil hr hintroduced hnone.2⟩
  | _, _, _, _, _, .return, hsite => ⟨hsite, hsite.scopeFaults_returnFindings⟩
  | _, _, _, _, _, .returnValue h, hsite => by
    refine ⟨hsite, fun hnone => ?_⟩
    simp only [Stmt.analyse, scopeFaults_append_eq_nil] at hnone ⊢
    exact ⟨hsite.scopeFaults_returnFindings hnone.1, h.scopeFaults_eq_nil hsite hnone.2⟩
  | _, _, _, _, _, .class hname hsuperclass hmethods, hsite => by
    obtain ⟨hintroduced, hfaults⟩ := hsite.introduce hname
    simp only [Stmt.analyse_class, scopeFaults_append_eq_nil]
    refine ⟨hintroduced, fun hnone => ⟨⟨hfaults hnone.1.1,
      hsuperclass.scopeFaults_eq_nil hintroduced hname hnone.1.2⟩, ?_⟩⟩
    exact hmethods.scopeFaults_eq_nil hr (hintroduced.enterClass hr hsuperclass.isSome_eq) hnone.2

theorem Stmt.TwinAll.analyse (hr : r.Fair) : ∀ {site site' : Site} {marks : List Bool}
    {ss ss' : List Stmt}, Stmt.TwinAll r (Paired r) site marks ss ss' →
    SitesTwin r marks site site' →
    SitesTwin r marks (Stmt.analyseAll site ss).2 (Stmt.analyseAll site' ss').2 ∧
      (scopeFaults (Stmt.analyseAll site ss).1 = [] →
        scopeFaults (Stmt.analyseAll site' ss').1 = [])
  | _, _, _, _, _, .nil, hsite => ⟨hsite, id⟩
  | _, _, _, _, _, .cons h hrest, hsite => by
    obtain ⟨hbehind, hfaults⟩ := h.analyse hr hsite
    obtain ⟨hbehind', hfaults'⟩ := hrest.analyse hr hbehind
    refine ⟨hbehind', fun hnone => ?_⟩
    simp only [Stmt.analyseAll, scopeFaults_append_eq_nil] at hnone ⊢
    exact ⟨hfaults hnone.1, hfaults' hnone.2⟩

theorem Routine.Twin.scopeFaults_eq_nil (hr : r.Fair) : ∀ {site site' : Site} {marks : List Bool}
    {context : RoutineContext} {routine routine' : Routine},
    Routine.Twin r (Paired r) site marks context routine routine' →
    SitesTwin r marks site site' → scopeFaults (routine.findings site context) = [] →
    scopeFaults (routine'.findings site' context) = []
  | _, _, _, _, _, _, .mk mark hmark hparameters hbody, hsite, hnone => by
    obtain ⟨hinner, hfaults⟩ := (hsite.inner hmark _).introduceAll hparameters
    simp only [Routine.findings, scopeFaults_append_eq_nil] at hnone ⊢
    exact ⟨hfaults hnone.1, (hbody.analyse hr hinner).2 hnone.2⟩

theorem MethodsTwin.scopeFaults_eq_nil (hr : r.Fair) : ∀ {site site' : Site} {marks : List Bool}
    {methods methods' : List Routine}, MethodsTwin r (Paired r) site marks methods methods' →
    SitesTwin r marks site site' → scopeFaults (Routine.findingsAll site methods) = [] →
    scopeFaults (Routine.findingsAll site' methods') = []
  | _, _, _, _, _, .nil, _, hnone => hnone
  | _, _, _, _, _, .cons h hrest, hsite, hnone => by
    simp only [Routine.findingsAll, scopeFaults_append_eq_nil, h.name_eq] at hnone ⊢
    exact ⟨h.scopeFaults_eq_nil hr hsite hnone.1, hrest.scopeFaults_eq_nil hr hsite hnone.2⟩

end

end Treewalk
