import Treewalk.Proofs.Scope.Sites

/-!
# Linking twin programs

Two twin programs without faults are linked by any two tables that tell the depths of their uses.
That a name which is read is defined in its scope, and that there is a receiver where `super` is
used, follows from the way in which scope analysis goes through the first program.

## Main definitions

* `Site.Tidy`, `Site.Readable` — what is known of the places that scope analysis comes to
* `Numbering.TellsAll` — a table that tells the depths of given uses

## Main results

* `Stmt.TwinAll.link` — the uses of twin programs are linked
-/

namespace Treewalk

/-! ### The places of a walk -/

namespace Site

/-- All names of the scopes around a statement are defined, in a class one of these scopes is that
of `this`, and in a subclass there is a receiver. -/
structure Tidy (site : Site) (marks : List Bool) : Prop where
  defined : ∀ scope ∈ site.scopes, ∀ name value, scope.get? name = some value → value = true
  this : site.classContext ≠ .none → (site.depth? "this").isSome
  receiver : site.classContext = .subclass → site.HasReceiver marks "super"

/-- All names of the scopes around an expression are defined but for the one being initialized. -/
structure Readable (site : Site) (marks : List Bool) : Prop where
  defines : ∀ name, site.isBeingInitialized name = false → site.Defines name
  this_eq : site.isBeingInitialized "this" = false
  super_eq : site.isBeingInitialized "super" = false
  this : site.classContext ≠ .none → (site.depth? "this").isSome
  receiver : site.classContext = .subclass → site.HasReceiver marks "super"

theorem tidy_top : top.Tidy [] := ⟨by simp [top], by simp [top], by simp [top]⟩

variable {site : Site} {marks : List Bool} {name : Token}

/-- A name of a scope has a value there. -/
theorem exists_get?_of_depth? {name : String} {depth : Nat} (h : site.depth? name = some depth) :
    ∃ scope value, site.scopes[depth]? = some scope ∧ scope.get? name = some value := by
  obtain ⟨hlt, hname, -⟩ := List.findIdx?_eq_some_iff_getElem.1 h
  obtain ⟨value, hvalue⟩ := Option.isSome_iff_exists.1 hname
  exact ⟨_, value, List.getElem?_eq_getElem hlt, hvalue⟩

theorem Tidy.isBeingInitialized_eq (h : site.Tidy marks) (name : String) :
    site.isBeingInitialized name = false := by
  obtain ⟨scopes, routine, classContext⟩ := site
  cases scopes with
  | nil => rfl
  | cons scope outer =>
    have hdefined := h.defined scope (.head _) name
    show (scope.get? name == some false) = false
    cases hvalue : scope.get? name with
    | none => rfl
    | some value =>
      obtain rfl := hdefined value hvalue
      rfl

theorem Tidy.readable (h : site.Tidy marks) : site.Readable marks where
  defines name _ depth hdepth := by
    obtain ⟨scope, value, hscope, hvalue⟩ := exists_get?_of_depth? hdepth
    obtain rfl := h.defined scope (List.mem_of_getElem? hscope) name value hvalue
    exact ⟨scope, hscope, hvalue⟩
  this_eq := h.isBeingInitialized_eq "this"
  super_eq := h.isBeingInitialized_eq "super"
  this := h.this
  receiver := h.receiver

/-- A name belongs to the same scope if nothing is changed about it in the innermost one. -/
theorem depth?_congr_head {site' : Site} {scope scope' : Scope} {outer : List Scope} {name : String}
    (hsite : site.scopes = scope :: outer) (hsite' : site'.scopes = scope' :: outer)
    (hget : scope'.get? name = scope.get? name) : site'.depth? name = site.depth? name := by
  rw [depth?, depth?, hsite, hsite', List.findIdx?_cons, List.findIdx?_cons, NameMap.contains,
    NameMap.contains, hget]

/-- Names of other scopes do not matter for a receiver further out. -/
theorem HasReceiver.congr {site' : Site} {scope scope' : Scope} {outer : List Scope}
    (h : site.HasReceiver marks "super") (hsite : site.scopes = scope :: outer)
    (hsite' : site'.scopes = scope' :: outer)
    (hget : ∀ name, name = "this" ∨ name = "super" → scope'.get? name = scope.get? name) :
    site'.HasReceiver marks "super" := by
  obtain ⟨depth, inner, hdepth, hdepthThis, hinner, hthis, hmark⟩ := h
  have hdepth' := (depth?_congr_head hsite hsite' (hget "super" (.inr rfl))).trans hdepth
  have hdepthThis' := (depth?_congr_head hsite hsite' (hget "this" (.inl rfl))).trans hdepthThis
  rw [hsite] at hinner
  cases depth with
  | zero =>
    obtain rfl := Option.some.inj hinner
    exact ⟨0, scope', hdepth', hdepthThis', by rw [hsite']; rfl,
      (hget "this" (.inl rfl)).trans hthis, hmark⟩
  | succ depth =>
    exact ⟨depth + 1, inner, hdepth', hdepthThis', by rw [hsite']; exact hinner, hthis, hmark⟩

theorem Tidy.introduce (h : site.Tidy marks) (hthis : name.lexeme ≠ "this")
    (hsuper : name.lexeme ≠ "super") : (site.introduce name).2.Tidy marks := by
  obtain ⟨scopes, routine, classContext⟩ := site
  cases scopes with
  | nil => exact h
  | cons scope outer =>
    obtain ⟨scope', hscope', hself, hget⟩ := introduce_cons scope outer routine classContext name
    rw [hscope']
    refine ⟨fun other hother key value hvalue => ?_, fun hclass => ?_, fun hsubclass => ?_⟩
    · rcases List.mem_cons.1 hother with rfl | hother
      · by_cases hkey : key = name.lexeme
        · rw [hkey, hself] at hvalue
          exact (Option.some.inj hvalue).symm
        · exact h.defined scope (.head _) key value (hget key hkey ▸ hvalue)
      · exact h.defined other (.tail _ hother) key value hvalue
    · have hdepth : depth? ⟨scope' :: outer, routine, classContext⟩ "this" =
          depth? ⟨scope :: outer, routine, classContext⟩ "this" :=
        depth?_congr_head rfl rfl (hget "this" hthis.symm)
      rw [hdepth]
      exact h.this hclass
    · refine (h.receiver hsubclass).congr rfl rfl fun key hkey => hget key ?_
      rcases hkey with rfl | rfl
      · exact hthis.symm
      · exact hsuper.symm

/-- While a variable is initialized, it is the only name that is not defined. -/
theorem Tidy.declare (h : site.Tidy marks) (hthis : name.lexeme ≠ "this")
    (hsuper : name.lexeme ≠ "super") : (site.declare name).2.Readable marks := by
  obtain ⟨scopes, routine, classContext⟩ := site
  cases scopes with
  | nil => exact h.readable
  | cons scope outer =>
    unfold Site.declare
    dsimp only
    split
    · exact h.readable
    · have hinitialized (key : String) : isBeingInitialized
          ⟨scope.set name.lexeme false :: outer, routine, classContext⟩ key =
            decide (key = name.lexeme) := by
        unfold isBeingInitialized
        dsimp only
        rw [NameMap.get?_set]
        split
        · next hkey => simp [hkey]
        · next hkey =>
          have := h.isBeingInitialized_eq key
          simpa [isBeingInitialized, hkey] using this
      refine ⟨fun key hkey depth hdepth => ?_, ?_, ?_, fun hclass => ?_, fun hsubclass => ?_⟩
      · rw [hinitialized, decide_eq_false_iff_not] at hkey
        obtain ⟨scope', value, hscope', hvalue⟩ := exists_get?_of_depth? hdepth
        refine ⟨scope', hscope', ?_⟩
        cases depth with
        | zero =>
          obtain rfl := Option.some.inj hscope'
          have hold := hvalue
          rw [NameMap.get?_set_of_ne _ hkey] at hold
          rw [hvalue, h.defined scope (.head _) key value hold]
        | succ depth =>
          have hmem : scope' ∈ outer := List.mem_of_getElem? hscope'
          rw [hvalue, h.defined scope' (.tail _ hmem) key value hvalue]
      · rw [hinitialized]
        exact decide_eq_false hthis.symm
      · rw [hinitialized]
        exact decide_eq_false hsuper.symm
      · have hdepth : depth? ⟨scope.set name.lexeme false :: outer, routine, classContext⟩ "this" =
            depth? ⟨scope :: outer, routine, classContext⟩ "this" :=
          depth?_congr_head rfl rfl (NameMap.get?_set_of_ne _ hthis.symm _)
        rw [hdepth]
        exact h.this hclass
      · refine (h.receiver hsubclass).congr rfl rfl fun key hkey =>
          NameMap.get?_set_of_ne _ ?_ _
        rcases hkey with rfl | rfl
        · exact hthis.symm
        · exact hsuper.symm

theorem Tidy.inner (h : site.Tidy marks) (context : RoutineContext) (mark : Bool) :
    ({ site with routine := context }.enter .empty).Tidy (mark :: marks) := by
  have hsucc (name : String) : ({ site with routine := context }.enter .empty).depth? name =
      (site.depth? name).map (· + 1) := by
    rw [depth?, enter, List.findIdx?_cons]
    rfl
  refine ⟨fun scope hscope name value hvalue => ?_, fun hclass => ?_, fun hsubclass => ?_⟩
  · rcases List.mem_cons.1 hscope with rfl | hscope
    · simp at hvalue
    · exact h.defined scope hscope name value hvalue
  · rw [hsucc, Option.isSome_map]
    exact h.this hclass
  · obtain ⟨depth, scope, hdepth, hdepthThis, hscope, hthis, hmark⟩ := h.receiver hsubclass
    refine ⟨depth + 1, scope, ?_, ?_, hscope, hthis, by simpa using hmark⟩
    · rw [hsucc, hdepth, Option.map_some]
    · rw [hsucc, hdepthThis, Option.map_some]

theorem Tidy.introduceAll {names names' : List Token} {r : Edit} (h : site.Tidy marks)
    (hnames : List.Forall₂ (DeclaresTwins r marks) names names') :
    (site.introduceAll names).2.Tidy marks := by
  induction hnames generalizing site with
  | nil => exact h
  | cons hname _ ih => exact ih (h.introduce hname.ne_this hname.ne_super)

theorem Tidy.enterClass (h : site.Tidy marks) (superclass : Option Use) :
    (site.enterClass superclass).Tidy (false :: classMarks superclass marks) := by
  have hsingle {key name : String} {value : Bool}
      (hvalue : (Scope.single key).get? name = some value) :
      value = true := by
    rw [Scope.single, NameMap.get?_set] at hvalue
    split at hvalue
    · exact (Option.some.inj hvalue).symm
    · simp at hvalue
  cases superclass with
  | none =>
    refine ⟨fun scope hscope name value hvalue => ?_, fun _ => rfl,
      fun hsubclass => by cases hsubclass⟩
    rcases List.mem_cons.1 hscope with rfl | hscope
    · exact hsingle hvalue
    · exact h.defined scope hscope name value hvalue
  | some use =>
    refine ⟨fun scope hscope name value hvalue => ?_, fun _ => rfl, fun _ =>
      ⟨0, .single "this", rfl, rfl, rfl, rfl, rfl⟩⟩
    rcases List.mem_cons.1 hscope with rfl | hscope
    · exact hsingle hvalue
    · rcases List.mem_cons.1 hscope with rfl | hscope
      · exact hsingle hvalue
      · exact h.defined scope hscope name value hvalue

end Site

/-! ### Tables -/

/-- The table tells the depths of all uses that are listed. -/
def Numbering.TellsAll (N : Numbering) (placed : List (Site × Use)) : Prop :=
  ∀ x ∈ placed, N.Tells x.2.id (x.1.depth? x.2.name)

namespace Numbering

variable {N : Numbering} {a b : List (Site × Use)}

theorem tellsAll_append : N.TellsAll (a ++ b) ↔ N.TellsAll a ∧ N.TellsAll b :=
  List.forall_mem_append

theorem tellsAll_cons {site : Site} {use : Use} :
    N.TellsAll ((site, use) :: a) ↔ N.Tells use.id (site.depth? use.name) ∧ N.TellsAll a :=
  List.forall_mem_cons

end Numbering

section Link

variable {r : Edit} {N N' : Numbering}

theorem Paired.link {kind : OccurrenceKind} {site site' : Site} {marks : List Bool}
    {use use' : Use} (h : Paired r kind site marks use use') (hsite : SitesTwin r marks site site')
    (hleft : N.Tells use.id (site.depth? use.name))
    (hright : N'.Tells use'.id (site'.depth? use'.name))
    (hdefines : kind ≠ .assign → site.Defines use.name)
    (hthis : kind = .this → (site.depth? use.name).isSome)
    (hreceiver : kind = .super → site.classContext = .subclass ∧ site.HasReceiver marks use.name) :
    Linked r N N' kind site marks use use' :=
  ⟨hleft, hsite.depth?_eq h.spells h.ne_new ▸ hright, h.line_eq, h.spells, h.used, h.names,
    hdefines,
    hthis, hreceiver⟩

theorem Paired.link_read {site site' : Site} {marks : List Bool} {use use' : Use}
    (h : Paired r .variable site marks use use') (hsite : SitesTwin r marks site site')
    (hready : site.Readable marks) (hfaults : scopeFaults (use.readFindings site) = [])
    (hleft : N.Tells use.id (site.depth? use.name))
    (hright : N'.Tells use'.id (site'.depth? use'.name)) :
    Linked r N N' .variable site marks use use' :=
  h.link hsite hleft hright
    (fun _ => hready.defines _ ((Use.scopeFaults_readFindings site use).1 hfaults)) nofun nofun

mutual

theorem Expr.Twin.link {site site' : Site} {marks : List Bool}
    (hsite : SitesTwin r marks site site')
    (hready : site.Readable marks) : ∀ {e e' : Expr}, Expr.Twin r (Paired r) site marks e e' →
    scopeFaults (e.findings site) = [] → N.TellsAll (e.placed site) →
    N'.TellsAll (e'.placed site') → Expr.Twin r (Linked r N N') site marks e e'
  | _, _, .literal, _, _, _ => .literal
  | _, _, .unary h, hfaults, hleft, hright => .unary (h.link hsite hready hfaults hleft hright)
  | _, _, .binary hl hr, hfaults, hleft, hright => by
    simp only [Expr.findings, scopeFaults_append_eq_nil] at hfaults
    simp only [Expr.placed, Expr.occurrences, List.map_append, Numbering.tellsAll_append]
      at hleft hright
    exact .binary (hl.link hsite hready hfaults.1 hleft.1 hright.1)
      (hr.link hsite hready hfaults.2 hleft.2 hright.2)
  | _, _, .logical hl hr, hfaults, hleft, hright => by
    simp only [Expr.findings, scopeFaults_append_eq_nil] at hfaults
    simp only [Expr.placed, Expr.occurrences, List.map_append, Numbering.tellsAll_append]
      at hleft hright
    exact .logical (hl.link hsite hready hfaults.1 hleft.1 hright.1)
      (hr.link hsite hready hfaults.2 hleft.2 hright.2)
  | _, _, .group h, hfaults, hleft, hright => .group (h.link hsite hready hfaults hleft hright)
  | _, _, .variable h, hfaults, hleft, hright =>
    .variable (h.link_read hsite hready hfaults (hleft _ (.head _)) (hright _ (.head _)))
  | _, _, .assign h hvalue, hfaults, hleft, hright => by
    simp only [Expr.findings, scopeFaults_append_eq_nil] at hfaults
    simp only [Expr.placed, Expr.occurrences, List.map_cons, Numbering.tellsAll_cons]
      at hleft hright
    exact .assign (h.link hsite hleft.1 hright.1 (by simp) nofun nofun)
      (hvalue.link hsite hready hfaults.1 hleft.2 hright.2)
  | _, _, .call hcallee harguments, hfaults, hleft, hright => by
    simp only [Expr.findings, scopeFaults_append_eq_nil] at hfaults
    simp only [Expr.placed, Expr.occurrences, List.map_append, Numbering.tellsAll_append]
      at hleft hright
    exact .call (hcallee.link hsite hready hfaults.1 hleft.1 hright.1)
      (harguments.link hsite hready hfaults.2 hleft.2 hright.2)
  | _, _, .property h, hfaults, hleft, hright =>
    .property (h.link hsite hready hfaults hleft hright)
  | _, _, .setProperty h hvalue, hfaults, hleft, hright => by
    simp only [Expr.findings, scopeFaults_append_eq_nil] at hfaults
    simp only [Expr.placed, Expr.occurrences, List.map_append, Numbering.tellsAll_append]
      at hleft hright
    exact .setProperty (h.link hsite hready hfaults.2 hleft.1 hright.1)
      (hvalue.link hsite hready hfaults.1 hleft.2 hright.2)
  | _, _, .this h, hfaults, hleft, hright => by
    have hdefines := hready.defines _ hready.this_eq
    have hthis : (site.depth? "this").isSome := by
      unfold Expr.findings at hfaults
      split at hfaults
      · simp at hfaults
      · next hclass => exact hready.this hclass
    rw [← h.names.this_eq rfl] at hdefines hthis
    exact .this (h.link hsite (hleft _ (.head _)) (hright _ (.head _)) (fun _ => hdefines)
      (fun _ => hthis) nofun)
  | _, _, .super h, hfaults, hleft, hright => by
    have hdefines := hready.defines _ hready.super_eq
    have hreceiver : site.classContext = .subclass ∧ site.HasReceiver marks "super" := by
      unfold Expr.findings at hfaults
      split at hfaults
      · simp at hfaults
      · simp at hfaults
      · next hsubclass => exact ⟨hsubclass, hready.receiver hsubclass⟩
    rw [← h.names.super_eq rfl] at hdefines hreceiver
    exact .super (h.link hsite (hleft _ (.head _)) (hright _ (.head _)) (fun _ => hdefines) nofun
      (fun _ => hreceiver))

theorem Expr.TwinAll.link {site site' : Site} {marks : List Bool}
    (hsite : SitesTwin r marks site site') (hready : site.Readable marks) : ∀ {es es' : List Expr},
    Expr.TwinAll r (Paired r) site marks es es' → scopeFaults (Expr.findingsAll site es) = [] →
    N.TellsAll (Expr.placedAll site es) → N'.TellsAll (Expr.placedAll site' es') →
    Expr.TwinAll r (Linked r N N') site marks es es'
  | _, _, .nil, _, _, _ => .nil
  | _, _, .cons h hrest, hfaults, hleft, hright => by
    simp only [Expr.findingsAll, scopeFaults_append_eq_nil] at hfaults
    simp only [Expr.placedAll, Expr.occurrencesAll, List.map_append, Numbering.tellsAll_append]
      at hleft hright
    exact .cons (h.link hsite hready hfaults.1 hleft.1 hright.1)
      (hrest.link hsite hready hfaults.2 hleft.2 hright.2)

end

mutual

theorem Stmt.Twin.link (hr : r.Fair) : ∀ {site site' : Site} {marks : List Bool} {s s' : Stmt},
    Stmt.Twin r (Paired r) site marks s s' → SitesTwin r marks site site' → site.Tidy marks →
    scopeFaults (s.analyse site).1 = [] → N.TellsAll (s.placed site) →
    N'.TellsAll (s'.placed site') →
    Stmt.Twin r (Linked r N N') site marks s s' ∧ (s.analyse site).2.Tidy marks
  | _, _, _, _, _, .expression h, hsite, htidy, hfaults, hleft, hright =>
    ⟨.expression (h.link hsite htidy.readable hfaults hleft hright), htidy⟩
  | _, _, _, _, _, .print h, hsite, htidy, hfaults, hleft, hright =>
    ⟨.print (h.link hsite htidy.readable hfaults hleft hright), htidy⟩
  | _, _, _, _, _, .declaration hname, _, htidy, _, _, _ =>
    ⟨.declaration hname, htidy.introduce hname.ne_this hname.ne_super⟩
  | _, _, _, _, _, .definition hname hvalue, hsite, htidy, hfaults, hleft, hright => by
    simp only [Stmt.analyse, scopeFaults_append_eq_nil] at hfaults
    exact ⟨.definition hname (hvalue.link (hsite.declare hname).1
      (htidy.declare hname.ne_this hname.ne_super) hfaults.2 hleft hright),
      htidy.introduce hname.ne_this hname.ne_super⟩
  | _, _, _, _, _, .block mark hmark h, hsite, htidy, hfaults, hleft, hright =>
    ⟨.block mark hmark (h.link hr (hsite.enter (.empty hmark)) (htidy.inner _ mark) hfaults hleft
      hright), htidy⟩
  | _, _, _, _, _, .ifThen hcondition hbranch hb, hsite, htidy, hfaults, hleft, hright => by
    simp only [Stmt.analyse, scopeFaults_append_eq_nil] at hfaults
    simp only [Stmt.placed, Numbering.tellsAll_append] at hleft hright
    obtain ⟨hbranch, hbehind⟩ := hbranch.link hr hsite htidy hfaults.2 hleft.2 hright.2
    exact ⟨.ifThen (hcondition.link hsite htidy.readable hfaults.1 hleft.1 hright.1) hbranch hb,
      hbehind⟩
  | _, _, _, _, _, .ifElse hcondition hbranch hb hother ho, hsite, htidy, hfaults, hleft,
      hright => by
    simp only [Stmt.analyse, scopeFaults_append_eq_nil, hb] at hfaults
    simp only [Stmt.placed, Numbering.tellsAll_append, hb] at hleft hright
    have hsite' := (hbranch.analyse hr hsite).1
    obtain ⟨hbranch, -⟩ := hbranch.link hr hsite htidy hfaults.1.2 hleft.1.2 hright.1.2
    obtain ⟨hother, hbehind⟩ := hother.link hr (hb ▸ hsite') htidy hfaults.2 hleft.2 hright.2
    refine ⟨.ifElse (hcondition.link hsite htidy.readable hfaults.1.1 hleft.1.1 hright.1.1) hbranch
      hb hother ho, ?_⟩
    simpa only [Stmt.analyse, hb] using hbehind
  | _, _, _, _, _, .while hcondition hbody hb, hsite, htidy, hfaults, hleft, hright => by
    simp only [Stmt.analyse, scopeFaults_append_eq_nil] at hfaults
    simp only [Stmt.placed, Numbering.tellsAll_append] at hleft hright
    obtain ⟨hbody, hbehind⟩ := hbody.link hr hsite htidy hfaults.2 hleft.2 hright.2
    exact ⟨.while (hcondition.link hsite htidy.readable hfaults.1 hleft.1 hright.1) hbody hb,
      hbehind⟩
  | _, _, _, _, _, .function hname h, hsite, htidy, hfaults, hleft, hright => by
    simp only [Stmt.analyse, scopeFaults_append_eq_nil] at hfaults
    have hbehind := htidy.introduce hname.ne_this hname.ne_super
    exact ⟨.function hname (h.link hr (hsite.introduce hname).1 hbehind hfaults.2 hleft hright),
      hbehind⟩
  | _, _, _, _, _, .return, _, htidy, _, _, _ => ⟨.return, htidy⟩
  | _, _, _, _, _, .returnValue h, hsite, htidy, hfaults, hleft, hright => by
    simp only [Stmt.analyse, scopeFaults_append_eq_nil] at hfaults
    exact ⟨.returnValue (h.link hsite htidy.readable hfaults.2 hleft hright), htidy⟩
  | _, _, _, _, _, .class hname .none hmethods, hsite, htidy, hfaults, hleft, hright => by
    simp only [Stmt.analyse_class, scopeFaults_append_eq_nil] at hfaults
    have hbehind := htidy.introduce hname.ne_this hname.ne_super
    exact ⟨.class hname .none (hmethods.link hr ((hsite.introduce hname).1.enterClass hr rfl)
      (hbehind.enterClass none) hfaults.2 hleft hright), hbehind⟩
  | _, _, _, _, _, .class hname (.some hu hne) hmethods, hsite, htidy, hfaults, hleft, hright => by
    simp only [Stmt.analyse_class, scopeFaults_append_eq_nil] at hfaults
    simp only [Stmt.placed, Numbering.tellsAll_cons] at hleft hright
    have hbehind := htidy.introduce hname.ne_this hname.ne_super
    have hsite' := (hsite.introduce hname).1
    obtain ⟨-, hinit⟩ := (scopeFaults_superclassFindings _ _ _).1 hfaults.1.2
    have hlinked := hu.link_read hsite' hbehind.readable
      ((Use.scopeFaults_readFindings _ _).2 hinit) hleft.1 hright.1
    exact ⟨.class hname (.some hlinked hne) (hmethods.link hr (hsite'.enterClass hr rfl)
      (hbehind.enterClass (some _)) hfaults.2 hleft.2 hright.2), hbehind⟩

/-- The uses of twin programs without faults are linked. -/
theorem Stmt.TwinAll.link (hr : r.Fair) : ∀ {site site' : Site} {marks : List Bool}
    {ss ss' : List Stmt},
    Stmt.TwinAll r (Paired r) site marks ss ss' → SitesTwin r marks site site' →
    site.Tidy marks → scopeFaults (Stmt.analyseAll site ss).1 = [] →
    N.TellsAll (Stmt.placedAll site ss) → N'.TellsAll (Stmt.placedAll site' ss') →
    Stmt.TwinAll r (Linked r N N') site marks ss ss'
  | _, _, _, _, _, .nil, _, _, _, _, _ => .nil
  | _, _, _, _, _, .cons h hrest, hsite, htidy, hfaults, hleft, hright => by
    simp only [Stmt.analyseAll, scopeFaults_append_eq_nil] at hfaults
    simp only [Stmt.placedAll, Numbering.tellsAll_append] at hleft hright
    have hsite' := (h.analyse hr hsite).1
    obtain ⟨h, hbehind⟩ := h.link hr hsite htidy hfaults.1 hleft.1 hright.1
    exact .cons h (hrest.link hr hsite' hbehind hfaults.2 hleft.2 hright.2)

theorem Routine.Twin.link (hr : r.Fair) : ∀ {site site' : Site} {marks : List Bool}
    {context : RoutineContext} {routine routine' : Routine},
    Routine.Twin r (Paired r) site marks context routine routine' →
    SitesTwin r marks site site' → site.Tidy marks →
    scopeFaults (routine.findings site context) = [] → N.TellsAll (routine.placed site context) →
    N'.TellsAll (routine'.placed site' context) →
    Routine.Twin r (Linked r N N') site marks context routine routine'
  | _, _, _, _, _, _, .mk mark hmark hparameters hbody, hsite, htidy, hfaults, hleft, hright => by
    simp only [Routine.findings, scopeFaults_append_eq_nil] at hfaults
    exact .mk mark hmark hparameters (hbody.link hr
      ((hsite.inner hmark _).introduceAll hparameters).1
      ((htidy.inner _ mark).introduceAll hparameters) hfaults.2 hleft hright)

theorem MethodsTwin.link (hr : r.Fair) : ∀ {site site' : Site} {marks : List Bool}
    {methods methods' : List Routine}, MethodsTwin r (Paired r) site marks methods methods' →
    SitesTwin r marks site site' → site.Tidy marks →
    scopeFaults (Routine.findingsAll site methods) = [] →
    N.TellsAll (Routine.placedAll site methods) → N'.TellsAll (Routine.placedAll site' methods') →
    MethodsTwin r (Linked r N N') site marks methods methods'
  | _, _, _, _, _, .nil, _, _, _, _, _ => .nil
  | _, _, _, _, _, .cons h hrest, hsite, htidy, hfaults, hleft, hright => by
    simp only [Routine.findingsAll, scopeFaults_append_eq_nil] at hfaults
    simp only [Routine.placedAll, Numbering.tellsAll_append, h.name_eq] at hleft hright
    exact .cons (h.link hr hsite htidy hfaults.1 hleft.1 hright.1)
      (hrest.link hr hsite htidy hfaults.2 hleft.2 hright.2)

end

end Link

end Treewalk
