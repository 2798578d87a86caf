import Treewalk.Proofs.Scope.Declared
import Treewalk.Proofs.Scope.Renumbered
import Treewalk.Proofs.Scope.Spots

/-!
# The walk follows the rules

What scope analysis finds at a landmark is what the scope rules say of it: the rule it breaks, and
the scope that its name belongs to. A walk finds this at every landmark on its way, and nothing
else.

## Main definitions

* `Finds` — what is found at a landmark is right
* `Walks` — what is found between two spots is found at the landmarks between them
* `Passes` — the landmarks between two spots

## Main results

* `walks_analyse` — the walk over a whole program

## Implementation notes

An assignment is listed before its value and walked after it, so that what is found in an expression
is known only up to its order.
-/

namespace Treewalk

/-! ### What is found at a landmark -/

/-- What is found at a landmark is the rule it breaks, if any, and the depth of its name. -/
structure Finds (spot : Spot) (landmark : Landmark) (findings : List Finding) : Prop where
  mem_faults : ∀ d, d ∈ scopeFaults findings ↔ Breaches spot landmark d
  length_le : (scopeFaults findings).length ≤ 1
  bound_mem : ∀ id depth, .bound id depth ∈ findings ↔ ∃ kind use,
    landmark.occurrence? = some (kind, use) ∧ use.id = id ∧ ¬Stray spot kind ∧
      Nearest spot use.name depth

/-- What is found when an expression uses a name. -/
def OccurrenceKind.findings (kind : OccurrenceKind) (site : Site) (use : Use) : List Finding :=
  match kind with
  | .variable => use.readFindings site
  | .assign => site.bind use
  | .this =>
    match site.classContext with
    | .none => [.fault use.token .thisOutsideClass]
    | _ => site.bind use
  | .super =>
    match site.classContext with
    | .none => .fault use.token .superOutsideClass :: site.bind use
    | .plain => .fault use.token .superWithoutSuperclass :: site.bind use
    | .subclass => site.bind use

theorem scopeFaults_cons_fault (anchor : Token) (cause : ScopeFault) (findings : List Finding) :
    scopeFaults (.fault anchor cause :: findings) = .scope anchor cause :: scopeFaults findings :=
  rfl

theorem Site.scopeFaults_introduce (site : Site) (name : Token) :
    scopeFaults (site.introduce name).1 =
      if site.declares name.lexeme then [.scope name .redeclared] else [] := by
  obtain ⟨_ | ⟨scope, outer⟩, routine, classContext⟩ := site
  · rfl
  · by_cases h : scope.contains name.lexeme <;>
      simp [introduce, declare, declares_cons, h, scopeFaults_cons_fault]

section Finds

variable {spot : Spot} {site : Site} {landmark : Landmark}

theorem Sees.declares_iff (h : Sees spot site) (name : String) : site.declares name = true ↔
    ∃ scope, (scopesOf spot.around).head? = some scope ∧ Declares spot.before scope name := by
  have hscopes := h.scopes
  obtain ⟨scopes, routine, classContext⟩ := site
  generalize scopesOf spot.around = enclosures at hscopes ⊢
  cases hscopes with
  | nil => simp [Site.declares]
  | cons hknows _ => simpa [Site.declares] using hknows name

/-- The beginning of a scope breaks no rule if it declares no name. -/
theorem finds_nil (hopens : landmark.opensScope = true) (hname : landmark.declared? = none) :
    Finds spot landmark [] := by
  refine ⟨fun d => ⟨fun h => absurd h List.not_mem_nil, fun h => ?_⟩, Nat.zero_le _,
    fun id depth => ?_⟩
  · cases h with
    | redeclared htoken => simp [hname] at htoken
    | _ => cases hopens
  · have hnone : landmark.occurrence? = none := by cases landmark <;> first | rfl | cases hopens
    simp [hnone]

theorem Sees.finds_introduce (h : Sees spot site) {token : Token}
    (htoken : landmark.declared? = some token) : Finds spot landmark (site.introduce token).1 := by
  have hnone : landmark.occurrence? = none := by cases landmark <;> first | rfl | cases htoken
  refine ⟨fun d => ?_, ?_, fun id depth => ?_⟩
  · rw [breaches_iff_of_declared? htoken, ← h.declares_iff, Site.scopeFaults_introduce]
    split <;> simp_all
  · rw [Site.scopeFaults_introduce]
    split <;> simp
  · simp [hnone, site.bound_notMem_introduce]

theorem Sees.finds_return (h : Sees spot site) (keyword : Token) (hasValue : Bool) :
    Finds spot (.return keyword hasValue) (returnFindings site keyword hasValue) := by
  refine ⟨fun d => ?_, ?_, fun id depth => ?_⟩
  · rw [breaches_return_iff, ← h.outsideFunction, ← h.inInitializer]
    cases hroutine : site.routine <;> cases hasValue <;>
      simp [returnFindings, hroutine, scopeFaults_cons_fault, eq_comm]
  · cases hroutine : site.routine <;> cases hasValue <;>
      simp [returnFindings, hroutine, scopeFaults_cons_fault]
  · simp [Landmark.occurrence?, bound_notMem_returnFindings]

theorem Sees.bound_mem_bind (h : Sees spot site) (use : Use) (id : NodeId) (depth : Nat) :
    .bound id depth ∈ site.bind use ↔ use.id = id ∧ Nearest spot use.name depth := by
  rw [Site.bound_mem_bind, h.depth?_eq_some]

/-- For a use of a name: what is found apart from a fault is the depth of the name, unless the use
is stray. -/
theorem Sees.finds_occurrence (h : Sees spot site) {kind : OccurrenceKind} {use : Use}
    (hlandmark : landmark.occurrence? = some (kind, use)) {findings : List Finding}
    (fault? : Option Diagnostic) (hfaults : scopeFaults findings = fault?.toList)
    (hbreaches : ∀ d, Breaches spot landmark d ↔ fault? = some d)
    (hbound : ∀ id depth, .bound id depth ∈ findings ↔
      ¬Stray spot kind ∧ .bound id depth ∈ site.bind use) : Finds spot landmark findings := by
  refine ⟨fun d => ?_, ?_, fun id depth => ?_⟩
  · rw [hfaults, hbreaches, Option.mem_toList]
  · rw [hfaults]
    cases fault? <;> simp
  · rw [hbound, h.bound_mem_bind, hlandmark]
    constructor
    · rintro ⟨hstray, hid, hnearest⟩
      exact ⟨kind, use, rfl, hid, hstray, hnearest⟩
    · rintro ⟨kind', use', heq, hid, hstray, hnearest⟩
      obtain ⟨rfl, rfl⟩ := Prod.mk.inj (Option.some.inj heq)
      exact ⟨hstray, hid, hnearest⟩

theorem Sees.finds_variable (h : Sees spot site) (use : Use) :
    Finds spot (.use .variable use) (use.readFindings site) := by
  refine h.finds_occurrence rfl
    (if site.isBeingInitialized use.name then some (.scope use.token .readInOwnInitializer)
      else none)
    ?_ (fun d => ?_) fun id depth => ?_
  · cases hinitializer : site.isBeingInitialized use.name <;>
      simp [Use.readFindings, hinitializer, scopeFaults_cons_fault]
  · rw [breaches_variable_iff, ← h.isBeingInitialized]
    cases site.isBeingInitialized use.name <;> simp
  · rw [Use.bound_mem_readFindings, Site.bound_mem_bind]
    simp [Stray]

theorem Sees.finds_assign (h : Sees spot site) (use : Use) :
    Finds spot (.use .assign use) (site.bind use) := by
  refine h.finds_occurrence rfl none (site.scopeFaults_bind use) (fun d => ?_)
    fun id depth => ?_
  · exact iff_of_false not_breaches_assign (by simp)
  · simp [Stray]

theorem Sees.finds_this (h : Sees spot site) (use : Use) :
    Finds spot (.use .this use) (OccurrenceKind.this.findings site use) := by
  have hstray : Stray spot .this ↔ site.classContext = .none := by
    simp [Stray, h.outsideClass]
  cases hclass : site.classContext with
  | none =>
    refine h.finds_occurrence rfl (some (.scope use.token .thisOutsideClass)) ?_
      (fun d => ?_) fun id depth => ?_
    · simp [OccurrenceKind.findings, hclass, scopeFaults_cons_fault]
    · simp [breaches_this_iff, ← h.outsideClass, hclass]
    · simp [OccurrenceKind.findings, hclass, hstray]
  | plain | subclass =>
    refine h.finds_occurrence rfl none ?_ (fun d => ?_) fun id depth => ?_
    · simp [OccurrenceKind.findings, hclass]
    · simp [breaches_this_iff, ← h.outsideClass, hclass]
    · simp [OccurrenceKind.findings, hclass, hstray]

theorem Sees.finds_super (h : Sees spot site) (use : Use) :
    Finds spot (.use .super use) (OccurrenceKind.super.findings site use) := by
  have hstray : ¬Stray spot .super := fun hstray => by cases hstray.1
  refine h.finds_occurrence rfl
    (match site.classContext with
      | .none => some (.scope use.token .superOutsideClass)
      | .plain => some (.scope use.token .superWithoutSuperclass)
      | .subclass => none)
    ?_ (fun d => ?_) fun id depth => ?_
  · cases hclass : site.classContext <;>
      simp [OccurrenceKind.findings, hclass, scopeFaults_cons_fault]
  · rw [breaches_super_iff, ← h.outsideClass, ← h.inPlainClass]
    cases site.classContext <;> simp
  · cases hclass : site.classContext <;> simp [OccurrenceKind.findings, hclass, hstray]

theorem Sees.finds_use (h : Sees spot site) (kind : OccurrenceKind) (use : Use) :
    Finds spot (.use kind use) (kind.findings site use) := by
  cases kind with
  | «variable» => exact h.finds_variable use
  | assign => exact h.finds_assign use
  | this => exact h.finds_this use
  | super => exact h.finds_super use

/-- A superclass clause stands in no initializer. -/
theorem Sees.finds_superclass (h : Sees spot site) (hplain : spot.Plain) (name : Token)
    (use : Use) : Finds spot (.superclass name use) (superclassFindings site name use) := by
  have hoccurrence : (Landmark.superclass name use).occurrence? = some (.variable, use) := rfl
  refine h.finds_occurrence hoccurrence
    (if use.name = name.lexeme then some (.scope use.token .selfInheritance) else none)
    ?_ (fun d => ?_) fun id depth => ?_
  · rw [superclassFindings, Use.readFindings, h.eq_false_of_plain hplain]
    split <;> simp [scopeFaults_cons_fault]
  · rw [breaches_superclass_iff]
    split <;> simp_all
  · rw [bound_mem_superclassFindings, Site.bound_mem_bind]
    simp [Stray]

end Finds

/-! ### What is found on the way -/

/-- Between two spots it is found what is found at each landmark between them, in some order. -/
inductive Walks : List Entry → List Entry → List Finding → Prop
  | refl (before : List Entry) : Walks before before []
  | step {before after : List Entry} {e : Entry} {first rest findings : List Finding}
      (h : Finds ⟨before, e.around⟩ e.landmark first) (hrest : Walks (before ++ [e]) after rest)
      (hperm : findings.Perm (first ++ rest)) : Walks before after findings

namespace Walks

variable {before before' after : List Entry} {findings findings' : List Finding}

theorem perm (h : Walks before after findings) (hperm : findings'.Perm findings) :
    Walks before after findings' := by
  cases h with
  | refl =>
    obtain rfl := hperm.eq_nil
    exact .refl before
  | step hfirst hrest hsplit => exact .step hfirst hrest (hperm.trans hsplit)

theorem trans (h : Walks before before' findings) (h' : Walks before' after findings') :
    Walks before after (findings ++ findings') := by
  induction h with
  | refl => exact h'
  | step hfirst _ hsplit ih =>
    refine .step hfirst (ih h') ?_
    rw [← List.append_assoc]
    exact hsplit.append_right findings'

theorem add {spot : Spot} {landmark : Landmark} (h : Finds spot landmark findings) :
    Walks spot.before (spot.add landmark).before findings :=
  .step h (.refl _) (by simp)

theorem isPrefix (h : Walks before after findings) : before <+: after := by
  induction h with
  | refl before => exact List.prefix_refl before
  | step _ _ _ ih => exact (List.prefix_append _ _).trans ih

/-- The entry that a walk begins with. -/
theorem getElem?_length {e : Entry} (h : Walks (before ++ [e]) after findings) :
    after[before.length]? = some e ∧ after.take before.length = before := by
  obtain ⟨new, rfl⟩ := h.isPrefix
  simp

end Walks

/-- A landmark on the way from one spot to another one. -/
inductive Passes (before after : List Entry) : Nat → Spot → Landmark → Prop
  | mk {position : Nat} {e : Entry} (hle : before.length ≤ position)
      (h : after[position]? = some e) :
      Passes before after position ⟨after.take position, e.around⟩ e.landmark

section Passes

variable {before after : List Entry} {position : Nat} {spot : Spot} {landmark : Landmark}

theorem not_passes_self : ¬Passes before before position spot landmark := by
  rintro ⟨hle, he⟩
  rw [List.getElem?_eq_none hle] at he
  cases he

/-- A walk passes the landmark it begins with and those behind it. -/
theorem Walks.passes_iff {e : Entry} {findings : List Finding}
    (h : Walks (before ++ [e]) after findings) : Passes before after position spot landmark ↔
      (position = before.length ∧ spot = ⟨before, e.around⟩ ∧ landmark = e.landmark) ∨
        Passes (before ++ [e]) after position spot landmark := by
  obtain ⟨hentry, htake⟩ := h.getElem?_length
  constructor
  · rintro ⟨hle, he⟩
    obtain rfl | hlt := Nat.eq_or_lt_of_le hle
    · obtain rfl := Option.some.inj (hentry.symm.trans he)
      exact .inl ⟨rfl, by rw [htake], rfl⟩
    · exact .inr (.mk (List.length_append.trans_le hlt) he)
  · rintro (⟨rfl, rfl, rfl⟩ | ⟨hle, he⟩)
    · have hpasses := Passes.mk (Nat.le_refl before.length) hentry
      rwa [htake] at hpasses
    · rw [List.length_append] at hle
      exact .mk (Nat.le_of_add_right_le hle) he

theorem stands_iff_passes {program : List Stmt} : Stands program position spot landmark ↔
    Passes [] (outline program) position spot landmark := by
  constructor
  · rintro ⟨he⟩
    exact .mk (Nat.zero_le _) he
  · rintro ⟨-, he⟩
    exact .mk he

end Passes

/-! ### Expressions -/

mutual

theorem Expr.findings_perm (site : Site) (e : Expr) :
    (e.findings site).Perm (e.occurrences.flatMap fun o => o.kind.findings site o.use) := by
  match e with
  | .literal _ => exact .refl _
  | .unary _ operand => exact Expr.findings_perm site operand
  | .group inner => exact Expr.findings_perm site inner
  | .property object _ => exact Expr.findings_perm site object
  | .binary left _ right | .logical left _ right =>
    rw [Expr.findings, Expr.occurrences, List.flatMap_append]
    exact (Expr.findings_perm site left).append (Expr.findings_perm site right)
  | .variable use | .this use | .super use _ =>
    rw [Expr.findings, Expr.occurrences, List.flatMap_singleton]
    exact .refl _
  | .assign target value =>
    rw [Expr.findings, Expr.occurrences, List.flatMap_cons]
    exact ((Expr.findings_perm site value).append_right _).trans List.perm_append_comm
  | .call callee _ arguments =>
    rw [Expr.findings, Expr.occurrences, List.flatMap_append]
    exact (Expr.findings_perm site callee).append (Expr.findingsAll_perm site arguments)
  | .setProperty object _ value =>
    rw [Expr.findings, Expr.occurrences, List.flatMap_append]
    exact ((Expr.findings_perm site value).append (Expr.findings_perm site object)).trans
      List.perm_append_comm

theorem Expr.findingsAll_perm (site : Site) (es : List Expr) : (Expr.findingsAll site es).Perm
    ((Expr.occurrencesAll es).flatMap fun o => o.kind.findings site o.use) := by
  match es with
  | [] => exact .refl _
  | e :: rest =>
    rw [Expr.findingsAll, Expr.occurrencesAll, List.flatMap_append]
    exact (Expr.findings_perm site e).append (Expr.findingsAll_perm site rest)

end

/-- The walk comes from one spot to another one, where it sees what the rules say. -/
structure Follows (spot spot' : Spot) (findings : List Finding) (site' : Site) : Prop where
  walks : Walks spot.before spot'.before findings
  sees : Sees spot' site'

section Follows

variable {spot spot' spot'' inner : Spot} {site site' site'' : Site} {landmark : Landmark}
  {findings findings' : List Finding}

theorem Sees.refl (h : Sees spot site) : Follows spot spot [] site := ⟨.refl _, h⟩

theorem Follows.trans (h : Follows spot spot' findings site')
    (h' : Follows spot' spot'' findings' site'') :
    Follows spot spot'' (findings ++ findings') site'' :=
  ⟨h.walks.trans h'.walks, h'.sees⟩

/-- The walk over a landmark that declares no name. -/
theorem Sees.follows_add (h : Sees spot site) (landmark : Landmark)
    (hlandmark : landmark.declared? = none) (hfinds : Finds spot landmark findings) :
    Follows spot (spot.add landmark) findings site :=
  ⟨.add hfinds, h.add hlandmark⟩

/-- The walk over a declaration. -/
theorem Sees.follows_introduce (h : Sees spot site) (hplain : spot.Plain) (landmark : Landmark)
    {token : Token} (htoken : landmark.declared? = some token) :
    Follows spot (spot.add landmark) (site.introduce token).1 (site.introduce token).2 :=
  ⟨.add (h.finds_introduce htoken), h.introduce hplain htoken⟩

/-- The walk over a scope, from the landmark that opens it. -/
theorem Follows.leave (h : Follows (spot.enter landmark) inner findings site')
    (hspot : spot.Ordered) (hsees : Sees (spot.add landmark) site)
    (hopens : landmark.opensScope = true) (hgrows : Grows (spot.enter landmark) inner) :
    Follows (spot.add landmark) (spot.leave inner) findings site :=
  ⟨h.walks, hsees.leave hspot hopens hgrows h.sees.ordered⟩

/-- The walk over a scope whose landmark declares no name. -/
theorem Sees.follows_scope (h : Sees spot site) (hlandmark : landmark.declared? = none)
    (hopens : landmark.opensScope = true)
    (hinner : Follows (spot.enter landmark) inner findings site')
    (hgrows : Grows (spot.enter landmark) inner) :
    Follows spot (spot.leave inner) findings site := by
  have hbegin := h.follows_add landmark hlandmark (finds_nil hopens hlandmark)
  exact hbegin.trans (hinner.leave h.ordered hbegin.sees hopens hgrows)

theorem Sees.follows_occurrences (h : Sees spot site) (occurrences : List Occurrence) :
    Follows spot (spot.addAll (occurrences.map fun o => .use o.kind o.use))
      (occurrences.flatMap fun o => o.kind.findings site o.use) site := by
  induction occurrences generalizing spot with
  | nil => exact h.refl
  | cons o rest ih =>
    have hfollows := h.follows_add _ rfl (h.finds_use o.kind o.use)
    exact hfollows.trans (ih hfollows.sees)

/-- The walk over an expression. -/
theorem Sees.follows_expr (h : Sees spot site) (e : Expr) :
    Follows spot (spot.addAll e.landmarks) (e.findings site) site := by
  obtain ⟨hwalks, hsees⟩ := h.follows_occurrences e.occurrences
  exact ⟨hwalks.perm (e.findings_perm site), hsees⟩

/-- The walk over parameters. -/
theorem Sees.follows_introduceAll (h : Sees spot site) (hplain : spot.Plain)
    (parameters : List Token) :
    Follows spot (spot.addAll (parameters.map .parameter)) (site.introduceAll parameters).1
      (site.introduceAll parameters).2 := by
  induction parameters generalizing spot site with
  | nil => exact h.refl
  | cons name rest ih =>
    have hname := h.follows_introduce hplain (.parameter name) rfl
    exact hname.trans (ih hname.sees hplain)

/-- The walk over a variable with its initializer, in which the variable is not defined yet. -/
theorem Sees.follows_initializer (h : Sees spot site) (hplain : spot.Plain) (name : Token)
    (value : Expr) : Follows spot (spot.leave ((spot.enter (.var name)).addAll value.landmarks))
      ((site.declare name).1 ++ value.findings (site.declare name).2) (site.introduce name).2 := by
  have hname := h.follows_introduce hplain (.var name) rfl
  have hvalue := (h.declare hplain name).follows_expr value
  refine ⟨hname.walks.trans hvalue.walks, ?_⟩
  have hgrows := Grows.addAll (spot.enter (.var name)) value.landmarks
  -- what an expression uses declares nothing
  refine hname.sees.congr rfl ?_ (hvalue.sees.ordered.leave hgrows) fun enclosure _ other => ?_
  · obtain ⟨new, hnew, -⟩ := hgrows.exists_new
    exact ⟨new, hnew.symm⟩
  · refine declares_addAll_of_declared?_eq_none fun l hl => ?_
    obtain ⟨o, -, rfl⟩ := List.mem_map.1 hl
    rfl

/-- In a new scope without names the walk sees the scopes around it and no other name. -/
theorem Sees.enter_empty (h : Sees (spot.add landmark) site) (hspot : spot.Ordered)
    (hplain : spot.Plain) (hopens : landmark.opensScope = true)
    (himplicit : landmark.implicit? = none) (hscopes : site'.scopes = .empty :: site.scopes)
    (hcontexts : Contexts (spot.enter landmark) site') : Sees (spot.enter landmark) site' :=
  h.enter hspot hplain hopens hscopes (by simp [NameMap.contains, himplicit]) (by simp) hcontexts

theorem Sees.enter_single (h : Sees (spot.add landmark) site) (hspot : spot.Ordered)
    (hplain : spot.Plain) (hopens : landmark.opensScope = true) {name : String}
    (himplicit : landmark.implicit? = some name)
    (hscopes : site'.scopes = .single name :: site.scopes)
    (hcontexts : Contexts (spot.enter landmark) site') : Sees (spot.enter landmark) site' := by
  refine h.enter hspot hplain hopens hscopes (fun other => ?_) (fun other => ?_) hcontexts
  · rw [himplicit, Scope.single, NameMap.contains_set]
    simpa [NameMap.contains] using eq_comm
  · rw [Scope.single, NameMap.get?_set]
    split <;> simp

/-- The walk over a class without superclass, behind its name. -/
theorem Sees.follows_plainClass (h : Sees spot site) (hplain : spot.Plain) {methods : List Routine}
    (hmethods : ∀ spot site, Sees spot site → spot.Plain →
      Follows spot (Routine.behindAll spot methods) (Routine.findingsAll site methods) site) :
    Follows spot (spot.leave (Routine.behindAll (spot.enter (.classBody none)) methods))
      (Routine.findingsAll (site.enterClass none) methods) site := by
  have hinner : Sees (spot.enter (.classBody none)) (site.enterClass none) :=
    (h.add rfl).enter_single h.ordered hplain rfl rfl rfl
      (h.toContexts.enter_classBody none rfl rfl)
  exact h.follows_scope rfl rfl (hmethods _ _ hinner (hplain.enter rfl))
    (Routine.grows_behindAll _ methods)

/-- The walk over a subclass, behind its superclass clause. -/
theorem Sees.follows_subclass (h : Sees spot site) (hplain : spot.Plain) (use : Use)
    {methods : List Routine} (hmethods : ∀ spot site, Sees spot site → spot.Plain →
      Follows spot (Routine.behindAll spot methods) (Routine.findingsAll site methods) site) :
    Follows spot (spot.leave (Routine.behindAll
        ((spot.enter .superScope).enter (.classBody (some use))) methods))
      (Routine.findingsAll (site.enterClass (some use)) methods) site := by
  have hsuper : Sees (spot.enter .superScope) (site.enter (.single "super")) :=
    (h.add rfl).enter_single h.ordered hplain rfl rfl rfl (h.toContexts.enter rfl rfl rfl rfl)
  have hplain' : (spot.enter .superScope).Plain := hplain.enter rfl
  have hinner : Sees ((spot.enter .superScope).enter (.classBody (some use)))
      (site.enterClass (some use)) :=
    (hsuper.add rfl).enter_single hsuper.ordered hplain' rfl rfl rfl
      (hsuper.toContexts.enter_classBody (some use) rfl rfl)
  have hbody := hsuper.follows_scope rfl rfl (hmethods _ _ hinner (hplain'.enter rfl))
    (Routine.grows_behindAll _ methods)
  have hscope := h.follows_scope rfl rfl hbody (.leave (Routine.grows_behindAll _ methods))
  exact hscope

theorem Sees.follows_class (h : Sees spot site) (hplain : spot.Plain) (name : Token)
    (superclass : Option Use) {methods : List Routine}
    (hmethods : ∀ spot site, Sees spot site → spot.Plain →
      Follows spot (Routine.behindAll spot methods) (Routine.findingsAll site methods) site) :
    Follows spot ((Stmt.class name superclass methods).behind spot)
      ((Stmt.class name superclass methods).analyse site).1
      ((Stmt.class name superclass methods).analyse site).2 := by
  have hname := h.follows_introduce hplain (.class name) rfl
  cases superclass with
  | none =>
    exact (hname.trans hname.sees.refl).trans (hname.sees.follows_plainClass hplain hmethods)
  | some use =>
    have hclause := hname.sees.follows_add (.superclass name use) rfl
      (hname.sees.finds_superclass hplain name use)
    exact (hname.trans hclause).trans (hclause.sees.follows_subclass hplain use hmethods)

end Follows

mutual

/-- The walk over a statement. -/
theorem Sees.follows_stmt {spot : Spot} {site : Site} (h : Sees spot site) (hplain : spot.Plain)
    (s : Stmt) : Follows spot (s.behind spot) (s.analyse site).1 (s.analyse site).2 := by
  match s with
  | .expression value | .print value => exact h.follows_expr value
  | .var name none => exact h.follows_introduce hplain (.var name) rfl
  | .var name (some value) => exact h.follows_initializer hplain name value
  | .block body =>
    have hinner : Sees (spot.enter .block) (site.enter .empty) :=
      (h.add rfl).enter_empty h.ordered hplain rfl rfl rfl (h.toContexts.enter rfl rfl rfl rfl)
    exact h.follows_scope rfl rfl (hinner.follows_stmts (hplain.enter rfl) body)
      (Stmt.grows_behindAll _ body)
  | .if condition branch none =>
    have hcondition := h.follows_expr condition
    have hplain' := hplain.grows (.addAll spot condition.landmarks)
    exact hcondition.trans (hcondition.sees.follows_stmt hplain' branch)
  | .if condition branch (some other) =>
    have hcondition := h.follows_expr condition
    have hplain' := hplain.grows (.addAll spot condition.landmarks)
    have hbranch := hcondition.sees.follows_stmt hplain' branch
    have hplain'' := hplain'.grows (Stmt.grows_behind _ branch)
    exact (hcondition.trans hbranch).trans (hbranch.sees.follows_stmt hplain'' other)
  | .while condition body =>
    have hcondition := h.follows_expr condition
    have hplain' := hplain.grows (.addAll spot condition.landmarks)
    exact hcondition.trans (hcondition.sees.follows_stmt hplain' body)
  | .function routine =>
    have hname := h.follows_introduce hplain (.function routine.name) rfl
    have hcontexts : Contexts spot (site.introduce routine.name).2 :=
      hname.sees.toContexts.of_around_eq rfl
    have hinner : Sees (spot.enter (.function routine.name))
        ({ (site.introduce routine.name).2 with routine := .function }.enter .empty) :=
      hname.sees.enter_empty h.ordered hplain rfl rfl rfl
        (hcontexts.enter_function routine.name rfl rfl)
    obtain ⟨site', hbody⟩ := hinner.follows_routine (hplain.enter rfl) routine
    exact hname.trans (hbody.leave h.ordered hname.sees rfl (Routine.grows_behind _ routine))
  | .return keyword none => exact h.follows_add _ rfl (h.finds_return keyword false)
  | .return keyword (some value) =>
    have hreturn := h.follows_add _ rfl (h.finds_return keyword true)
    exact hreturn.trans (hreturn.sees.follows_expr value)
  | .class name superclass methods =>
    exact h.follows_class hplain name superclass fun spot site hsees hplain =>
      hsees.follows_methods hplain methods

theorem Sees.follows_stmts {spot : Spot} {site : Site} (h : Sees spot site) (hplain : spot.Plain)
    (ss : List Stmt) : Follows spot (Stmt.behindAll spot ss) (Stmt.analyseAll site ss).1
      (Stmt.analyseAll site ss).2 := by
  match ss with
  | [] => exact h.refl
  | s :: rest =>
    have hfirst := h.follows_stmt hplain s
    exact hfirst.trans (hfirst.sees.follows_stmts (hplain.grows (Stmt.grows_behind spot s)) rest)

/-- The walk over the parameters and the body of a function. -/
theorem Sees.follows_routine {spot : Spot} {site : Site} {context : RoutineContext}
    (h : Sees spot ({ site with routine := context }.enter .empty)) (hplain : spot.Plain)
    (r : Routine) : ∃ site', Follows spot (r.behind spot) (r.findings site context) site' := by
  match r with
  | ⟨_, parameters, body⟩ =>
    have hparameters := h.follows_introduceAll hplain parameters
    have hplain' := hplain.grows (.addAll spot (parameters.map .parameter))
    exact ⟨_, hparameters.trans (hparameters.sees.follows_stmts hplain' body)⟩

/-- The walk over the methods of a class. -/
theorem Sees.follows_methods {spot : Spot} {site : Site} (h : Sees spot site) (hplain : spot.Plain)
    (rs : List Routine) :
    Follows spot (Routine.behindAll spot rs) (Routine.findingsAll site rs) site := by
  match rs with
  | [] => exact h.refl
  | r :: rest =>
    have hinner : Sees (spot.enter (.method r.name))
        ({ site with routine := methodContext r.name }.enter .empty) :=
      (h.add rfl).enter_empty h.ordered hplain rfl rfl rfl
        (h.toContexts.enter_method r.name rfl rfl)
    obtain ⟨site', hbody⟩ := hinner.follows_routine (hplain.enter rfl) r
    have hmethod := h.follows_scope rfl rfl hbody (Routine.grows_behind _ r)
    exact hmethod.trans (hmethod.sees.follows_methods hplain rest)

end

/-- The walk over a whole program. -/
theorem walks_analyse (program : List Stmt) : Walks [] (outline program) (analyse program) :=
  (sees_top.follows_stmts Spot.plain_top program).walks

end Treewalk
