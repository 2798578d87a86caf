import Treewalk.Proofs.Scope.Ledger
import Treewalk.Proofs.Scope.Settled

/-!
# Balanced calls

Every call of the walk over a ledger leaves it as it was, apart from what the call is for: scopes
that are opened are closed again, the kinds of the surrounding function and class are put back, and
only the innermost scope gains names, which are defined. That is so after every call, whether or not
it found faults.

## Main definitions

* `Stmt.declaredNames` — the names that a statement declares in the scope around it
* `Site.Grows` — two places that differ in names gained by the innermost scope
* `Call.Balanced` — a call that is balanced
* `Survey.Reaches` — what a piece of work does at a place, with balanced calls only

## Main results

* `survey_balanced` — the walk over a program finds what `analyse` finds, and all its calls are
  balanced

## Implementation notes

A name that a statement declares again is not gained, and would not keep its state if it were not
defined yet. Only the name of a variable is undefined, and only while its initializer is walked, in
which there are no statements: all names are defined where a statement begins (`Site.Settled`).
-/

namespace Treewalk

/-! ### Ledgers and places -/

namespace Ledger

theorem follow_nil (l : Ledger) (site : Site) :
    l.follow ([], site) = { l with toSite := site } := by
  simp [follow, scopeFaults, DepthTable.recordAll]

theorem follow_follow (l : Ledger) (first second : List Finding × Site) :
    (l.follow first).follow second = l.follow (first.1 ++ second.1, second.2) := by
  simp [follow, scopeFaults, DepthTable.recordAll]

theorem fault_eq (l : Ledger) (anchor : Token) (cause : ScopeFault) :
    l.fault anchor cause = l.follow ([.fault anchor cause], l.toSite) := rfl

theorem bind_eq (l : Ledger) (use : Use) : l.bind use = l.follow (l.toSite.bind use, l.toSite) := by
  rw [bind, Site.bind]
  cases l.depth? use.name with
  | none => exact (l.follow_nil l.toSite).symm
  | some depth =>
    simp [follow, scopeFaults, Finding.diagnostic?, DepthTable.recordAll, Finding.recordIn]

theorem declare_eq (l : Ledger) (name : Token) :
    l.declare name = l.follow (l.toSite.declare name) := by
  obtain ⟨⟨scopes, routine, classContext⟩, faults, table⟩ := l
  cases scopes with
  | nil => simp [declare, Site.declare, follow_nil]
  | cons scope outer =>
    by_cases h : scope.contains name.lexeme
    · simp [declare, Site.declare, h, fault_eq]
    · simp [declare, Site.declare, h, follow_nil]

theorem define_eq (l : Ledger) (name : Token) :
    l.define name.lexeme = l.follow ([], l.toSite.define name) := by
  obtain ⟨⟨scopes, routine, classContext⟩, faults, table⟩ := l
  cases scopes <;> simp [define, Site.define, follow_nil]

end Ledger

/-! ### Places with more names -/

/-- The names that a statement declares in the scope in which it stands. -/
def Stmt.declaredNames : Stmt → List String
  | .var name _ => [name.lexeme]
  | .function routine => [routine.name.lexeme]
  | .class name _ _ => [name.lexeme]
  | .if _ branch none => branch.declaredNames
  | .if _ branch (some other) => branch.declaredNames ++ other.declaredNames
  | .while _ body => body.declaredNames
  | .expression _ | .print _ | .block _ | .return _ _ => []

/-- The innermost scope has gained, as defined names, those of `names` that it did not hold; nothing
else has changed. -/
structure Site.Grows (names : List String) (site site' : Site) : Prop where
  height : site'.scopes.length = site.scopes.length
  outer : site'.scopes.tail = site.scopes.tail
  innermost : ∀ scope ∈ site.scopes.head?, ∀ scope' ∈ site'.scopes.head?, ∀ name,
    scope'.get? name =
      if scope.get? name = none ∧ name ∈ names then some true else scope.get? name
  routine : site'.routine = site.routine
  classContext : site'.classContext = site.classContext

namespace Site

theorem Grows.refl (site : Site) : site.Grows [] site where
  height := rfl
  outer := rfl
  innermost scope hscope scope' hscope' name := by
    obtain rfl := Option.mem_unique hscope hscope'
    simp
  routine := rfl
  classContext := rfl

theorem Grows.trans {names names' : List String} {site site' site'' : Site}
    (h : site.Grows names site') (h' : site'.Grows names' site'') :
    site.Grows (names ++ names') site'' where
  height := h'.height.trans h.height
  outer := h'.outer.trans h.outer
  innermost scope hscope scope'' hscope'' name := by
    obtain ⟨scope', hscope'⟩ : ∃ scope', scope' ∈ site'.scopes.head? := by
      have hlength := h.height
      revert hlength hscope
      cases site'.scopes <;> cases site.scopes <;> simp
    rw [h'.innermost scope' hscope' scope'' hscope'', h.innermost scope hscope scope' hscope']
    by_cases hnone : scope.get? name = none <;> by_cases hmem : name ∈ names <;> simp [hnone, hmem]
  routine := h'.routine.trans h.routine
  classContext := h'.classContext.trans h.classContext

theorem Settled.grows_introduce {site : Site} (h : site.Settled) (name : Token) :
    site.Grows [name.lexeme] (site.introduce name).2 := by
  obtain ⟨scopes, routine, classContext⟩ := site
  cases scopes with
  | nil => exact ⟨rfl, rfl, nofun, rfl, rfl⟩
  | cons scope outer =>
    obtain ⟨scope', hscope', hself, hother⟩ := introduce_cons scope outer routine classContext name
    rw [hscope']
    refine ⟨rfl, rfl, ?_, rfl, rfl⟩
    rintro _ ⟨⟩ _ ⟨⟩ key
    by_cases hkey : key = name.lexeme
    · subst hkey
      -- a name that is there already is defined, so that it keeps its state
      have hdefined := h scope List.mem_cons_self name.lexeme
      rw [hself]
      cases hget : scope.get? name.lexeme with
      | none => simp
      | some defined => cases defined <;> simp_all
    · simp [hother key hkey, hkey]

theorem Settled.grows_introduceAll {site : Site} (h : site.Settled) (names : List Token) :
    ∃ gained, site.Grows gained (site.introduceAll names).2 := by
  induction names generalizing site with
  | nil => exact ⟨[], .refl site⟩
  | cons name rest ih =>
    obtain ⟨gained, hgrows⟩ := ih (h.introduce name)
    exact ⟨_, (h.grows_introduce name).trans hgrows⟩

/-- A scope that was opened is closed again. -/
theorem Grows.endScope_eq {names : List String} {site site' : Site} {scope : Scope}
    (h : (site.enter scope).Grows names site') :
    { site' with scopes := site'.scopes.tail } = site := by
  obtain ⟨scopes, routine, classContext⟩ := site'
  obtain ⟨-, houter, -, hroutine, hclass⟩ := h
  dsimp only at houter hroutine hclass
  rw [houter, hroutine, hclass]
  rfl

theorem Grows.eq_top {names : List String} {site : Site} (h : top.Grows names site) :
    site = top := by
  obtain ⟨scopes, routine, classContext⟩ := site
  obtain ⟨hheight, -, -, rfl, rfl⟩ := h
  obtain rfl := List.length_eq_zero_iff.1 hheight
  rfl

theorem introduce_withClass (site : Site) (context : ClassContext) (name : Token) :
    introduce { site with classContext := context } name =
      ((site.introduce name).1, { (site.introduce name).2 with classContext := context }) := by
  obtain ⟨scopes, routine, classContext⟩ := site
  cases scopes with
  | nil => rfl
  | cons scope outer =>
    by_cases h : scope.contains name.lexeme <;> simp [introduce, declare, define, h]

end Site

/-- What a statement does to the scopes around it. -/
theorem Stmt.grows {site : Site} (h : site.Settled) (s : Stmt) :
    site.Grows s.declaredNames (s.analyse site).2 := by
  match s with
  | .expression _ | .print _ | .block _ | .return _ none | .return _ (some _) => exact .refl site
  | .var name none | .var name (some _) => exact h.grows_introduce name
  | .if _ branch none | .while _ branch => exact branch.grows h
  | .if _ branch (some other) => exact (branch.grows h).trans (other.grows (h.analyse branch))
  | .function routine => exact h.grows_introduce routine.name
  | .class name _ _ => exact h.grows_introduce name

theorem Stmt.growsAll {site : Site} (h : site.Settled) (ss : List Stmt) :
    ∃ gained, site.Grows gained (Stmt.analyseAll site ss).2 := by
  induction ss generalizing site with
  | nil => exact ⟨[], .refl site⟩
  | cons s rest ih =>
    obtain ⟨gained, hgrows⟩ := ih (h.analyse s)
    exact ⟨_, (s.grows h).trans hgrows⟩

/-! ### Balanced calls -/

/-- The numbers of the uses inside a node. -/
def Node.ids : Node → List NodeId
  | .expr e => e.occurrences.map (·.use.id)
  | .stmt s => s.occurrences.map (·.use.id)
  | .class name superclass methods =>
    (Stmt.class name superclass methods).occurrences.map (·.use.id)
  | .routine _ r => r.occurrences.map (·.use.id)

/-- The names that a node declares in the scope in which it stands. The parameters of a routine are
declared inside it. -/
def Node.declaredNames : Node → List String
  | .expr _ | .routine _ _ => []
  | .stmt s => s.declaredNames
  | .class name _ _ => [name.lexeme]

/-- A call that leaves the scopes and the context as they were, apart from the names that its node
declares. The faults before it come first in those behind it, and the table changes for the uses in
its node only. -/
structure Call.Balanced (c : Call) : Prop where
  grows : c.before.Grows c.node.declaredNames c.after.toSite
  faults : c.before.faults <+: c.after.faults
  table : ∀ id ∉ c.node.ids, c.after.table.depth? id = c.before.table.depth? id

theorem HasDepth.mem_ids {placed : List (Site × Use)} {occurrences : List Occurrence}
    (h : placed.map Prod.snd = occurrences.map Occurrence.use) {id : NodeId} {depth : Nat}
    (hdepth : HasDepth placed id depth) : id ∈ occurrences.map (·.use.id) := by
  obtain ⟨x, hx, hid, -⟩ := hdepth
  have hmem : x.2 ∈ occurrences.map Occurrence.use := h ▸ List.mem_map_of_mem hx
  obtain ⟨o, ho, huse⟩ := List.mem_map.1 hmem
  exact List.mem_map.2 ⟨o, ho, by rw [huse, hid]⟩

theorem Call.Balanced.of_follow {node : Node} {site : Site} {result : List Finding × Site}
    (hgrows : site.Grows node.declaredNames result.2)
    (hids : ∀ id depth, .bound id depth ∈ result.1 → id ∈ node.ids) (l : Ledger)
    (hl : l.toSite = site) : Call.Balanced ⟨node, l, l.follow result⟩ where
  grows := hl ▸ hgrows
  faults := List.prefix_append _ _
  table id hid :=
    DepthTable.depth?_recordAll_of_notMem fun depth hbound => hid (hids id depth hbound)

/-! ### What a piece of work does -/

namespace Survey

theorem run_logged (node : Node) (m : Survey Unit) (l : Ledger) (calls : List Call) :
    (logged node m).run (l, calls) =
      let (after, calls') := (m.run (l, calls)).2
      ((), (after, calls' ++ [⟨node, l, after⟩])) := rfl

/-- From every ledger at the place, the work reaches the findings and the place of `result`, and
all calls it makes are balanced. -/
def Reaches (m : Survey Unit) (site : Site) (result : List Finding × Site) : Prop :=
  ∀ l : Ledger, l.toSite = site → ∀ calls, ∃ added,
    m.run (l, calls) = ((), (l.follow result, calls ++ added)) ∧ ∀ c ∈ added, c.Balanced

variable {m m' : Survey Unit} {site site' : Site} {result : List Finding × Site}

theorem Reaches.pure (site : Site) : Reaches (pure ()) site ([], site) := by
  rintro l rfl calls
  exact ⟨[], by rw [Ledger.follow_nil, List.append_nil]; rfl, by simp⟩

theorem Reaches.bind {found : List Finding} (h : m.Reaches site (found, site'))
    (h' : m'.Reaches site' result) :
    Reaches (m >>= fun _ => m') site (found ++ result.1, result.2) := by
  intro l hl calls
  obtain ⟨added, hrun, hadded⟩ := h l hl calls
  obtain ⟨added', hrun', hadded'⟩ := h' (l.follow (found, site')) rfl (calls ++ added)
  refine ⟨added ++ added', ?_, fun c hc => (List.mem_append.1 hc).elim (hadded c) (hadded' c)⟩
  rw [StateT.run_bind, hrun]
  exact hrun'.trans (by rw [Ledger.follow_follow, List.append_assoc])

/-- Work without findings comes first. -/
theorem Reaches.move (h : m.Reaches site ([], site')) (h' : m'.Reaches site' result) :
    Reaches (m >>= fun _ => m') site result := h.bind h'

/-- Work without findings comes last. -/
theorem Reaches.finish {found : List Finding} {site'' : Site} (h : m.Reaches site (found, site'))
    (h' : m'.Reaches site' ([], site'')) : Reaches (m >>= fun _ => m') site (found, site'') := by
  simpa using h.bind h'

theorem reaches_change {f : Ledger → Ledger}
    (h : ∀ l : Ledger, l.toSite = site → f l = l.follow result) :
    (change f).Reaches site result := by
  intro l hl calls
  exact ⟨[], by rw [← h l hl, List.append_nil]; rfl, by simp⟩

theorem reaches_ledger {k : Ledger → Survey Unit}
    (h : ∀ l : Ledger, l.toSite = site → (k l).Reaches site result) :
    Reaches (ledger >>= k) site result := fun l hl => h l hl l hl

theorem Reaches.logged {node : Node} (h : m.Reaches site result)
    (hgrows : site.Grows node.declaredNames result.2)
    (hids : ∀ id depth, .bound id depth ∈ result.1 → id ∈ node.ids) :
    (logged node m).Reaches site result := by
  intro l hl calls
  obtain ⟨added, hrun, hadded⟩ := h l hl calls
  refine ⟨added ++ [⟨node, l, l.follow result⟩], ?_, ?_⟩
  · rw [run_logged, hrun, ← List.append_assoc]
  · intro c hc
    obtain hc | hc := List.mem_append.1 hc
    · exact hadded c hc
    · obtain rfl := List.mem_singleton.1 hc
      exact .of_follow hgrows hids l hl

theorem reaches_fault (site : Site) (anchor : Token) (cause : ScopeFault) :
    (change (.fault anchor cause)).Reaches site ([.fault anchor cause], site) :=
  reaches_change fun l hl => hl ▸ l.fault_eq anchor cause

/-- A fault that is found on a condition, before the rest of the work. -/
theorem Reaches.after_fault {found : List Finding} (h : m.Reaches site (found, site')) (c : Prop)
    [Decidable c] (anchor : Token) (cause : ScopeFault) :
    Reaches (if c then change (.fault anchor cause) >>= fun _ => m else m) site
      ((if c then [.fault anchor cause] else []) ++ found, site') := by
  split
  · exact (reaches_fault site anchor cause).bind h
  · exact h

theorem reaches_bind (site : Site) (use : Use) :
    (change (.bind use)).Reaches site (site.bind use, site) :=
  reaches_change fun l hl => hl ▸ l.bind_eq use

theorem reaches_declare (site : Site) (name : Token) :
    (change (.declare name)).Reaches site (site.declare name) :=
  reaches_change fun l hl => hl ▸ l.declare_eq name

theorem reaches_define (site : Site) (name : Token) :
    (change (.define name.lexeme)).Reaches site ([], site.define name) :=
  reaches_change fun l hl => hl ▸ l.define_eq name

end Survey

open Survey

theorem Use.reaches (site : Site) (use : Use) :
    use.survey.Reaches site (use.readFindings site, site) := by
  refine reaches_ledger fun l hl => ?_
  subst hl
  exact (reaches_bind _ use).after_fault _ use.token .readInOwnInitializer

/-- The call for an expression. -/
theorem Survey.Reaches.expr {m : Survey Unit} {site : Site} {e : Expr}
    (h : m.Reaches site (e.findings site, site)) :
    (Survey.logged (.expr e) m).Reaches site (e.findings site, site) :=
  h.logged (.refl site) fun _ _ hbound =>
    (Expr.hasDepth_of_bound hbound).mem_ids (e.map_placed site)

mutual

theorem Expr.reaches (site : Site) (e : Expr) : e.survey.Reaches site (e.findings site, site) := by
  unfold Expr.survey
  refine Survey.Reaches.expr ?_
  match e with
  | .literal _ => exact .pure site
  | .unary _ operand => exact operand.reaches site
  | .binary left _ right | .logical left _ right =>
    exact (left.reaches site).bind (right.reaches site)
  | .group inner => exact inner.reaches site
  | .variable use => exact use.reaches site
  | .assign target value => exact (value.reaches site).bind (reaches_bind site target)
  | .call callee _ arguments => exact (callee.reaches site).bind (Expr.reachesAll site arguments)
  | .property object _ => exact object.reaches site
  | .setProperty object _ value => exact (value.reaches site).bind (object.reaches site)
  | .this use =>
    refine reaches_ledger fun l hl => ?_
    subst hl
    rw [Expr.findings]
    cases l.classContext with
    | none => exact reaches_fault _ use.token .thisOutsideClass
    | plain | subclass => exact reaches_bind _ use
  | .super use _ =>
    refine reaches_ledger fun l hl => ?_
    subst hl
    rw [Expr.findings]
    cases l.classContext with
    | none => exact (reaches_fault _ use.token .superOutsideClass).bind (reaches_bind _ use)
    | plain => exact (reaches_fault _ use.token .superWithoutSuperclass).bind (reaches_bind _ use)
    | subclass => exact reaches_bind _ use

theorem Expr.reachesAll (site : Site) (es : List Expr) :
    (Expr.surveyAll es).Reaches site (Expr.findingsAll site es, site) := by
  match es with
  | [] => exact .pure site
  | e :: rest => exact (e.reaches site).bind (Expr.reachesAll site rest)

end

/-! ### Statements -/

theorem reaches_beginScope (site : Site) :
    (change .beginScope).Reaches site ([], site.enter .empty) :=
  reaches_change fun l hl => by rw [Ledger.follow_nil, ← hl]; rfl

theorem reaches_endScope {names : List String} {site site' : Site} {scope : Scope}
    (h : (site.enter scope).Grows names site') : (change .endScope).Reaches site' ([], site) :=
  reaches_change fun l hl => by rw [Ledger.follow_nil, ← h.endScope_eq, ← hl]; rfl

theorem reaches_setRoutine (site : Site) (context : RoutineContext) :
    (change (.setRoutine context)).Reaches site ([], { site with routine := context }) :=
  reaches_change fun l hl => by rw [Ledger.follow_nil, ← hl]; rfl

theorem reaches_setClass (site : Site) (context : ClassContext) :
    (change (.setClass context)).Reaches site ([], { site with classContext := context }) :=
  reaches_change fun l hl => by rw [Ledger.follow_nil, ← hl]; rfl

/-- A scope that holds one name is opened. -/
theorem reaches_defineSingle (site : Site) (name : String) :
    (change (.define name)).Reaches (site.enter .empty) ([], site.enter (.single name)) :=
  reaches_change fun l hl => by
    obtain ⟨⟨scopes, routine, classContext⟩, faults, table⟩ := l
    obtain rfl : scopes = .empty :: site.scopes := congrArg Site.scopes hl
    rw [Ledger.follow_nil]
    cases hl
    rfl

theorem reaches_surveyParameters (site : Site) (names : List Token) :
    (surveyParameters names).Reaches site (site.introduceAll names) := by
  induction names generalizing site with
  | nil => exact .pure site
  | cons name rest ih =>
    exact (reaches_declare site name).bind ((reaches_define _ name).move (ih _))

/-- The superclass is read at a place that differs in the kind of class only. -/
theorem reaches_surveySuperclass (site : Site) (name : Token) (superclass : Option Use) :
    (surveySuperclass name superclass).Reaches { site with classContext := .plain }
      (clauseFindings site name superclass, site.aroundMethods superclass) := by
  cases superclass with
  | none => exact .pure _
  | some use =>
    have hread : Reaches (do
        change (.setClass .subclass)
        (Expr.variable use).survey
        change .beginScope
        change (.define "super")) { site with classContext := .plain }
        (use.readFindings site, site.aroundMethods (some use)) :=
      (reaches_setClass _ .subclass).move (((Expr.variable use).reaches _).finish
        ((reaches_beginScope _).move (reaches_defineSingle _ "super")))
    exact hread.after_fault _ use.token .selfInheritance

theorem Survey.Reaches.introduced {m : Survey Unit} {site : Site} {name : Token}
    {context : ClassContext} {result : List Finding × Site}
    (h : m.Reaches { (site.introduce name).2 with classContext := context } result) :
    Reaches (do
      change (.declare name)
      change (.define name.lexeme)
      m) { site with classContext := context } ((site.introduce name).1 ++ result.1, result.2) := by
  obtain ⟨hfound, hsite⟩ := Prod.mk.inj (site.introduce_withClass context name)
  rw [← hsite] at h
  rw [← hfound]
  exact (reaches_declare _ name).bind ((reaches_define _ name).move h)

/-- Behind the methods of a class. -/
theorem reaches_leaveClass {site : Site} {enclosing : ClassContext}
    (h : site.classContext = enclosing) (superclass : Option Use) :
    Reaches (do
      if superclass.isSome then
        change .endScope
      change (.setClass enclosing)) (site.aroundMethods superclass) ([], site) := by
  subst h
  cases superclass with
  | none => exact reaches_setClass _ _
  | some use => exact (reaches_endScope (.refl _)).move (reaches_setClass _ _)

theorem reaches_surveyReturn (site : Site) (keyword : Token) (hasValue : Bool) :
    (surveyReturn keyword hasValue).Reaches site (returnFindings site keyword hasValue, site) := by
  refine reaches_ledger fun l hl => ?_
  subst hl
  refine Reaches.after_fault (reaches_ledger fun l' hl' => ?_) _ keyword .returnOutsideFunction
  have hroutine : l'.routine = l.routine := congrArg Site.routine hl'
  simpa [hroutine] using (Reaches.pure l.toSite).after_fault
    (hasValue ∧ l.routine = .initializer) keyword .valueFromInitializer

/-- The call for a statement. -/
theorem Survey.Reaches.stmt {m : Survey Unit} {site : Site} {s : Stmt} (hsite : site.Settled)
    (h : m.Reaches site (s.analyse site)) :
    (Survey.logged (.stmt s) m).Reaches site (s.analyse site) :=
  h.logged (s.grows hsite) fun _ _ hbound =>
    (Stmt.hasDepth_of_bound hbound).mem_ids (s.map_placed site)

/-- The call for a routine. -/
theorem Survey.Reaches.routine {m : Survey Unit} {site : Site} {context : RoutineContext}
    {r : Routine} (h : m.Reaches site (r.findings site context, site)) :
    (Survey.logged (.routine context r) m).Reaches site (r.findings site context, site) :=
  h.logged (.refl site) fun _ _ hbound =>
    (Routine.hasDepth_of_bound hbound).mem_ids (r.map_placed site context)

/-- The call for a class. -/
theorem Survey.Reaches.class {m : Survey Unit} {site : Site} {name : Token}
    {superclass : Option Use} {methods : List Routine} (hsite : site.Settled)
    (h : m.Reaches site ((Stmt.class name superclass methods).analyse site)) :
    (Survey.logged (.class name superclass methods) m).Reaches site
      ((Stmt.class name superclass methods).analyse site) :=
  h.logged ((Stmt.class name superclass methods).grows hsite) fun _ _ hbound =>
    (Stmt.hasDepth_of_bound hbound).mem_ids (Stmt.map_placed site _)

mutual

theorem Stmt.reaches {site : Site} (hsite : site.Settled) (s : Stmt) :
    s.survey.Reaches site (s.analyse site) := by
  unfold Stmt.survey
  refine Survey.Reaches.stmt hsite ?_
  match s with
  | .expression value | .print value => exact value.reaches site
  | .var name none => exact (reaches_declare site name).finish (reaches_define _ name)
  | .var name (some value) =>
    exact (reaches_declare site name).bind ((value.reaches _).finish (reaches_define _ name))
  | .block body =>
    obtain ⟨gained, hgrows⟩ := Stmt.growsAll hsite.enter_empty body
    exact (reaches_beginScope site).move
      ((Stmt.reachesAll hsite.enter_empty body).finish (reaches_endScope hgrows))
  | .if condition branch none => exact (condition.reaches site).bind (branch.reaches hsite)
  | .if condition branch (some other) =>
    have h := (condition.reaches site).bind
      ((branch.reaches hsite).bind (other.reaches (hsite.analyse branch)))
    rwa [← List.append_assoc] at h
  | .while condition body => exact (condition.reaches site).bind (body.reaches hsite)
  | .function routine =>
    exact (reaches_declare site routine.name).bind
      ((reaches_define _ routine.name).move
        (routine.reaches (hsite.introduce routine.name) .function))
  | .return keyword none => exact reaches_surveyReturn site keyword false
  | .return keyword (some value) =>
    exact (reaches_surveyReturn site keyword true).bind (value.reaches site)
  | .class name superclass methods =>
    refine .class hsite (reaches_ledger fun l hl => ?_)
    subst hl
    have hclass : (l.toSite.introduce name).2.classContext = l.classContext :=
      (hsite.grows_introduce name).classContext
    have hsettled := ((hsite.introduce name).aroundMethods superclass).enter_single "this"
    have hmethods := Routine.reachesAll hsettled methods
    rw [Stmt.analyse_class, List.append_assoc, Site.enterClass_eq]
    exact (reaches_setClass _ .plain).move <| .introduced <|
      (reaches_surveySuperclass _ name superclass).bind <|
        (reaches_beginScope _).move <| (reaches_defineSingle _ "this").move <| hmethods.finish <|
          (reaches_endScope (.refl _)).move (reaches_leaveClass hclass superclass)

theorem Stmt.reachesAll {site : Site} (hsite : site.Settled) (ss : List Stmt) :
    (Stmt.surveyAll ss).Reaches site (Stmt.analyseAll site ss) := by
  match ss with
  | [] => exact .pure site
  | s :: rest => exact (s.reaches hsite).bind (Stmt.reachesAll (hsite.analyse s) rest)

theorem Routine.reaches {site : Site} (hsite : site.Settled) (context : RoutineContext)
    (r : Routine) : (r.survey context).Reaches site (r.findings site context, site) := by
  unfold Routine.survey
  refine Survey.Reaches.routine ?_
  match r with
  | ⟨_, parameters, body⟩ =>
    refine reaches_ledger fun l hl => ?_
    subst hl
    have hinside : Site.Settled { l.toSite with routine := context } := hsite
    obtain ⟨gained, hparameters⟩ := hinside.enter_empty.grows_introduceAll parameters
    have hsettled := hinside.enter_empty.introduceAll parameters
    obtain ⟨gained', hbody⟩ := Stmt.growsAll hsettled body
    exact (reaches_setRoutine _ context).move <| (reaches_beginScope _).move <|
      (reaches_surveyParameters _ parameters).bind <| (Stmt.reachesAll hsettled body).finish <|
        (reaches_endScope (hparameters.trans hbody)).move (reaches_setRoutine _ _)

theorem Routine.reachesAll {site : Site} (hsite : site.Settled) (rs : List Routine) :
    (Routine.surveyAll rs).Reaches site (Routine.findingsAll site rs, site) := by
  match rs with
  | [] => exact .pure site
  | r :: rest => exact (r.reaches hsite (methodContext r.name)).bind (Routine.reachesAll hsite rest)

end

/-- The walk over a program ends where it began, with the faults and the depths that `analyse`
finds, and every call on the way is balanced. -/
theorem survey_balanced (program : List Stmt) (table : DepthTable) :
    (survey program table).1 =
        { Site.top with
          faults := scopeFaults (analyse program), table := table.recordAll (analyse program) } ∧
      ∀ c ∈ (survey program table).2, c.Balanced := by
  obtain ⟨calls, hrun, hcalls⟩ := Stmt.reachesAll .top program (.start table) rfl []
  obtain ⟨gained, hgrows⟩ := Stmt.growsAll .top program
  rw [survey, hrun, Ledger.follow, hgrows.eq_top]
  exact ⟨rfl, hcalls⟩

end Treewalk
