import Mathlib.Data.List.Nodup
import Treewalk.Proofs.Scope.Twin

/-!
# The places of uses

Scope analysis finds the depth of a use from the place where it stands. Here the uses of a program
are listed together with these places. If nothing is wrong with the program, the findings are the
depths that the places tell; and if every use has a node number of its own, the depth table tells
them afterwards.

## Main definitions

* `Expr.placed`, `Stmt.placedAll` — the uses of a program with their places

## Main results

* `Stmt.map_placedAll` — these are the occurrences of the program
* `Stmt.hasDepthAll_of_bound`, `Stmt.bound_of_hasDepthAll` — the depths that scope analysis finds
* `depth?_recordAll_analyse` — what the depth table tells of a program afterwards
-/

namespace Treewalk

/-! ### Uses with their places -/

/-- The uses of an expression, all of which stand at its place. -/
def Expr.placed (site : Site) (e : Expr) : List (Site × Use) :=
  e.occurrences.map fun o => (site, o.use)

def Expr.placedAll (site : Site) (es : List Expr) : List (Site × Use) :=
  (Expr.occurrencesAll es).map fun o => (site, o.use)

mutual

/-- The uses of a statement, with the places where they stand. -/
def Stmt.placed (site : Site) : Stmt → List (Site × Use)
  | .expression value => value.placed site
  | .print value => value.placed site
  | .var _ none => []
  | .var name (some value) => value.placed (site.declare name).2
  | .block body => Stmt.placedAll (site.enter .empty) body
  | .if condition thenBranch none => condition.placed site ++ thenBranch.placed site
  | .if condition thenBranch (some elseBranch) =>
    condition.placed site ++ thenBranch.placed site ++
      elseBranch.placed (thenBranch.analyse site).2
  | .while condition body => condition.placed site ++ body.placed site
  | .function routine => routine.placed (site.introduce routine.name).2 .function
  | .return _ none => []
  | .return _ (some value) => value.placed site
  | .class name none methods =>
    Routine.placedAll ((site.introduce name).2.enterClass none) methods
  | .class name (some superclass) methods =>
    ((site.introduce name).2, superclass) ::
      Routine.placedAll ((site.introduce name).2.enterClass (some superclass)) methods

def Stmt.placedAll (site : Site) : List Stmt → List (Site × Use)
  | [] => []
  | s :: rest => s.placed site ++ Stmt.placedAll (s.analyse site).2 rest

def Routine.placed (site : Site) (context : RoutineContext) : Routine → List (Site × Use)
  | ⟨_, parameters, body⟩ => Stmt.placedAll (site.body context parameters) body

def Routine.placedAll (site : Site) : List Routine → List (Site × Use)
  | [] => []
  | r :: rest => r.placed site (methodContext r.name) ++ Routine.placedAll site rest

end

theorem Expr.map_placed (site : Site) (e : Expr) :
    (e.placed site).map Prod.snd = e.occurrences.map Occurrence.use := by
  simp [placed]

mutual

theorem Stmt.map_placed (site : Site) (s : Stmt) :
    (s.placed site).map Prod.snd = s.occurrences.map Occurrence.use := by
  match s with
  | .expression value | .print value => simp [Stmt.placed, Stmt.occurrences, Expr.map_placed]
  | .var _ none => rfl
  | .var _ (some value) => simp [Stmt.placed, Stmt.occurrences, Expr.map_placed]
  | .block body => rw [Stmt.placed, Stmt.occurrences, Stmt.map_placedAll]
  | .if _ thenBranch none =>
    simp [Stmt.placed, Stmt.occurrences, Expr.map_placed, Stmt.map_placed _ thenBranch]
  | .if _ thenBranch (some elseBranch) =>
    simp [Stmt.placed, Stmt.occurrences, Expr.map_placed, Stmt.map_placed _ thenBranch,
      Stmt.map_placed _ elseBranch]
  | .while _ body => simp [Stmt.placed, Stmt.occurrences, Expr.map_placed, Stmt.map_placed _ body]
  | .function routine => rw [Stmt.placed, Stmt.occurrences, Routine.map_placed]
  | .return _ none => rfl
  | .return _ (some value) => simp [Stmt.placed, Stmt.occurrences, Expr.map_placed]
  | .class _ none methods => rw [Stmt.placed, Stmt.occurrences, Routine.map_placedAll]
  | .class _ (some _) methods =>
    simp [Stmt.placed, Stmt.occurrences, Routine.map_placedAll _ methods]

/-- The uses that are listed are the occurrences of the program. -/
theorem Stmt.map_placedAll (site : Site) (ss : List Stmt) :
    (Stmt.placedAll site ss).map Prod.snd = (Stmt.occurrencesAll ss).map Occurrence.use := by
  match ss with
  | [] => rfl
  | s :: rest =>
    rw [Stmt.placedAll, Stmt.occurrencesAll, List.map_append, List.map_append, Stmt.map_placed,
      Stmt.map_placedAll]

theorem Routine.map_placed (site : Site) (context : RoutineContext) (r : Routine) :
    (r.placed site context).map Prod.snd = r.occurrences.map Occurrence.use := by
  match r with
  | ⟨_, parameters, body⟩ => rw [Routine.placed, Routine.occurrences, Stmt.map_placedAll]

theorem Routine.map_placedAll (site : Site) (rs : List Routine) :
    (Routine.placedAll site rs).map Prod.snd = (Routine.occurrencesAll rs).map Occurrence.use := by
  match rs with
  | [] => rfl
  | r :: rest =>
    rw [Routine.placedAll, Routine.occurrencesAll, List.map_append, List.map_append,
      Routine.map_placed, Routine.map_placedAll]

end

/-! ### The depths that scope analysis finds -/

@[simp] theorem scopeFaults_nil : scopeFaults [] = [] := rfl

@[simp] theorem scopeFaults_append_eq_nil (a b : List Finding) :
    scopeFaults (a ++ b) = [] ↔ scopeFaults a = [] ∧ scopeFaults b = [] := by
  rw [scopeFaults, List.filterMap_append, List.append_eq_nil_iff]
  rfl

@[simp] theorem scopeFaults_fault_cons (anchor : Token) (cause : ScopeFault) (a : List Finding) :
    scopeFaults (.fault anchor cause :: a) ≠ [] := by
  simp [scopeFaults, Finding.diagnostic?]

/-- Which depths the uses that are listed have. -/
def HasDepth (placed : List (Site × Use)) (id : NodeId) (depth : Nat) : Prop :=
  ∃ x ∈ placed, x.2.id = id ∧ x.1.depth? x.2.name = some depth

@[simp] theorem hasDepth_nil (id : NodeId) (depth : Nat) : ¬HasDepth [] id depth := by
  simp [HasDepth]

@[simp] theorem hasDepth_append (a b : List (Site × Use)) (id : NodeId) (depth : Nat) :
    HasDepth (a ++ b) id depth ↔ HasDepth a id depth ∨ HasDepth b id depth := by
  simp [HasDepth, or_and_right, exists_or]

@[simp] theorem hasDepth_cons (site : Site) (use : Use) (a : List (Site × Use)) (id : NodeId)
    (depth : Nat) : HasDepth ((site, use) :: a) id depth ↔
      use.id = id ∧ site.depth? use.name = some depth ∨ HasDepth a id depth := by
  simp [HasDepth]

theorem Site.bound_mem_bind (site : Site) (use : Use) (id : NodeId) (depth : Nat) :
    .bound id depth ∈ site.bind use ↔ use.id = id ∧ site.depth? use.name = some depth := by
  unfold bind
  cases h : site.depth? use.name with
  | none => simp
  | some d => simp [eq_comm]

theorem Use.bound_mem_readFindings (site : Site) (use : Use) (id : NodeId) (depth : Nat) :
    .bound id depth ∈ use.readFindings site ↔
      use.id = id ∧ site.depth? use.name = some depth := by
  rw [readFindings, List.mem_append, Site.bound_mem_bind]
  split <;> simp

theorem Site.bound_notMem_declare (site : Site) (name : Token) (id : NodeId) (depth : Nat) :
    .bound id depth ∉ (site.declare name).1 := by
  unfold declare
  split
  · simp
  · split <;> simp

theorem Site.bound_notMem_introduce (site : Site) (name : Token) (id : NodeId) (depth : Nat) :
    .bound id depth ∉ (site.introduce name).1 :=
  site.bound_notMem_declare name id depth

theorem Site.bound_notMem_introduceAll (site : Site) (names : List Token) (id : NodeId)
    (depth : Nat) : .bound id depth ∉ (site.introduceAll names).1 := by
  induction names generalizing site with
  | nil => simp [introduceAll]
  | cons name rest ih =>
    rw [introduceAll, List.mem_append, not_or]
    exact ⟨site.bound_notMem_introduce name id depth, ih _⟩

theorem bound_notMem_returnFindings (site : Site) (keyword : Token) (hasValue : Bool) (id : NodeId)
    (depth : Nat) : .bound id depth ∉ returnFindings site keyword hasValue := by
  rw [returnFindings, List.mem_append, not_or]
  constructor <;> split <;> simp

theorem bound_mem_superclassFindings (site : Site) (name : Token) (use : Use) (id : NodeId)
    (depth : Nat) : .bound id depth ∈ superclassFindings site name use ↔
      use.id = id ∧ site.depth? use.name = some depth := by
  rw [superclassFindings, List.mem_append, Use.bound_mem_readFindings]
  split <;> simp

section Bound

variable {id : NodeId} {depth : Nat}

mutual

theorem Expr.hasDepth_of_bound {site : Site} {e : Expr} (h : .bound id depth ∈ e.findings site) :
    HasDepth (e.placed site) id depth := by
  match e with
  | .literal _ => simp [Expr.findings] at h
  | .unary _ operand => exact Expr.hasDepth_of_bound (e := operand) h
  | .group inner => exact Expr.hasDepth_of_bound (e := inner) h
  | .property object _ => exact Expr.hasDepth_of_bound (e := object) h
  | .binary left _ right | .logical left _ right =>
    rw [Expr.findings, List.mem_append] at h
    rw [Expr.placed, Expr.occurrences, List.map_append, hasDepth_append]
    exact h.imp Expr.hasDepth_of_bound Expr.hasDepth_of_bound
  | .variable use =>
    rw [Expr.findings, Use.bound_mem_readFindings] at h
    exact ⟨_, .head _, h⟩
  | .assign target value =>
    rw [Expr.findings, List.mem_append, Site.bound_mem_bind] at h
    rw [Expr.placed, Expr.occurrences, List.map_cons, hasDepth_cons]
    exact h.symm.imp_right Expr.hasDepth_of_bound
  | .call callee _ arguments =>
    rw [Expr.findings, List.mem_append] at h
    rw [Expr.placed, Expr.occurrences, List.map_append, hasDepth_append]
    exact h.imp Expr.hasDepth_of_bound Expr.hasDepthAll_of_bound
  | .setProperty object _ value =>
    rw [Expr.findings, List.mem_append] at h
    rw [Expr.placed, Expr.occurrences, List.map_append, hasDepth_append]
    exact h.symm.imp Expr.hasDepth_of_bound Expr.hasDepth_of_bound
  | .this use =>
    have hbind : .bound id depth ∈ site.bind use := by
      unfold Expr.findings at h
      split at h
      · simp at h
      · exact h
    exact ⟨_, .head _, (site.bound_mem_bind use id depth).1 hbind⟩
  | .super use _ =>
    have hbind : .bound id depth ∈ site.bind use := by
      unfold Expr.findings at h
      split at h
      · simpa using h
      · simpa using h
      · exact h
    exact ⟨_, .head _, (site.bound_mem_bind use id depth).1 hbind⟩

theorem Expr.hasDepthAll_of_bound {site : Site} {es : List Expr}
    (h : .bound id depth ∈ Expr.findingsAll site es) :
    HasDepth (Expr.placedAll site es) id depth := by
  match es with
  | [] => simp [Expr.findingsAll] at h
  | e :: rest =>
    rw [Expr.findingsAll, List.mem_append] at h
    rw [Expr.placedAll, Expr.occurrencesAll, List.map_append, hasDepth_append]
    exact h.imp Expr.hasDepth_of_bound Expr.hasDepthAll_of_bound

end

mutual

theorem Stmt.hasDepth_of_bound {site : Site} {s : Stmt} (h : .bound id depth ∈ (s.analyse site).1) :
    HasDepth (s.placed site) id depth := by
  match s with
  | .expression value | .print value => exact Expr.hasDepth_of_bound (e := value) h
  | .var name none => exact absurd h (site.bound_notMem_introduce name id depth)
  | .var name (some value) =>
    rw [Stmt.analyse, List.mem_append] at h
    exact Expr.hasDepth_of_bound (h.resolve_left (site.bound_notMem_declare name id depth))
  | .block body => exact Stmt.hasDepthAll_of_bound h
  | .if condition branch none =>
    rw [Stmt.analyse, List.mem_append] at h
    rw [Stmt.placed, hasDepth_append]
    exact h.imp Expr.hasDepth_of_bound Stmt.hasDepth_of_bound
  | .if condition branch (some other) =>
    rw [Stmt.analyse, List.mem_append, List.mem_append] at h
    rw [Stmt.placed, hasDepth_append, hasDepth_append]
    exact h.imp (.imp Expr.hasDepth_of_bound Stmt.hasDepth_of_bound) Stmt.hasDepth_of_bound
  | .while condition body =>
    rw [Stmt.analyse, List.mem_append] at h
    rw [Stmt.placed, hasDepth_append]
    exact h.imp Expr.hasDepth_of_bound Stmt.hasDepth_of_bound
  | .function routine =>
    rw [Stmt.analyse, List.mem_append] at h
    exact Routine.hasDepth_of_bound
      (h.resolve_left (site.bound_notMem_introduce routine.name id depth))
  | .return keyword none => exact absurd h (bound_notMem_returnFindings site keyword false id depth)
  | .return keyword (some value) =>
    rw [Stmt.analyse, List.mem_append] at h
    exact Expr.hasDepth_of_bound
      (h.resolve_left (bound_notMem_returnFindings site keyword true id depth))
  | .class name none methods =>
    simp only [Stmt.analyse, List.append_nil, List.mem_append] at h
    exact Routine.hasDepthAll_of_bound (h.resolve_left (site.bound_notMem_introduce name id depth))
  | .class name (some superclass) methods =>
    rw [Stmt.analyse, List.mem_append, List.mem_append] at h
    rw [Stmt.placed, hasDepth_cons]
    refine h.imp (fun hclause => ?_) Routine.hasDepthAll_of_bound
    have hclause := hclause.resolve_left (site.bound_notMem_introduce name id depth)
    exact (bound_mem_superclassFindings _ name superclass id depth).1 hclause

/-- Scope analysis finds no other depths than those of the uses. -/
theorem Stmt.hasDepthAll_of_bound {site : Site} {ss : List Stmt}
    (h : .bound id depth ∈ (Stmt.analyseAll site ss).1) :
    HasDepth (Stmt.placedAll site ss) id depth := by
  match ss with
  | [] => simp [Stmt.analyseAll] at h
  | s :: rest =>
    rw [Stmt.analyseAll, List.mem_append] at h
    rw [Stmt.placedAll, hasDepth_append]
    exact h.imp Stmt.hasDepth_of_bound Stmt.hasDepthAll_of_bound

theorem Routine.hasDepth_of_bound {site : Site} {context : RoutineContext} {r : Routine}
    (h : .bound id depth ∈ r.findings site context) :
    HasDepth (r.placed site context) id depth := by
  match r with
  | ⟨_, parameters, body⟩ =>
    rw [Routine.findings, List.mem_append] at h
    exact Stmt.hasDepthAll_of_bound (h.resolve_left (Site.bound_notMem_introduceAll _ _ id depth))

theorem Routine.hasDepthAll_of_bound {site : Site} {rs : List Routine}
    (h : .bound id depth ∈ Routine.findingsAll site rs) :
    HasDepth (Routine.placedAll site rs) id depth := by
  match rs with
  | [] => simp [Routine.findingsAll] at h
  | r :: rest =>
    rw [Routine.findingsAll, List.mem_append] at h
    rw [Routine.placedAll, hasDepth_append]
    exact h.imp Routine.hasDepth_of_bound Routine.hasDepthAll_of_bound

end

mutual

theorem Expr.bound_of_hasDepth {site : Site} {e : Expr} (h : scopeFaults (e.findings site) = [])
    (hdepth : HasDepth (e.placed site) id depth) : .bound id depth ∈ e.findings site := by
  match e with
  | .literal _ => exact absurd hdepth (hasDepth_nil id depth)
  | .unary _ operand => exact Expr.bound_of_hasDepth (e := operand) h hdepth
  | .group inner => exact Expr.bound_of_hasDepth (e := inner) h hdepth
  | .property object _ => exact Expr.bound_of_hasDepth (e := object) h hdepth
  | .binary left _ right | .logical left _ right =>
    rw [Expr.findings, scopeFaults_append_eq_nil] at h
    rw [Expr.placed, Expr.occurrences, List.map_append, hasDepth_append] at hdepth
    rw [Expr.findings, List.mem_append]
    exact hdepth.imp (Expr.bound_of_hasDepth h.1) (Expr.bound_of_hasDepth h.2)
  | .variable use =>
    rw [Expr.findings, Use.bound_mem_readFindings]
    simpa [Expr.placed, Expr.occurrences] using hdepth
  | .assign target value =>
    rw [Expr.findings, scopeFaults_append_eq_nil] at h
    rw [Expr.placed, Expr.occurrences, List.map_cons, hasDepth_cons] at hdepth
    rw [Expr.findings, List.mem_append, Site.bound_mem_bind]
    exact hdepth.symm.imp_left (Expr.bound_of_hasDepth h.1)
  | .call callee _ arguments =>
    rw [Expr.findings, scopeFaults_append_eq_nil] at h
    rw [Expr.placed, Expr.occurrences, List.map_append, hasDepth_append] at hdepth
    rw [Expr.findings, List.mem_append]
    exact hdepth.imp (Expr.bound_of_hasDepth h.1) (Expr.bound_of_hasDepthAll h.2)
  | .setProperty object _ value =>
    rw [Expr.findings, scopeFaults_append_eq_nil] at h
    rw [Expr.placed, Expr.occurrences, List.map_append, hasDepth_append] at hdepth
    rw [Expr.findings, List.mem_append]
    exact hdepth.symm.imp (Expr.bound_of_hasDepth h.1) (Expr.bound_of_hasDepth h.2)
  | .this use | .super use _ =>
    have hbind : .bound id depth ∈ site.bind use := by
      rw [Site.bound_mem_bind]
      simpa [Expr.placed, Expr.occurrences] using hdepth
    unfold Expr.findings at h ⊢
    split
    all_goals first | exact hbind | simp_all

theorem Expr.bound_of_hasDepthAll {site : Site} {es : List Expr}
    (h : scopeFaults (Expr.findingsAll site es) = [])
    (hdepth : HasDepth (Expr.placedAll site es) id depth) :
    .bound id depth ∈ Expr.findingsAll site es := by
  match es with
  | [] => exact absurd hdepth (hasDepth_nil id depth)
  | e :: rest =>
    rw [Expr.findingsAll, scopeFaults_append_eq_nil] at h
    rw [Expr.placedAll, Expr.occurrencesAll, List.map_append, hasDepth_append] at hdepth
    rw [Expr.findingsAll, List.mem_append]
    exact hdepth.imp (Expr.bound_of_hasDepth h.1) (Expr.bound_of_hasDepthAll h.2)

end

mutual

theorem Stmt.bound_of_hasDepth {site : Site} {s : Stmt} (h : scopeFaults (s.analyse site).1 = [])
    (hdepth : HasDepth (s.placed site) id depth) : .bound id depth ∈ (s.analyse site).1 := by
  match s with
  | .expression value | .print value => exact Expr.bound_of_hasDepth (e := value) h hdepth
  | .var name none | .return keyword none => exact absurd hdepth (hasDepth_nil id depth)
  | .var name (some value) =>
    rw [Stmt.analyse, scopeFaults_append_eq_nil] at h
    rw [Stmt.analyse, List.mem_append]
    exact .inr (Expr.bound_of_hasDepth h.2 hdepth)
  | .block body => exact Stmt.bound_of_hasDepthAll h hdepth
  | .if condition branch none =>
    rw [Stmt.analyse, scopeFaults_append_eq_nil] at h
    rw [Stmt.placed, hasDepth_append] at hdepth
    rw [Stmt.analyse, List.mem_append]
    exact hdepth.imp (Expr.bound_of_hasDepth h.1) (Stmt.bound_of_hasDepth h.2)
  | .if condition branch (some other) =>
    rw [Stmt.analyse, scopeFaults_append_eq_nil, scopeFaults_append_eq_nil] at h
    rw [Stmt.placed, hasDepth_append, hasDepth_append] at hdepth
    rw [Stmt.analyse, List.mem_append, List.mem_append]
    exact hdepth.imp (.imp (Expr.bound_of_hasDepth h.1.1) (Stmt.bound_of_hasDepth h.1.2))
      (Stmt.bound_of_hasDepth h.2)
  | .while condition body =>
    rw [Stmt.analyse, scopeFaults_append_eq_nil] at h
    rw [Stmt.placed, hasDepth_append] at hdepth
    rw [Stmt.analyse, List.mem_append]
    exact hdepth.imp (Expr.bound_of_hasDepth h.1) (Stmt.bound_of_hasDepth h.2)
  | .function routine =>
    rw [Stmt.analyse, scopeFaults_append_eq_nil] at h
    rw [Stmt.analyse, List.mem_append]
    exact .inr (Routine.bound_of_hasDepth h.2 hdepth)
  | .return keyword (some value) =>
    rw [Stmt.analyse, scopeFaults_append_eq_nil] at h
    rw [Stmt.analyse, List.mem_append]
    exact .inr (Expr.bound_of_hasDepth h.2 hdepth)
  | .class name none methods =>
    rw [Stmt.analyse, scopeFaults_append_eq_nil] at h
    rw [Stmt.analyse, List.mem_append]
    exact .inr (Routine.bound_of_hasDepthAll h.2 hdepth)
  | .class name (some superclass) methods =>
    rw [Stmt.analyse, scopeFaults_append_eq_nil] at h
    rw [Stmt.placed, hasDepth_cons] at hdepth
    rw [Stmt.analyse, List.mem_append, List.mem_append]
    refine hdepth.imp (fun hclause => .inr ?_) (Routine.bound_of_hasDepthAll h.2)
    exact (bound_mem_superclassFindings _ name superclass id depth).2 hclause

/-- In a program without faults scope analysis finds the depths of all uses. -/
theorem Stmt.bound_of_hasDepthAll {site : Site} {ss : List Stmt}
    (h : scopeFaults (Stmt.analyseAll site ss).1 = [])
    (hdepth : HasDepth (Stmt.placedAll site ss) id depth) :
    .bound id depth ∈ (Stmt.analyseAll site ss).1 := by
  match ss with
  | [] => exact absurd hdepth (hasDepth_nil id depth)
  | s :: rest =>
    rw [Stmt.analyseAll, scopeFaults_append_eq_nil] at h
    rw [Stmt.placedAll, hasDepth_append] at hdepth
    rw [Stmt.analyseAll, List.mem_append]
    exact hdepth.imp (Stmt.bound_of_hasDepth h.1) (Stmt.bound_of_hasDepthAll h.2)

theorem Routine.bound_of_hasDepth {site : Site} {context : RoutineContext} {r : Routine}
    (h : scopeFaults (r.findings site context) = [])
    (hdepth : HasDepth (r.placed site context) id depth) :
    .bound id depth ∈ r.findings site context := by
  match r with
  | ⟨_, parameters, body⟩ =>
    rw [Routine.findings, scopeFaults_append_eq_nil] at h
    rw [Routine.findings, List.mem_append]
    exact .inr (Stmt.bound_of_hasDepthAll h.2 hdepth)

theorem Routine.bound_of_hasDepthAll {site : Site} {rs : List Routine}
    (h : scopeFaults (Routine.findingsAll site rs) = [])
    (hdepth : HasDepth (Routine.placedAll site rs) id depth) :
    .bound id depth ∈ Routine.findingsAll site rs := by
  match rs with
  | [] => exact absurd hdepth (hasDepth_nil id depth)
  | r :: rest =>
    rw [Routine.findingsAll, scopeFaults_append_eq_nil] at h
    rw [Routine.placedAll, hasDepth_append] at hdepth
    rw [Routine.findingsAll, List.mem_append]
    exact hdepth.imp (Routine.bound_of_hasDepth h.1) (Routine.bound_of_hasDepthAll h.2)

end

end Bound

/-! ### The depth table -/

namespace DepthTable

/-- Findings change the entries of the uses they are about, and no others. -/
theorem depth?_recordAll_of_notMem {table : DepthTable} {findings : List Finding} {id : NodeId}
    (h : ∀ depth, .bound id depth ∉ findings) :
    (table.recordAll findings).depth? id = table.depth? id := by
  induction findings generalizing table with
  | nil => rfl
  | cons finding rest ih =>
    refine (ih fun depth hmem => h depth (.tail _ hmem)).trans ?_
    cases finding with
    | fault => rfl
    | bound other depth =>
      have hne : id ≠ other := fun heq => h depth (heq ▸ .head _)
      rw [Finding.recordIn, depth?_record, if_neg hne]

/-- If all findings about a use agree, the table tells what they say. -/
theorem depth?_recordAll_of_mem {table : DepthTable} {findings : List Finding} {id : NodeId}
    {depth : Nat} (h : .bound id depth ∈ findings)
    (hunique : ∀ other, .bound id other ∈ findings → other = depth) :
    (table.recordAll findings).depth? id = some depth := by
  induction findings generalizing table with
  | nil => simp at h
  | cons finding rest ih =>
    by_cases hrest : .bound id depth ∈ rest
    · exact ih hrest fun other hother => hunique other (.tail _ hother)
    · obtain rfl : .bound id depth = finding := (List.mem_cons.1 h).resolve_right hrest
      have hnone : ∀ other, .bound id other ∉ rest := fun other hother =>
        hrest (hunique other (.tail _ hother) ▸ hother)
      refine (depth?_recordAll_of_notMem hnone).trans ?_
      rw [Finding.recordIn, depth?_record, if_pos rfl]

end DepthTable

/-- If nothing is wrong with a program whose uses have node numbers of their own, and the table has
no entries for these yet, then it has the depths of the uses afterwards. -/
theorem depth?_recordAll_analyse {program : List Stmt} {table : DepthTable}
    (hfaults : scopeFaults (analyse program) = [])
    (hnodup : ((Stmt.occurrencesAll program).map fun o => o.use.id).Nodup)
    (hnone : ∀ o ∈ Stmt.occurrencesAll program, table.depth? o.use.id = none) {site : Site}
    {use : Use} (h : (site, use) ∈ Stmt.placedAll .top program) :
    (table.recordAll (analyse program)).depth? use.id = site.depth? use.name := by
  have hids : (Stmt.placedAll .top program).map (fun x => x.2.id) =
      (Stmt.occurrencesAll program).map fun o => o.use.id := by
    have := congrArg (List.map Use.id) (Stmt.map_placedAll .top program)
    simpa only [List.map_map, Function.comp_def] using this
  -- a use with this number is the given one
  have hunique : ∀ depth, .bound use.id depth ∈ analyse program →
      site.depth? use.name = some depth := by
    intro depth hdepth
    obtain ⟨x, hx, hid, hxdepth⟩ := Stmt.hasDepthAll_of_bound hdepth
    rw [← hids] at hnodup
    obtain rfl : x = (site, use) := List.inj_on_of_nodup_map hnodup hx h hid
    exact hxdepth
  cases hdepth : site.depth? use.name with
  | some depth =>
    refine DepthTable.depth?_recordAll_of_mem ?_ fun other hother => ?_
    · exact Stmt.bound_of_hasDepthAll hfaults ⟨_, h, rfl, hdepth⟩
    · exact Option.some.inj ((hunique other hother).symm.trans hdepth)
  | none =>
    have huse : use ∈ (Stmt.occurrencesAll program).map Occurrence.use := by
      rw [← Stmt.map_placedAll .top]
      exact List.mem_map_of_mem h
    obtain ⟨o, ho, rfl⟩ := List.mem_map.1 huse
    refine (DepthTable.depth?_recordAll_of_notMem fun depth hmem => ?_).trans (hnone o ho)
    rw [hunique depth hmem] at hdepth
    cases hdepth

end Treewalk
