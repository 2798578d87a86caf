import Treewalk.Proofs.Scope.Declared

/-!
# Parameters

The parameters of a function are declared in one scope, in which a name that is declared twice is a
fault. So in a program without faults no function has two parameters of the same name.

## Main definitions

* `Routine.Distinct`, `Stmt.Distinct` — code in which the parameters of a function are distinct

## Main results

* `Stmt.distinctAll_of_scopeFaults` — a program without faults is such code
-/

namespace Treewalk

mutual

/-- Every function that is declared in a statement has distinct parameters. -/
def Stmt.Distinct : Stmt → Prop
  | .block body => Stmt.DistinctAll body
  | .if _ branch none => branch.Distinct
  | .if _ branch (some other) => branch.Distinct ∧ other.Distinct
  | .while _ body => body.Distinct
  | .function routine => routine.Distinct
  | .class _ _ methods => Routine.DistinctAll methods
  | .expression _ | .print _ | .var _ _ | .return _ _ => True

def Stmt.DistinctAll : List Stmt → Prop
  | [] => True
  | s :: rest => s.Distinct ∧ Stmt.DistinctAll rest

/-- No two parameters of the function have the same name, and neither have those of a function that
is declared in it. -/
def Routine.Distinct : Routine → Prop
  | ⟨_, parameters, body⟩ => (parameters.map Token.lexeme).Nodup ∧ Stmt.DistinctAll body

def Routine.DistinctAll : List Routine → Prop
  | [] => True
  | r :: rest => r.Distinct ∧ Routine.DistinctAll rest

end

theorem Routine.distinct_iff {routine : Routine} : routine.Distinct ↔
    (routine.parameters.map Token.lexeme).Nodup ∧ Stmt.DistinctAll routine.body := by
  cases routine
  rfl

theorem Routine.DistinctAll.of_mem {methods : List Routine} (h : Routine.DistinctAll methods)
    {method : Routine} (hmethod : method ∈ methods) : method.Distinct := by
  induction methods with
  | nil => cases hmethod
  | cons first rest ih =>
    obtain rfl | hrest := List.mem_cons.1 hmethod
    · exact h.1
    · exact ih h.2 hrest

/-! ### What scope analysis rules out -/

/-- Names that are declared one after the other without a fault are new in their scope. -/
theorem Site.nodup_of_introduceAll {site : Site} {names : List Token} (hsite : site.scopes ≠ [])
    (h : scopeFaults (site.introduceAll names).1 = []) : (names.map Token.lexeme).Nodup ∧
      ∀ name ∈ names.map Token.lexeme, site.declares name = false := by
  induction names generalizing site with
  | nil => exact ⟨List.nodup_nil, by simp⟩
  | cons name rest ih =>
    simp only [introduceAll, scopeFaults_append_eq_nil] at h
    obtain ⟨hnew, hbehind, hdeclares⟩ := declares_introduce hsite h.1
    obtain ⟨hnodup, hrest⟩ := ih hbehind h.2
    -- behind the first name it is there itself, and so is all that was there before
    have hother (other : String) (hmem : other ∈ rest.map Token.lexeme) :
        name.lexeme ≠ other ∧ site.declares other = false := by
      have hnone : ¬(site.introduce name).2.declares other := by simp [hrest other hmem]
      simpa using mt (hdeclares other).2 hnone
    refine ⟨List.nodup_cons.2 ⟨fun hmem => (hother _ hmem).1 rfl, hnodup⟩, ?_⟩
    exact List.forall_mem_cons.2 ⟨hnew, fun other hmem => (hother other hmem).2⟩

mutual

theorem Stmt.distinct_of_scopeFaults {site : Site} {s : Stmt}
    (h : scopeFaults (s.analyse site).1 = []) : s.Distinct := by
  match s with
  | .expression _ | .print _ | .var _ _ | .return _ _ => trivial
  | .block body =>
    have hbody : scopeFaults (Stmt.analyseAll _ body).1 = [] := h
    exact Stmt.distinctAll_of_scopeFaults hbody
  | .if condition branch none =>
    rw [Stmt.analyse, scopeFaults_append_eq_nil] at h
    exact Stmt.distinct_of_scopeFaults (s := branch) h.2
  | .if condition branch (some other) =>
    rw [Stmt.analyse, scopeFaults_append_eq_nil, scopeFaults_append_eq_nil] at h
    exact ⟨Stmt.distinct_of_scopeFaults h.1.2, Stmt.distinct_of_scopeFaults h.2⟩
  | .while condition body =>
    rw [Stmt.analyse, scopeFaults_append_eq_nil] at h
    exact Stmt.distinct_of_scopeFaults (s := body) h.2
  | .function routine =>
    rw [Stmt.analyse, scopeFaults_append_eq_nil] at h
    exact Routine.distinct_of_scopeFaults (r := routine) h.2
  | .class name superclass methods =>
    rw [Stmt.analyse, scopeFaults_append_eq_nil] at h
    have hmethods : scopeFaults (Routine.findingsAll _ methods) = [] := h.2
    exact Routine.distinctAll_of_scopeFaults hmethods

theorem Stmt.distinctAll_of_scopeFaults {site : Site} {ss : List Stmt}
    (h : scopeFaults (Stmt.analyseAll site ss).1 = []) : Stmt.DistinctAll ss := by
  match ss with
  | [] => trivial
  | s :: rest =>
    rw [Stmt.analyseAll, scopeFaults_append_eq_nil] at h
    exact ⟨Stmt.distinct_of_scopeFaults h.1, Stmt.distinctAll_of_scopeFaults h.2⟩

theorem Routine.distinct_of_scopeFaults {site : Site} {context : RoutineContext} {r : Routine}
    (h : scopeFaults (r.findings site context) = []) : r.Distinct := by
  match r with
  | ⟨name, parameters, body⟩ =>
    rw [Routine.findings, scopeFaults_append_eq_nil] at h
    exact ⟨(Site.nodup_of_introduceAll (List.cons_ne_nil _ _) h.1).1,
      Stmt.distinctAll_of_scopeFaults h.2⟩

theorem Routine.distinctAll_of_scopeFaults {site : Site} {rs : List Routine}
    (h : scopeFaults (Routine.findingsAll site rs) = []) : Routine.DistinctAll rs := by
  match rs with
  | [] => trivial
  | r :: rest =>
    rw [Routine.findingsAll, scopeFaults_append_eq_nil] at h
    exact ⟨Routine.distinct_of_scopeFaults h.1, Routine.distinctAll_of_scopeFaults h.2⟩

end

end Treewalk
