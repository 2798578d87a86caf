import Treewalk.Proofs.Scope.Placed

/-!
# Statements without a return

A `return` outside of functions is a fault. So the statements of a program without faults have no
`return`, except in the functions and methods that they declare.

## Main definitions

* `Stmt.ReturnFree` — no `return`, except in the routines declared in a statement

## Main results

* `Stmt.returnFree_of_mem` — a program without faults has only such statements
-/

namespace Treewalk

mutual

/-- A statement without a `return`, except in the routines declared in it. -/
def Stmt.ReturnFree : Stmt → Prop
  | .block body => Stmt.ReturnFreeAll body
  | .if _ branch none => branch.ReturnFree
  | .if _ branch (some other) => branch.ReturnFree ∧ other.ReturnFree
  | .while _ body => body.ReturnFree
  | .return _ _ => False
  | _ => True

def Stmt.ReturnFreeAll : List Stmt → Prop
  | [] => True
  | s :: rest => s.ReturnFree ∧ Stmt.ReturnFreeAll rest

end

theorem Stmt.ReturnFreeAll.of_mem {ss : List Stmt} (h : Stmt.ReturnFreeAll ss) {s : Stmt}
    (hs : s ∈ ss) : s.ReturnFree := by
  induction ss with
  | nil => cases hs
  | cons first rest ih =>
    obtain rfl | hrest := List.mem_cons.1 hs
    · exact h.1
    · exact ih h.2 hrest

/-! ### The kind of function around a place -/

@[simp] theorem Site.routine_declare (site : Site) (name : Token) :
    (site.declare name).2.routine = site.routine := by
  unfold declare
  split
  · rfl
  · split <;> rfl

@[simp] theorem Site.routine_define (site : Site) (name : Token) :
    (site.define name).routine = site.routine := by
  unfold define
  split <;> rfl

@[simp] theorem Site.routine_introduce (site : Site) (name : Token) :
    (site.introduce name).2.routine = site.routine := by
  simp [introduce]

/-- Behind a statement one is in the same function as before it. -/
theorem Stmt.routine_analyse (site : Site) (s : Stmt) :
    (s.analyse site).2.routine = site.routine := by
  match s with
  | .expression _ | .print _ | .block _ | .return _ none | .return _ (some _) => rfl
  | .var name none | .function ⟨name, _, _⟩ | .class name _ _ => exact site.routine_introduce name
  | .var name (some _) => exact (Site.routine_define _ name).trans (site.routine_declare name)
  | .if _ branch none => exact branch.routine_analyse site
  | .if _ branch (some other) => exact (other.routine_analyse _).trans (branch.routine_analyse site)
  | .while _ body => exact body.routine_analyse site

/-! ### Outside of functions -/

mutual

theorem Stmt.returnFree_of_scopeFaults {site : Site} {s : Stmt}
    (h : scopeFaults (s.analyse site).1 = []) (hsite : site.routine = .none) : s.ReturnFree := by
  match s with
  | .expression _ | .print _ | .var _ _ | .function _ | .class _ _ _ => trivial
  | .block body => exact Stmt.returnFreeAll_of_scopeFaults h hsite
  | .if condition branch none =>
    rw [Stmt.analyse, scopeFaults_append_eq_nil] at h
    exact Stmt.returnFree_of_scopeFaults (s := branch) h.2 hsite
  | .if condition branch (some other) =>
    rw [Stmt.analyse, scopeFaults_append_eq_nil, scopeFaults_append_eq_nil] at h
    have hother := (branch.routine_analyse site).trans hsite
    exact ⟨Stmt.returnFree_of_scopeFaults h.1.2 hsite, Stmt.returnFree_of_scopeFaults h.2 hother⟩
  | .while condition body =>
    rw [Stmt.analyse, scopeFaults_append_eq_nil] at h
    exact Stmt.returnFree_of_scopeFaults (s := body) h.2 hsite
  | .return keyword none =>
    rw [Stmt.analyse, returnFindings, if_pos hsite] at h
    cases h
  | .return keyword (some value) =>
    rw [Stmt.analyse, returnFindings, if_pos hsite] at h
    cases h

theorem Stmt.returnFreeAll_of_scopeFaults {site : Site} {ss : List Stmt}
    (h : scopeFaults (Stmt.analyseAll site ss).1 = []) (hsite : site.routine = .none) :
    Stmt.ReturnFreeAll ss := by
  match ss with
  | [] => trivial
  | s :: rest =>
    rw [Stmt.analyseAll, scopeFaults_append_eq_nil] at h
    have hrest := (s.routine_analyse site).trans hsite
    exact ⟨Stmt.returnFree_of_scopeFaults h.1 hsite, Stmt.returnFreeAll_of_scopeFaults h.2 hrest⟩

end

/-- The statements of a program without faults have no `return` outside of functions. -/
theorem Stmt.returnFree_of_mem {program : List Stmt}
    (h : scopeFaults (Treewalk.analyse program) = []) {s : Stmt} (hs : s ∈ program) :
    s.ReturnFree :=
  (Stmt.returnFreeAll_of_scopeFaults h rfl).of_mem hs

end Treewalk
