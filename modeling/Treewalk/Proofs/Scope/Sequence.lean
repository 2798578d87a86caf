import Treewalk.Proofs.Scope.Linking

/-!
# One program behind another

Scope analysis leaves the top level as it was: no statement declares a name there. So a program that
stands behind another one is analysed as if it stood alone, and its uses have the same depths.

## Main results

* `Stmt.analyseAll_top` — the place behind a program
* `scopeFaults_analyse_append` — what is wrong with two programs, one behind the other
* `Numbering.tellsAll_placedAll_append` — the depths of their uses
-/

namespace Treewalk

variable {site : Site}

theorem Site.declare_of_scopes_eq_nil (h : site.scopes = []) (name : Token) :
    (site.declare name).2 = site := by
  rw [declare, h]

theorem Site.define_of_scopes_eq_nil (h : site.scopes = []) (name : Token) :
    site.define name = site := by
  rw [define, h]

theorem Site.introduce_of_scopes_eq_nil (h : site.scopes = []) (name : Token) :
    (site.introduce name).2 = site := by
  show ((site.declare name).2).define name = site
  rw [declare_of_scopes_eq_nil h, define_of_scopes_eq_nil h]

/-- Where there is no scope, the place behind a statement is the same as before it. -/
theorem Stmt.analyse_of_scopes_eq_nil (h : site.scopes = []) (s : Stmt) :
    (s.analyse site).2 = site := by
  match s with
  | .expression _ | .print _ | .block _ | .return _ none | .return _ (some _) => rfl
  | .var name none => exact Site.introduce_of_scopes_eq_nil h name
  | .var name (some _) =>
    show ((site.declare name).2).define name = site
    exact Site.introduce_of_scopes_eq_nil h name
  | .if _ branch none => exact branch.analyse_of_scopes_eq_nil h
  | .if _ branch (some other) =>
    show (other.analyse (branch.analyse site).2).2 = site
    rw [branch.analyse_of_scopes_eq_nil h, other.analyse_of_scopes_eq_nil h]
  | .while _ body => exact body.analyse_of_scopes_eq_nil h
  | .function routine => exact Site.introduce_of_scopes_eq_nil h routine.name
  | .class name _ _ => exact Site.introduce_of_scopes_eq_nil h name

theorem Stmt.analyseAll_of_scopes_eq_nil (h : site.scopes = []) (ss : List Stmt) :
    (Stmt.analyseAll site ss).2 = site := by
  induction ss with
  | nil => rfl
  | cons s rest ih =>
    show (Stmt.analyseAll (s.analyse site).2 rest).2 = site
    rw [s.analyse_of_scopes_eq_nil h, ih]

/-- Behind a program is the top level again. -/
theorem Stmt.analyseAll_top (ss : List Stmt) : (Stmt.analyseAll .top ss).2 = .top :=
  Stmt.analyseAll_of_scopes_eq_nil rfl ss

theorem Stmt.analyseAll_append (site : Site) (ss ss' : List Stmt) :
    (Stmt.analyseAll site (ss ++ ss')).1 = (Stmt.analyseAll site ss).1 ++
      (Stmt.analyseAll (Stmt.analyseAll site ss).2 ss').1 := by
  induction ss generalizing site with
  | nil => rfl
  | cons s rest ih =>
    show (s.analyse site).1 ++ (Stmt.analyseAll (s.analyse site).2 (rest ++ ss')).1 = _
    rw [ih, ← List.append_assoc]
    rfl

theorem Stmt.placedAll_append (site : Site) (ss ss' : List Stmt) :
    Stmt.placedAll site (ss ++ ss') = Stmt.placedAll site ss ++
      Stmt.placedAll (Stmt.analyseAll site ss).2 ss' := by
  induction ss generalizing site with
  | nil => rfl
  | cons s rest ih =>
    rw [List.cons_append, Stmt.placedAll, ih, Stmt.placedAll, List.append_assoc]
    rfl

/-- Nothing is wrong with a program behind another one if nothing is wrong with either. -/
theorem scopeFaults_analyse_append (program program' : List Stmt) :
    scopeFaults (analyse (program ++ program')) = [] ↔
      scopeFaults (analyse program) = [] ∧ scopeFaults (analyse program') = [] := by
  rw [analyse, Stmt.analyseAll_append, Stmt.analyseAll_top, scopeFaults_append_eq_nil]
  rfl

/-- A table that tells the depths of two programs, one behind the other, tells those of both. -/
theorem Numbering.tellsAll_placedAll_append {N : Numbering} {program program' : List Stmt} :
    N.TellsAll (Stmt.placedAll .top (program ++ program')) ↔
      N.TellsAll (Stmt.placedAll .top program) ∧ N.TellsAll (Stmt.placedAll .top program') := by
  rw [Stmt.placedAll_append, Stmt.analyseAll_top, tellsAll_append]

end Treewalk
