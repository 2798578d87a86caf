import Treewalk.Proofs.Scope.Sites
import Treewalk.Proofs.Tree.Relabel

/-!
# Programs up to node numbers

Scope analysis looks at no node number. A program that is the same as another one up to node numbers
has the same faults, and is a twin of every program that the other one is a twin of.

## Main results

* `Stmt.TwinAll.of_eraseIds_eq` — twins up to node numbers
* `scopeFaults_analyse_eq` — the faults of a program up to node numbers
-/

namespace Treewalk

/-! ### Twins -/

section Twins

variable {r : Edit}

theorem Paired.of_relabel_eq {kind : OccurrenceKind} {site : Site} {marks : List Bool}
    {use use' use'' : Use} (h : Paired r kind site marks use use')
    (huse : use''.relabel .eraseIds = use'.relabel .eraseIds) :
    Paired r kind site marks use use'' := by
  have htoken : use''.token = use'.token := by
    injection huse
  have hname : use''.name = use'.name := congrArg Token.lexeme htoken
  exact ⟨htoken ▸ h.kind_eq, htoken ▸ h.line_eq, hname ▸ h.spells, h.ne_new, h.used, h.names⟩

mutual

theorem Expr.Twin.of_eraseIds_eq {site : Site} {marks : List Bool} : ∀ {e e' e'' : Expr},
    Expr.Twin r (Paired r) site marks e e' → e''.eraseIds = e'.eraseIds →
      Expr.Twin r (Paired r) site marks e e''
  | _, _, e'', .literal, h => by
    cases e'' with
    | literal =>
      injection h with hvalue
      exact hvalue ▸ .literal
    | _ => cases h
  | _, _, e'', .unary he, h => by
    cases e'' with
    | unary =>
      injection h with hoperator h
      obtain rfl := hoperator
      exact .unary (he.of_eraseIds_eq h)
    | _ => cases h
  | _, _, e'', .binary hleft hright, h => by
    cases e'' with
    | binary =>
      injection h with h hoperator h'
      obtain rfl := hoperator
      exact .binary (hleft.of_eraseIds_eq h) (hright.of_eraseIds_eq h')
    | _ => cases h
  | _, _, e'', .logical hleft hright, h => by
    cases e'' with
    | logical =>
      injection h with h hoperator h'
      obtain rfl := hoperator
      exact .logical (hleft.of_eraseIds_eq h) (hright.of_eraseIds_eq h')
    | _ => cases h
  | _, _, e'', .group he, h => by
    cases e'' with
    | group =>
      injection h with h
      exact .group (he.of_eraseIds_eq h)
    | _ => cases h
  | _, _, e'', .variable huse, h => by
    cases e'' with
    | «variable» =>
      injection h with h
      exact .variable (huse.of_relabel_eq h)
    | _ => cases h
  | _, _, e'', .assign huse hvalue, h => by
    cases e'' with
    | assign =>
      injection h with h h'
      exact .assign (huse.of_relabel_eq h) (hvalue.of_eraseIds_eq h')
    | _ => cases h
  | _, _, e'', .call hcallee harguments, h => by
    cases e'' with
    | call =>
      injection h with h hparen h'
      obtain rfl := hparen
      rw [Expr.relabelAll_eq_map, Expr.relabelAll_eq_map] at h'
      exact .call (hcallee.of_eraseIds_eq h) (harguments.of_eraseIds_eq h')
    | _ => cases h
  | _, _, e'', .property hobject, h => by
    cases e'' with
    | property =>
      injection h with h hname
      obtain rfl := hname
      exact .property (hobject.of_eraseIds_eq h)
    | _ => cases h
  | _, _, e'', .setProperty hobject hvalue, h => by
    cases e'' with
    | setProperty =>
      injection h with h hname h'
      obtain rfl := hname
      exact .setProperty (hobject.of_eraseIds_eq h) (hvalue.of_eraseIds_eq h')
    | _ => cases h
  | _, _, e'', .this huse, h => by
    cases e'' with
    | this =>
      injection h with h
      exact .this (huse.of_relabel_eq h)
    | _ => cases h
  | _, _, e'', .super huse, h => by
    cases e'' with
    | super =>
      injection h with h hmethod
      obtain rfl := hmethod
      exact .super (huse.of_relabel_eq h)
    | _ => cases h

theorem Expr.TwinAll.of_eraseIds_eq {site : Site} {marks : List Bool} : ∀ {es es' es'' : List Expr},
    Expr.TwinAll r (Paired r) site marks es es' → es''.map Expr.eraseIds = es'.map Expr.eraseIds →
      Expr.TwinAll r (Paired r) site marks es es''
  | _, _, [], .nil, _ => .nil
  | _, _, _ :: _, .cons he hrest, h =>
    have h := List.cons.inj h
    .cons (he.of_eraseIds_eq h.1) (hrest.of_eraseIds_eq h.2)

end

theorem SuperclassTwin.of_map_eq {site : Site} {marks : List Bool} {name : Token}
    {o o' o'' : Option Use} (h : SuperclassTwin (Paired r) site marks name o o')
    (heq : o''.map (·.relabel .eraseIds) = o'.map (·.relabel .eraseIds)) :
    SuperclassTwin (Paired r) site marks name o o'' := by
  cases h with
  | none =>
    cases o'' with
    | none => exact .none
    | some => cases heq
  | some huse hname =>
    cases o'' with
    | none => cases heq
    | some use'' => exact .some (huse.of_relabel_eq (Option.some.inj heq)) hname

mutual

theorem Stmt.Twin.of_eraseIds_eq : ∀ {site : Site} {marks : List Bool} {s s' s'' : Stmt},
    Stmt.Twin r (Paired r) site marks s s' → s''.eraseIds = s'.eraseIds →
      Stmt.Twin r (Paired r) site marks s s''
  | _, _, _, _, s'', .expression hvalue, h => by
    cases s'' with
    | expression =>
      injection h with h
      exact .expression (hvalue.of_eraseIds_eq h)
    | «if» _ _ other => cases other <;> cases h
    | _ => cases h
  | _, _, _, _, s'', .print hvalue, h => by
    cases s'' with
    | print =>
      injection h with h
      exact .print (hvalue.of_eraseIds_eq h)
    | «if» _ _ other => cases other <;> cases h
    | _ => cases h
  | _, _, _, _, s'', .declaration hname, h => by
    cases s'' with
    | var _ initializer =>
      injection h with hlexeme h
      obtain rfl := hlexeme
      cases initializer with
      | none => exact .declaration hname
      | some => cases h
    | «if» _ _ other => cases other <;> cases h
    | _ => cases h
  | _, _, _, _, s'', .definition hname hvalue, h => by
    cases s'' with
    | var _ initializer =>
      injection h with hlexeme h
      obtain rfl := hlexeme
      cases initializer with
      | none => cases h
      | some => exact .definition hname (hvalue.of_eraseIds_eq (Option.some.inj h))
    | «if» _ _ other => cases other <;> cases h
    | _ => cases h
  | _, _, _, _, s'', .block mark hmark hbody, h => by
    cases s'' with
    | block =>
      injection h with h
      rw [Stmt.relabelAll_eq_map, Stmt.relabelAll_eq_map] at h
      exact .block mark hmark (hbody.of_eraseIds_eq h)
    | «if» _ _ other => cases other <;> cases h
    | _ => cases h
  | _, _, _, _, s'', .ifThen hcondition hbranch hb, h => by
    cases s'' with
    | «if» _ _ other =>
      cases other with
      | some =>
        injection h with h h' h''
        cases h''
      | none =>
        injection h with h h'
        exact .ifThen (hcondition.of_eraseIds_eq h) (hbranch.of_eraseIds_eq h') hb
    | _ => cases h
  | _, _, _, _, s'', .ifElse hcondition hbranch hb hother ho, h => by
    cases s'' with
    | «if» _ _ other =>
      cases other with
      | none =>
        injection h with h h' h''
        cases h''
      | some =>
        injection h with h h' h''
        exact .ifElse (hcondition.of_eraseIds_eq h) (hbranch.of_eraseIds_eq h') hb
          (hother.of_eraseIds_eq (Option.some.inj h'')) ho
    | _ => cases h
  | _, _, _, _, s'', .while hcondition hbody hb, h => by
    cases s'' with
    | «while» =>
      injection h with h h'
      exact .while (hcondition.of_eraseIds_eq h) (hbody.of_eraseIds_eq h') hb
    | «if» _ _ other => cases other <;> cases h
    | _ => cases h
  | _, _, _, _, s'', .function hname hroutine, h => by
    cases s'' with
    | function =>
      injection h with h
      have hroutine' := hroutine.of_eraseIds_eq h
      refine .function ?_ hroutine'
      rw [hroutine'.name_eq.trans hroutine.name_eq.symm]
      exact hname
    | «if» _ _ other => cases other <;> cases h
    | _ => cases h
  | _, _, _, _, s'', .return, h => by
    cases s'' with
    | «return» _ value =>
      injection h with hkeyword h
      obtain rfl := hkeyword
      cases value with
      | none => exact .return
      | some => cases h
    | «if» _ _ other => cases other <;> cases h
    | _ => cases h
  | _, _, _, _, s'', .returnValue hvalue, h => by
    cases s'' with
    | «return» _ value =>
      injection h with hkeyword h
      obtain rfl := hkeyword
      cases value with
      | none => cases h
      | some => exact .returnValue (hvalue.of_eraseIds_eq (Option.some.inj h))
    | «if» _ _ other => cases other <;> cases h
    | _ => cases h
  | _, _, _, _, s'', .class hname hsuperclass hmethods, h => by
    cases s'' with
    | «class» =>
      injection h with hlexeme h h'
      rw [Routine.relabelAll_eq_map, Routine.relabelAll_eq_map] at h'
      have hmethods' := hmethods.of_eraseIds_eq h'
      obtain rfl := hlexeme
      exact .class hname (hsuperclass.of_map_eq h) hmethods'
    | «if» _ _ other => cases other <;> cases h
    | _ => cases h

theorem Stmt.TwinAll.of_eraseIds_eq : ∀ {site : Site} {marks : List Bool} {ss ss' ss'' : List Stmt},
    Stmt.TwinAll r (Paired r) site marks ss ss' → ss''.map Stmt.eraseIds = ss'.map Stmt.eraseIds →
      Stmt.TwinAll r (Paired r) site marks ss ss''
  | _, _, _, _, [], .nil, _ => .nil
  | _, _, _, _, _ :: _, .cons hs hrest, h =>
    have h := List.cons.inj h
    .cons (hs.of_eraseIds_eq h.1) (hrest.of_eraseIds_eq h.2)

theorem Routine.Twin.of_eraseIds_eq : ∀ {site : Site} {marks : List Bool} {context : RoutineContext}
    {routine routine' routine'' : Routine},
    Routine.Twin r (Paired r) site marks context routine routine' →
      routine''.eraseIds = routine'.eraseIds →
        Routine.Twin r (Paired r) site marks context routine routine''
  | _, _, _, _, _, ⟨name, parameters, body⟩, .mk mark hmark hparameters hbody, h => by
    injection h with hname h h'
    obtain rfl := hname
    change List.map id parameters = List.map id _ at h
    rw [List.map_id, List.map_id] at h
    obtain rfl := h
    rw [Stmt.relabelAll_eq_map, Stmt.relabelAll_eq_map] at h'
    exact .mk mark hmark hparameters (hbody.of_eraseIds_eq h')

theorem MethodsTwin.of_eraseIds_eq : ∀ {site : Site} {marks : List Bool}
    {methods methods' methods'' : List Routine},
    MethodsTwin r (Paired r) site marks methods methods' →
      methods''.map Routine.eraseIds = methods'.map Routine.eraseIds →
        MethodsTwin r (Paired r) site marks methods methods''
  | _, _, _, _, [], .nil, _ => .nil
  | _, _, _, _, _ :: _, .cons hmethod hrest, h =>
    have h := List.cons.inj h
    .cons (hmethod.of_eraseIds_eq h.1) (hrest.of_eraseIds_eq h.2)

end

end Twins

/-! ### Faults -/

theorem scopeFaults_append (a b : List Finding) :
    scopeFaults (a ++ b) = scopeFaults a ++ scopeFaults b :=
  List.filterMap_append

theorem Use.scopeFaults_readFindings_relabel (site : Site) (use : Use) :
    scopeFaults ((use.relabel .eraseIds).readFindings site) =
      scopeFaults (use.readFindings site) := by
  rw [readFindings, readFindings, scopeFaults_append, scopeFaults_append, Site.scopeFaults_bind,
    Site.scopeFaults_bind]
  rfl

mutual

/-- The faults of an expression do not depend on its node numbers. -/
theorem Expr.scopeFaults_relabel (site : Site) (e : Expr) :
    scopeFaults ((e.relabel .eraseIds).findings site) = scopeFaults (e.findings site) := by
  match e with
  | .literal _ => rfl
  | .unary _ operand => exact operand.scopeFaults_relabel site
  | .binary left _ right | .logical left _ right =>
    simp only [Expr.relabel, Expr.findings, scopeFaults_append, left.scopeFaults_relabel site,
      right.scopeFaults_relabel site]
  | .group inner => exact inner.scopeFaults_relabel site
  | .variable use => exact use.scopeFaults_readFindings_relabel site
  | .assign target value =>
    simp only [Expr.relabel, Expr.findings, scopeFaults_append, Site.scopeFaults_bind,
      value.scopeFaults_relabel site]
  | .call callee _ arguments =>
    simp only [Expr.relabel, Expr.findings, scopeFaults_append, callee.scopeFaults_relabel site,
      Expr.scopeFaults_relabelAll site arguments]
  | .property object _ => exact object.scopeFaults_relabel site
  | .setProperty object _ value =>
    simp only [Expr.relabel, Expr.findings, scopeFaults_append, object.scopeFaults_relabel site,
      value.scopeFaults_relabel site]
  | .this use =>
    simp only [Expr.relabel, Expr.findings]
    split
    · rfl
    · rw [Site.scopeFaults_bind, Site.scopeFaults_bind]
  | .super use _ =>
    have hbind (finding : Finding) (use : Use) :
        scopeFaults (finding :: site.bind use) = scopeFaults [finding] := by
      rw [← List.singleton_append, scopeFaults_append, Site.scopeFaults_bind, List.append_nil]
    simp only [Expr.relabel, Expr.findings]
    split
    · rw [hbind, hbind]
      rfl
    · rw [hbind, hbind]
      rfl
    · rw [Site.scopeFaults_bind, Site.scopeFaults_bind]

theorem Expr.scopeFaults_relabelAll (site : Site) (es : List Expr) :
    scopeFaults (Expr.findingsAll site (Expr.relabelAll .eraseIds es)) =
      scopeFaults (Expr.findingsAll site es) := by
  match es with
  | [] => rfl
  | e :: rest =>
    simp only [Expr.relabelAll, Expr.findingsAll, scopeFaults_append, e.scopeFaults_relabel site,
      Expr.scopeFaults_relabelAll site rest]

end

theorem scopeFaults_clauseFindings_map (site : Site) (name : Token) (superclass : Option Use) :
    scopeFaults (clauseFindings site name (superclass.map (·.relabel .eraseIds))) =
      scopeFaults (clauseFindings site name superclass) := by
  cases superclass with
  | none => rfl
  | some use =>
    simp only [Option.map_some, clauseFindings, superclassFindings, scopeFaults_append,
      use.scopeFaults_readFindings_relabel site]
    rfl

theorem Site.enterClass_map (site : Site) (superclass : Option Use) :
    site.enterClass (superclass.map (·.relabel .eraseIds)) = site.enterClass superclass := by
  cases superclass <;> rfl

mutual

/-- The faults of a statement and the place behind it do not depend on its node numbers. -/
theorem Stmt.analyse_relabel (site : Site) (s : Stmt) :
    ((s.relabel .eraseIds).analyse site).2 = (s.analyse site).2 ∧
      scopeFaults ((s.relabel .eraseIds).analyse site).1 = scopeFaults (s.analyse site).1 := by
  match s with
  | .expression value | .print value => exact ⟨rfl, value.scopeFaults_relabel site⟩
  | .var name none => exact ⟨rfl, rfl⟩
  | .var name (some value) =>
    simp only [Stmt.relabel, Option.map_some, Stmt.analyse, scopeFaults_append,
      Relabeling.eraseIds_token, value.scopeFaults_relabel, and_self]
  | .block body => exact ⟨rfl, (Stmt.analyseAll_relabel _ body).2⟩
  | .if condition branch none =>
    obtain ⟨hbehind, hfaults⟩ := branch.analyse_relabel site
    simp only [Stmt.relabel, Stmt.analyse, scopeFaults_append, condition.scopeFaults_relabel site,
      hbehind, hfaults, and_self]
  | .if condition branch (some other) =>
    obtain ⟨hbehind, hfaults⟩ := branch.analyse_relabel site
    obtain ⟨hbehind', hfaults'⟩ := other.analyse_relabel (branch.analyse site).2
    simp only [Stmt.relabel, Stmt.analyse, scopeFaults_append, condition.scopeFaults_relabel site,
      hbehind, hfaults, hbehind', hfaults', and_self]
  | .while condition body =>
    obtain ⟨hbehind, hfaults⟩ := body.analyse_relabel site
    simp only [Stmt.relabel, Stmt.analyse, scopeFaults_append, condition.scopeFaults_relabel site,
      hbehind, hfaults, and_self]
  | .function routine =>
    have hname : (routine.relabel .eraseIds).name = routine.name := by cases routine; rfl
    simp only [Stmt.relabel, Stmt.analyse, scopeFaults_append, hname,
      routine.scopeFaults_relabel, and_self]
  | .return keyword none => exact ⟨rfl, rfl⟩
  | .return keyword (some value) =>
    simp only [Stmt.relabel, Option.map_some, Stmt.analyse, scopeFaults_append,
      Relabeling.eraseIds_token, value.scopeFaults_relabel site, and_self]
  | .class name superclass methods =>
    simp only [Stmt.relabel, Stmt.analyse_class, scopeFaults_append, Relabeling.eraseIds_token,
      scopeFaults_clauseFindings_map, Site.enterClass_map, Routine.scopeFaults_relabelAll, and_self]

theorem Stmt.analyseAll_relabel (site : Site) (ss : List Stmt) :
    (Stmt.analyseAll site (Stmt.relabelAll .eraseIds ss)).2 = (Stmt.analyseAll site ss).2 ∧
      scopeFaults (Stmt.analyseAll site (Stmt.relabelAll .eraseIds ss)).1 =
        scopeFaults (Stmt.analyseAll site ss).1 := by
  match ss with
  | [] => exact ⟨rfl, rfl⟩
  | s :: rest =>
    obtain ⟨hbehind, hfaults⟩ := s.analyse_relabel site
    obtain ⟨hbehind', hfaults'⟩ := Stmt.analyseAll_relabel (s.analyse site).2 rest
    simp only [Stmt.relabelAll, Stmt.analyseAll, scopeFaults_append, hbehind, hfaults, hbehind',
      hfaults', and_self]

theorem Routine.scopeFaults_relabel (site : Site) (context : RoutineContext) (routine : Routine) :
    scopeFaults ((routine.relabel .eraseIds).findings site context) =
      scopeFaults (routine.findings site context) := by
  match routine with
  | ⟨name, parameters, body⟩ =>
    have hparameters : parameters.map Relabeling.eraseIds.token = parameters :=
      List.map_id'' (fun _ => rfl) parameters
    simp only [Routine.relabel, Routine.findings, scopeFaults_append, hparameters,
      (Stmt.analyseAll_relabel _ body).2]

theorem Routine.scopeFaults_relabelAll (site : Site) (methods : List Routine) :
    scopeFaults (Routine.findingsAll site (Routine.relabelAll .eraseIds methods)) =
      scopeFaults (Routine.findingsAll site methods) := by
  match methods with
  | [] => rfl
  | method :: rest =>
    have hname : (method.relabel .eraseIds).name = method.name := by cases method; rfl
    simp only [Routine.relabelAll, Routine.findingsAll, scopeFaults_append, hname,
      method.scopeFaults_relabel, Routine.scopeFaults_relabelAll site rest]

end

/-- Programs that are the same up to node numbers have the same faults. -/
theorem scopeFaults_analyse_eq {program program' : List Stmt}
    (h : program'.map Stmt.eraseIds = program.map Stmt.eraseIds) :
    scopeFaults (analyse program') = scopeFaults (analyse program) := by
  have herase (ss : List Stmt) : scopeFaults (analyse (ss.map Stmt.eraseIds)) =
      scopeFaults (analyse ss) := by
    have hmap : ss.map Stmt.eraseIds = Stmt.relabelAll .eraseIds ss :=
      (Stmt.relabelAll_eq_map _ ss).symm
    rw [hmap]
    exact (Stmt.analyseAll_relabel .top ss).2
  rw [← herase program', h, herase]

end Treewalk
