import Treewalk.Proofs.Scope.Linked

/-!
# Corresponding uses

The uses of two twin programs correspond to each other one by one, in the order in which they stand
in the trees. If they are linked, the depth tables tell the same of any two that correspond.

## Main definitions

* `UseRelation.Somewhere` — what is said of two uses, wherever they stand

## Main results

* `Stmt.TwinAll.occurrences` — the uses of twin programs correspond to each other
* `Stmt.TwinAll.depths_eq` — they have the same depths
-/

namespace Treewalk

/-- Two occurrences of one kind, of whose uses something is said at the place where they stand. -/
def UseRelation.Somewhere (U : UseRelation) (o o' : Occurrence) : Prop :=
  o'.kind = o.kind ∧ ∃ site marks, U o.kind site marks o.use o'.use

variable {r : Edit} {U : UseRelation}

mutual

theorem Expr.Twin.occurrences {site : Site} {marks : List Bool} : ∀ {e e' : Expr},
    Expr.Twin r U site marks e e' → List.Forall₂ U.Somewhere e.occurrences e'.occurrences
  | _, _, .literal => .nil
  | _, _, .unary h => h.occurrences
  | _, _, .binary hleft hright => List.rel_append hleft.occurrences hright.occurrences
  | _, _, .logical hleft hright => List.rel_append hleft.occurrences hright.occurrences
  | _, _, .group h => h.occurrences
  | _, _, .variable h => .cons ⟨rfl, _, _, h⟩ .nil
  | _, _, .assign h hvalue => .cons ⟨rfl, _, _, h⟩ hvalue.occurrences
  | _, _, .call hcallee harguments => List.rel_append hcallee.occurrences harguments.occurrences
  | _, _, .property h => h.occurrences
  | _, _, .setProperty h hvalue => List.rel_append h.occurrences hvalue.occurrences
  | _, _, .this h => .cons ⟨rfl, _, _, h⟩ .nil
  | _, _, .super h => .cons ⟨rfl, _, _, h⟩ .nil

theorem Expr.TwinAll.occurrences {site : Site} {marks : List Bool} : ∀ {es es' : List Expr},
    Expr.TwinAll r U site marks es es' →
    List.Forall₂ U.Somewhere (Expr.occurrencesAll es) (Expr.occurrencesAll es')
  | _, _, .nil => .nil
  | _, _, .cons h hrest => List.rel_append h.occurrences hrest.occurrences

end

mutual

theorem Stmt.Twin.occurrences : ∀ {site : Site} {marks : List Bool} {s s' : Stmt},
    Stmt.Twin r U site marks s s' → List.Forall₂ U.Somewhere s.occurrences s'.occurrences
  | _, _, _, _, .expression h => h.occurrences
  | _, _, _, _, .print h => h.occurrences
  | _, _, _, _, .declaration _ => .nil
  | _, _, _, _, .definition _ hvalue => hvalue.occurrences
  | _, _, _, _, .block _ _ h => h.occurrences
  | _, _, _, _, .ifThen hcondition hbranch _ =>
    List.rel_append hcondition.occurrences hbranch.occurrences
  | _, _, _, _, .ifElse hcondition hbranch _ hother _ =>
    List.rel_append (List.rel_append hcondition.occurrences hbranch.occurrences) hother.occurrences
  | _, _, _, _, .while hcondition hbody _ =>
    List.rel_append hcondition.occurrences hbody.occurrences
  | _, _, _, _, .function _ h => h.occurrences
  | _, _, _, _, .return => .nil
  | _, _, _, _, .returnValue h => h.occurrences
  | _, _, _, _, .class _ .none hmethods => hmethods.occurrences
  | _, _, _, _, .class _ (.some h _) hmethods => .cons ⟨rfl, _, _, h⟩ hmethods.occurrences

/-- The uses of twin programs correspond to each other. -/
theorem Stmt.TwinAll.occurrences : ∀ {site : Site} {marks : List Bool} {ss ss' : List Stmt},
    Stmt.TwinAll r U site marks ss ss' →
    List.Forall₂ U.Somewhere (Stmt.occurrencesAll ss) (Stmt.occurrencesAll ss')
  | _, _, _, _, .nil => .nil
  | _, _, _, _, .cons h hrest => List.rel_append h.occurrences hrest.occurrences

theorem Routine.Twin.occurrences : ∀ {site : Site} {marks : List Bool} {context : RoutineContext}
    {routine routine' : Routine}, Routine.Twin r U site marks context routine routine' →
    List.Forall₂ U.Somewhere routine.occurrences routine'.occurrences
  | _, _, _, _, _, .mk _ _ _ hbody => hbody.occurrences

theorem MethodsTwin.occurrences : ∀ {site : Site} {marks : List Bool}
    {methods methods' : List Routine}, MethodsTwin r U site marks methods methods' →
    List.Forall₂ U.Somewhere (Routine.occurrencesAll methods) (Routine.occurrencesAll methods')
  | _, _, _, _, .nil => .nil
  | _, _, _, _, .cons h hrest => List.rel_append h.occurrences hrest.occurrences

end

/-- Two uses that correspond to each other have the same depth, if the programs are linked. -/
theorem Stmt.TwinAll.depths_eq {N N' : Numbering} {site : Site} {marks : List Bool}
    {ss ss' : List Stmt} (h : Stmt.TwinAll r (Linked r N N') site marks ss ss') :
    List.Forall₂
      (fun o o' => o'.kind = o.kind ∧ N'.table.depth? o'.use.id = N.table.depth? o.use.id)
      (Stmt.occurrencesAll ss) (Stmt.occurrencesAll ss') :=
  h.occurrences.imp fun _ _ ⟨hkind, _, _, hlinked⟩ =>
    ⟨hkind, hlinked.right.2.trans hlinked.left.2.symm⟩

end Treewalk
