import Mathlib.Data.List.Nodup
import Mathlib.Data.List.Perm.Basic
import Treewalk.Proofs.Scope.Walk
import Treewalk.Session.Basic

/-!
# Violations of the scope rules

Checking a program reports what breaks the scope rules: one diagnostic for every landmark of the
outline that breaks one, and no other. What is wrong at one place neither hides nor causes anything
at another place.

## Main definitions

* `Reported` — faults with the landmarks they belong to

## Main results

* `Walks.exists_reported` — the faults found on the way are those of the landmarks on the way
* `Session.check_eq_violations` — the diagnostics of a program are its violations
-/

namespace Treewalk

/-- The faults that are found on the way from one spot to another one, each with the position of the
landmark it belongs to, and at most one at each position. -/
structure Reported (before after : List Entry) (findings : List Finding)
    (reports : List (Nat × Diagnostic)) : Prop where
  perm : (scopeFaults findings).Perm (reports.map Prod.snd)
  nodup : (reports.map Prod.fst).Nodup
  mem_iff : ∀ position diagnostic, (position, diagnostic) ∈ reports ↔
    ∃ spot landmark, Passes before after position spot landmark ∧ Breaches spot landmark diagnostic

namespace Reported

variable {before after : List Entry} {e : Entry} {first rest findings : List Finding}
  {reports : List (Nat × Diagnostic)}

theorem nil (before : List Entry) : Reported before before [] [] := by
  refine ⟨.refl _, .nil, fun position diagnostic => iff_of_false List.not_mem_nil ?_⟩
  rintro ⟨spot, landmark, hpasses, -⟩
  exact not_passes_self hpasses

theorem lt_of_mem (h : Reported (before ++ [e]) after rest reports) {position : Nat}
    (hposition : position ∈ reports.map Prod.fst) : before.length < position := by
  obtain ⟨⟨_, diagnostic⟩, hreport, rfl⟩ := List.mem_map.1 hposition
  obtain ⟨spot, landmark, ⟨hle, -⟩, -⟩ := (h.mem_iff _ diagnostic).1 hreport
  rwa [List.length_append] at hle

/-- The reports for the first landmark stand before the others. -/
theorem step (h : Reported (before ++ [e]) after rest reports)
    (hfirst : Finds ⟨before, e.around⟩ e.landmark first) (hrest : Walks (before ++ [e]) after rest)
    (hperm : findings.Perm (first ++ rest)) :
    Reported before after findings
      ((scopeFaults first).map (before.length, ·) ++ reports) := by
  refine ⟨?_, ?_, fun position diagnostic => ?_⟩
  · have hfaults : (scopeFaults findings).Perm (scopeFaults first ++ scopeFaults rest) :=
      scopeFaults_append first rest ▸ hperm.filterMap _
    have hfirst' : ((scopeFaults first).map (before.length, ·)).map Prod.snd =
        scopeFaults first := by simp [Function.comp_def]
    rw [List.map_append, hfirst']
    exact hfaults.trans (h.perm.append_left _)
  · have hfirst' : ((scopeFaults first).map (before.length, ·)).map Prod.fst =
        List.replicate (scopeFaults first).length before.length := by simp [Function.comp_def]
    rw [List.map_append, hfirst', List.nodup_append, List.nodup_replicate]
    refine ⟨hfirst.length_le, h.nodup, fun position hposition position' hposition' => ?_⟩
    rw [List.eq_of_mem_replicate hposition]
    exact Nat.ne_of_lt (h.lt_of_mem hposition')
  · have hfirst' : (position, diagnostic) ∈ (scopeFaults first).map (before.length, ·) ↔
        position = before.length ∧ Breaches ⟨before, e.around⟩ e.landmark diagnostic := by
      simp [← hfirst.mem_faults, eq_comm, and_comm]
    rw [List.mem_append, hfirst', h.mem_iff]
    simp only [hrest.passes_iff, or_and_right, exists_or]
    simp

end Reported

theorem Walks.exists_reported {before after : List Entry} {findings : List Finding}
    (h : Walks before after findings) : ∃ reports, Reported before after findings reports := by
  induction h with
  | refl before => exact ⟨[], .nil before⟩
  | step hfirst hrest hperm ih =>
    obtain ⟨reports, hreports⟩ := ih
    exact ⟨_, hreports.step hfirst hrest hperm⟩

/-- **Exactly the violations are reported.** The diagnostics of a program belong to different
landmarks of its outline, and to each landmark that breaks a scope rule belongs the one that tells
this rule. So nothing is wrong with a program if and only if no landmark breaks a rule. -/
theorem Session.check_eq_violations (s : Session) (program : List Stmt) :
    ∃ reports : List (Nat × Diagnostic), (s.check program).1 = reports.map Prod.snd ∧
      (reports.map Prod.fst).Nodup ∧
      (∀ position diagnostic, (position, diagnostic) ∈ reports ↔
        Violation program position diagnostic) ∧
      ((s.check program).1 = [] ↔
        ∀ position diagnostic, ¬Violation program position diagnostic) := by
  obtain ⟨reports, hperm, hnodup, hmem⟩ := (walks_analyse program).exists_reported
  -- the reports can be put in the order in which the walk makes them
  obtain ⟨ordered, hcheck, hperm'⟩ : ∃ ordered : List (Nat × Diagnostic),
      (s.check program).1 = ordered.map Prod.snd ∧ ordered.Perm reports := by
    have hcomp := congrFun₂ (List.eq_map_comp_perm (Prod.snd : Nat × Diagnostic → Diagnostic))
      (s.check program).1 reports
    exact hcomp.mpr hperm
  have hviolation (position : Nat) (diagnostic : Diagnostic) :
      (position, diagnostic) ∈ ordered ↔ Violation program position diagnostic := by
    simp only [hperm'.mem_iff, hmem, Violation, stands_iff_passes]
  refine ⟨ordered, hcheck, (hperm'.map Prod.fst).nodup_iff.2 hnodup, hviolation, ?_⟩
  rw [hcheck, List.map_eq_nil_iff, List.eq_nil_iff_forall_not_mem, Prod.forall]
  exact forall₂_congr fun position diagnostic => not_congr (hviolation position diagnostic)

end Treewalk
