import Treewalk.Proofs.Evaluation.Anchors
import Treewalk.Proofs.Evaluation.Visits
import Treewalk.Proofs.Session.InStep

/-!
# Moments of a session

A session runs the programs of those of its texts that are accepted. All that happens in a session
are the moments of these runs.

## Main definitions

* `Session.Begins` — the moments with which the runs of a session begin
* `Session.idsOf` — the node numbers given out, and the depths recorded, up to a text

## Main results

* `Session.visit` — what is known of all moments of a session
* `Session.raises_of_failed` — a program fails at a moment of the session
* `Session.exists_source_of_raises` — it fails at a token of the text whose code fails
-/

namespace Treewalk.Session

variable {s : Session} {fuel : Nat} {sources : List String} {place : Place} {moment : Moment}

/-- The moments with which a session begins to run the programs of the texts it accepts. -/
inductive Begins (s : Session) (fuel : Nat) (sources : List String) : Place → Moment → Prop
  | mk {before after : List String} {source : String} {program : List Stmt} {s₁ : Session}
      (hsources : sources = before ++ source :: after)
      (haccept : (s.runAll fuel before).2.accept source = (.ok program, s₁)) :
      Begins s fuel sources (.top before.length) (.program fuel program s₁.machine)

/-- A session that accepts its first text begins with the program of this text. -/
theorem Begins.first {source : String} {program : List Stmt} {s₁ : Session}
    (haccept : s.accept source = (.ok program, s₁)) (fuel : Nat) (after : List String) :
    Begins s fuel (source :: after) (.top 0) (.program fuel program s₁.machine) := by
  have hsources : source :: after = [] ++ source :: after := rfl
  exact .mk hsources haccept

/-! ### Texts in turn -/

theorem runAll_append (s : Session) (fuel : Nat) (before after : List String) :
    (s.runAll fuel (before ++ after)).2 = ((s.runAll fuel before).2.runAll fuel after).2 := by
  induction before generalizing s with
  | nil => rfl
  | cons source rest ih => exact ih (s.run fuel source).2

theorem runAll_concat (s : Session) (fuel : Nat) (before : List String) (source : String) :
    (s.runAll fuel (before ++ [source])).2 = ((s.runAll fuel before).2.run fuel source).2 :=
  s.runAll_append fuel before [source]

/-- Checking a text, whatever comes of it. -/
theorem follows_accept (hs : s.Ready) (source : String) : s.Follows (s.accept source).2 := by
  by_cases haccepted : Source.IsAccepted source
  · obtain ⟨program, s₁, haccept, htakes⟩ := accept_of_isAccepted hs haccepted
    rw [haccept]
    exact htakes.toFollows
  · exact (accept_of_rejected hs haccepted).2

/-- The node numbers that were given out and the depths that were recorded when the `text`-th text
was checked. -/
def idsOf (s : Session) (fuel : Nat) (sources : List String) (text : Nat) : Numbering :=
  (s.runAll fuel (sources.take (text + 1))).2.ids

section Initial

variable (sink : Sink) (reading : Nat → Float)

/-- Between any two texts the session is in step with itself. -/
theorem inStep_runAll (fuel : Nat) {before after : List String}
    (hsources : sources = before ++ after) :
    InStep (Begins (initial sink reading) fuel sources) .plain before.length
      ((initial sink reading).runAll fuel before).2
      ((initial sink reading).runAll fuel before).2 := by
  induction before using List.reverseRecOn generalizing after with
  | nil => exact initial_inStep sink reading 0
  | append_singleton before source ih =>
    rw [List.append_assoc, List.singleton_append] at hsources
    obtain ⟨-, hstep, -⟩ := (ih hsources).run fuel source fun _ _ haccept => .mk hsources haccept
    rw [runAll_concat, List.length_append]
    exact hstep.later (Nat.le_add_right _ _)

/-- A text adds to the node numbers and depths of the texts before it. -/
theorem idsOf_concat {before after : List String} {source : String}
    (hsources : sources = before ++ source :: after) :
    ((initial sink reading).runAll fuel (before ++ [source])).2.ids =
      (((initial sink reading).runAll fuel before).2.accept source).2.ids := by
  obtain ⟨-, -, hids⟩ := (inStep_runAll sink reading fuel hsources).run fuel source
    fun _ _ haccept => .mk hsources haccept
  rw [runAll_concat, hids]

theorem ids_extends (fuel : Nat) {before middle after : List String}
    (hsources : sources = before ++ middle ++ after) :
    ((initial sink reading).runAll fuel before).2.ids.Extends
      ((initial sink reading).runAll fuel (before ++ middle)).2.ids := by
  induction middle using List.reverseRecOn generalizing after with
  | nil =>
    rw [List.append_nil]
    exact .refl _
  | append_singleton middle source ih =>
    have hsources' : sources = (before ++ middle) ++ source :: after := by
      rw [hsources]
      simp only [List.append_assoc, List.singleton_append]
    have hready := (inStep_runAll sink reading fuel hsources').left
    refine (ih hsources').trans ?_
    rw [← List.append_assoc, idsOf_concat sink reading hsources']
    exact (follows_accept hready source).extends_

theorem idsOf_extends {text text' : Nat} (h : text ≤ text') :
    ((initial sink reading).idsOf fuel sources text).Extends
      ((initial sink reading).idsOf fuel sources text') := by
  obtain ⟨middle, hmiddle⟩ := List.take_prefix_take_left (l := sources) (Nat.succ_le_succ h)
  have hsources := (List.take_append_drop (text' + 1) sources).symm
  rw [← hmiddle] at hsources
  have hext := ids_extends sink reading fuel hsources
  rwa [hmiddle] at hext

/-- What is known of the moments with which the runs of a session begin. -/
theorem visit_of_begins (h : Begins (initial sink reading) fuel sources place moment) :
    Visit (Begins (initial sink reading) fuel sources) ((initial sink reading).idsOf fuel sources)
      place moment := by
  have hbegins := h
  cases h with
  | @mk before after source program s₁ hsources haccept =>
    have hstep := inStep_runAll sink reading fuel hsources
    have htakes := takes_of_accept hstep.left haccept
    have htwin : Stmt.TwinAll .plain (Paired .plain) .top [] program program :=
      htakes.twinAll rfl rfl Respelling.fair_plain (fun _ => admits_plain) htakes
    have hids : (initial sink reading).idsOf fuel sources before.length = s₁.ids := by
      have htake : sources.take (before.length + 1) = before ++ [source] := by
        rw [hsources, List.take_append]
        simp
      rw [idsOf, htake, idsOf_concat sink reading hsources, haccept]
    have hchecked := hstep.follow htakes.toFollows htakes.toFollows
    refine ⟨?_, .top _, [], ?_, ?_⟩
    · exact (congrArg Numbering.table hids).symm
    · show Pair.At _ _ (.diagonal s₁.machine ((initial sink reading).idsOf fuel sources
        before.length).bound before.length) _ _
      rw [hids]
      exact hchecked.at_top
    · show Stmt.TwinAll _ (Pair.linked _ (.diagonal s₁.machine ((initial sink reading).idsOf fuel
        sources before.length).bound before.length) _) _ _ _ _
      rw [hids]
      exact htakes.linked Respelling.fair_plain htakes htwin

/-- What is known of all moments of a session. -/
theorem visit (h : Happens (Begins (initial sink reading) fuel sources) place moment) :
    Visit (Begins (initial sink reading) fuel sources) ((initial sink reading).idsOf fuel sources)
      place moment :=
  visit_of_happens (fun _ _ htext => idsOf_extends sink reading htext)
    (fun _ _ hbegins => visit_of_begins sink reading hbegins) h

/-- A runtime fault that a text ends with is raised at a moment of the session. -/
theorem raises_of_failed {before after : List String} {source : String} {line : Nat}
    {cause : RuntimeFault} (hsources : sources = before ++ source :: after)
    (hfailed : (((initial sink reading).runAll fuel before).2.run fuel source).1 =
      .failed (.runtime line cause)) :
    ∃ place moment token, Happens (Begins (initial sink reading) fuel sources) place moment ∧
      Raises moment token cause ∧ token.line = line := by
  have hstep := inStep_runAll sink reading fuel hsources
  by_cases haccepted : Source.IsAccepted source
  · obtain ⟨program, s₁, haccept, htakes⟩ := accept_of_isAccepted hstep.left haccepted
    have htwin : Stmt.TwinAll .plain (Paired .plain) .top [] program program :=
      htakes.twinAll rfl rfl Respelling.fair_plain (fun _ => admits_plain) htakes
    have hrun := (hstep.follow htakes.toFollows htakes.toFollows).interpret fuel
      (htakes.linked Respelling.fair_plain htakes htwin) (.root (.mk hsources haccept))
    obtain ⟨p, -, -, -, houtcome⟩ := hrun.outcome nofun
    rw [run_of_takes haccept] at hfailed
    have hfailed : (outcomeOf (Eval.interpret fuel program s₁.machine)).1 =
      .failed (.runtime line cause) := hfailed
    have houtcome : Outcome.Twin _ _ (outcomeOf (Eval.interpret fuel program s₁.machine)).1 _ :=
      houtcome
    rw [hfailed] at houtcome
    obtain ⟨place, moment, token, hh, hraises, hline, -⟩ := houtcome.exists_raises
    exact ⟨place, moment, token, hh, hraises, hline⟩
  · rw [run_of_rejected hstep.left haccepted] at hfailed
    cases hfailed

/-- A runtime fault is raised at a token of the text that the failing code comes from. -/
theorem exists_source_of_raises {token : Token} {cause : RuntimeFault}
    (h : Happens (Begins (initial sink reading) fuel sources) place moment)
    (hraises : Raises moment token cause) :
    ∃ source, sources[place.origin]? = some source ∧ token ∈ Source.tokens source := by
  have hanchored : moment.Anchored fun t =>
      ∃ source, sources[place.origin]? = some source ∧ t ∈ Source.tokens source := by
    refine h.anchored (P := fun origin t =>
      ∃ source, sources[origin]? = some source ∧ t ∈ Source.tokens source) ?_
    intro place moment hbegins
    cases hbegins with
    | @mk before after source program s₁ hsources haccept =>
      have hready := (inStep_runAll sink reading fuel hsources).left
      have hparse := (takes_of_accept hready haccept).parse_eq
      have hderives := Grammar.derives_of_parse (Source.parse_result_eq_ok_iff.1 hparse).2
      refine hderives.anchored fun t ht => ⟨source, ?_, (List.takeWhile_prefix _).subset ht⟩
      show sources[before.length]? = some source
      rw [hsources, List.getElem?_append_right le_rfl, Nat.sub_self]
      rfl
  exact hraises.anchored hanchored

end Initial

end Treewalk.Session
