import Treewalk.Proofs.Scope.Walk
import Treewalk.Proofs.Session.Depths

/-!
# Nearest declarations

The depth that is recorded for a use of a name is the number of the nearest scope that declares the
name in the text before the use. Nothing is recorded if there is no such scope, and for a `this`
outside of all classes. It does not matter what else is wrong with the program.

## Main definitions

* `DepthsNearest` — a depth table tells of a program what its outline does

## Main results

* `bound_mem_analyse` — the depths that scope analysis finds
* `Session.depths_nearest` — the depths that are recorded when a text is checked
-/

namespace Treewalk

/-- The depths of a program are those of the nearest scopes that declare its names. -/
structure DepthsNearest (program : List Stmt) (depths : DepthTable) : Prop where
  /-- The outline lists all uses of the program. -/
  occurrences_eq : (outline program).filterMap (·.landmark.occurrence?) =
    (Stmt.occurrencesAll program).map fun o => (o.kind, o.use)
  /-- A use has the depth of the nearest scope that declares its name before it. -/
  some_iff : ∀ position spot landmark kind use, Stands program position spot landmark →
    landmark.occurrence? = some (kind, use) →
    ∀ depth, depths.depth? use.id = some depth ↔ Nearest spot use.name depth
  /-- A use has no depth if no scope declares its name before it, or if it is stray. -/
  none_iff : ∀ position spot landmark kind use, Stands program position spot landmark →
    landmark.occurrence? = some (kind, use) →
    (depths.depth? use.id = none ↔
      (∀ scope ∈ scopesOf spot.around, ¬Declares spot.before scope use.name) ∨ Stray spot kind)

/-! ### The depths that scope analysis finds -/

theorem Walks.bound_mem_iff {before after : List Entry} {findings : List Finding}
    (h : Walks before after findings) (id : NodeId) (depth : Nat) : .bound id depth ∈ findings ↔
      ∃ position spot landmark kind use, Passes before after position spot landmark ∧
        landmark.occurrence? = some (kind, use) ∧ use.id = id ∧ ¬Stray spot kind ∧
        Nearest spot use.name depth := by
  induction h with
  | refl before =>
    refine iff_of_false List.not_mem_nil ?_
    rintro ⟨position, spot, landmark, kind, use, hpasses, -⟩
    exact not_passes_self hpasses
  | @step before after e first rest findings hfirst hrest hperm ih =>
    rw [hperm.mem_iff, List.mem_append, hfirst.bound_mem, ih]
    simp only [hrest.passes_iff, or_and_right, exists_or]
    simp

/-- Scope analysis finds the depth of every use that is not stray and whose name is declared, and
no other depths. -/
theorem bound_mem_analyse (program : List Stmt) (id : NodeId) (depth : Nat) :
    .bound id depth ∈ analyse program ↔ ∃ position spot landmark kind use,
      Stands program position spot landmark ∧ landmark.occurrence? = some (kind, use) ∧
        use.id = id ∧ ¬Stray spot kind ∧ Nearest spot use.name depth := by
  simp only [(walks_analyse program).bound_mem_iff, stands_iff_passes]

/-! ### Uses and their numbers -/

section Stands

variable {program : List Stmt} {position position' : Nat} {spot spot' : Spot}
  {landmark landmark' : Landmark} {kind kind' : OccurrenceKind} {use use' : Use}

/-- If all uses have node numbers of their own, a number belongs to one landmark. -/
theorem Stands.eq_of_id_eq (h : Stands program position spot landmark)
    (h' : Stands program position' spot' landmark')
    (hnodup : ((Stmt.occurrencesAll program).map fun o => o.use.id).Nodup)
    (huse : landmark.occurrence? = some (kind, use))
    (huse' : landmark'.occurrence? = some (kind', use')) (hid : use.id = use'.id) :
    spot = spot' ∧ landmark = landmark' := by
  have hids : ((outline program).filterMap (·.landmark.occurrence?)).Pairwise
      fun x y => x.2.id ≠ y.2.id := by
    rw [occurrences_outline, List.pairwise_map]
    exact List.pairwise_map.1 hnodup
  rw [List.pairwise_filterMap, List.pairwise_iff_getElem] at hids
  have hne {i j : Nat} {e e' : Entry} {kind kind' : OccurrenceKind} {use use' : Use}
      (hlt : i < j) (he : (outline program)[i]? = some e) (he' : (outline program)[j]? = some e')
      (huse : e.landmark.occurrence? = some (kind, use))
      (huse' : e'.landmark.occurrence? = some (kind', use')) : use.id ≠ use'.id := by
    obtain ⟨hi, rfl⟩ := List.getElem?_eq_some_iff.1 he
    obtain ⟨hj, rfl⟩ := List.getElem?_eq_some_iff.1 he'
    exact hids i j hi hj hlt _ huse _ huse'
  obtain ⟨he⟩ := h
  obtain ⟨he'⟩ := h'
  obtain hlt | rfl | hlt := Nat.lt_trichotomy position position'
  · exact absurd hid (hne hlt he he' huse huse')
  · obtain rfl := Option.some.inj (he.symm.trans he')
    exact ⟨rfl, rfl⟩
  · exact absurd hid.symm (hne hlt he' he huse' huse)

theorem Landmark.Named.declared? {P : String → Prop} (h : landmark.Named P) {token : Token}
    (htoken : landmark.declared? = some token) : P token.lexeme := by
  cases landmark <;> cases htoken <;> exact h

theorem Landmark.isClassBody_of_implicit?_eq (h : landmark.implicit? = some "this") :
    landmark.isClassBody = true := by
  cases landmark with
  | classBody => rfl
  | superScope => exact absurd (Option.some.inj h) (by decide)
  | _ => cases h

theorem Landmark.Named.name_eq_this {P : String → Prop} (h : landmark.Named P)
    (huse : landmark.occurrence? = some (.this, use)) : use.name = "this" := by
  cases landmark <;> cases huse
  exact h

/-- Outside of all classes no scope has the name `this`, if nothing else has that name. -/
theorem Stands.not_declares_this (h : Stands program position spot landmark)
    (hnamed : Stmt.NamedAll (· ≠ "this") program) (houtside : OutsideClass spot)
    {scope : Enclosure} (hscope : scope ∈ scopesOf spot.around) :
    ¬Declares spot.before scope "this" := by
  have hclass := houtside scope (mem_of_mem_scopesOf hscope)
  obtain ⟨he⟩ := h
  rintro (himplicit | ⟨e, hmem, -, token, htoken, hname⟩)
  · rw [Landmark.isClassBody_of_implicit?_eq himplicit] at hclass
    cases hclass
  · exact (named_outline hnamed e (List.mem_of_mem_take hmem)).declared? htoken hname

/-- A stray `this` has no nearest scope in such a program. -/
theorem Stands.not_nearest_of_stray (h : Stands program position spot landmark)
    (hnamed : Stmt.NamedAll (· ≠ "this") program)
    (huse : landmark.occurrence? = some (kind, use)) (hstray : Stray spot kind) (depth : Nat) :
    ¬Nearest spot use.name depth := by
  obtain ⟨rfl, houtside⟩ := hstray
  have hname : use.name = "this" := by
    obtain ⟨he⟩ := h
    have hlandmark := named_outline hnamed _ (List.mem_of_getElem? he)
    exact hlandmark.name_eq_this huse
  rintro ⟨⟨scope, hscope, hdeclares⟩, -⟩
  exact h.not_declares_this hnamed houtside (List.mem_of_getElem? hscope) (hname ▸ hdeclares)

/-- A landmark that uses a name is an occurrence of the program. -/
theorem Stands.exists_occurrence (h : Stands program position spot landmark)
    (huse : landmark.occurrence? = some (kind, use)) :
    ∃ o ∈ Stmt.occurrencesAll program, o.use = use := by
  obtain ⟨he⟩ := h
  have hmem : (kind, use) ∈ (outline program).filterMap (·.landmark.occurrence?) :=
    List.mem_filterMap.2 ⟨_, List.mem_of_getElem? he, huse⟩
  rw [occurrences_outline] at hmem
  obtain ⟨o, ho, heq⟩ := List.mem_map.1 hmem
  exact ⟨o, ho, congrArg Prod.snd heq⟩

/-- Scope analysis finds the depth of a use with a number of its own, and no other depth. -/
theorem Stands.bound_mem_analyse_iff (h : Stands program position spot landmark)
    (hnodup : ((Stmt.occurrencesAll program).map fun o => o.use.id).Nodup)
    (hnamed : Stmt.NamedAll (· ≠ "this") program)
    (huse : landmark.occurrence? = some (kind, use)) (depth : Nat) :
    .bound use.id depth ∈ analyse program ↔ Nearest spot use.name depth := by
  rw [bound_mem_analyse]
  constructor
  · rintro ⟨position', spot', landmark', kind', use', h', huse', hid, -, hnearest⟩
    obtain ⟨rfl, rfl⟩ := h.eq_of_id_eq h' hnodup huse huse' hid.symm
    obtain ⟨rfl, rfl⟩ := Prod.mk.inj (Option.some.inj (huse.symm.trans huse'))
    exact hnearest
  · intro hnearest
    have hstray : ¬Stray spot kind := fun hstray =>
      h.not_nearest_of_stray hnamed huse hstray depth hnearest
    exact ⟨position, spot, landmark, kind, use, h, huse, rfl, hstray, hnearest⟩

end Stands

/-! ### The depth table -/

/-- If all findings about a use agree and the table has no entry for it yet, then afterwards the
table has what they say. -/
theorem DepthTable.depth?_recordAll_eq_some_iff {table : DepthTable} {findings : List Finding}
    {id : NodeId} (hnone : table.depth? id = none)
    (hunique : ∀ depth depth', .bound id depth ∈ findings → .bound id depth' ∈ findings →
      depth = depth') (depth : Nat) :
    (table.recordAll findings).depth? id = some depth ↔ .bound id depth ∈ findings := by
  by_cases hmem : ∃ depth', .bound id depth' ∈ findings
  · obtain ⟨depth', hdepth'⟩ := hmem
    rw [depth?_recordAll_of_mem hdepth' fun other hother => hunique other depth' hother hdepth',
      Option.some.injEq]
    exact ⟨fun heq => heq ▸ hdepth', fun hdepth => hunique depth' depth hdepth' hdepth⟩
  · rw [depth?_recordAll_of_notMem fun depth' hdepth' => hmem ⟨depth', hdepth'⟩, hnone]
    exact iff_of_false (by simp) fun hdepth => hmem ⟨depth, hdepth⟩

theorem depthsNearest_recordAll {program : List Stmt} {table : DepthTable}
    (hnodup : ((Stmt.occurrencesAll program).map fun o => o.use.id).Nodup)
    (hnone : ∀ o ∈ Stmt.occurrencesAll program, table.depth? o.use.id = none)
    (hnamed : Stmt.NamedAll (· ≠ "this") program) :
    DepthsNearest program (table.recordAll (analyse program)) := by
  have hsome {position : Nat} {spot : Spot} {landmark : Landmark} {kind : OccurrenceKind}
      {use : Use} (h : Stands program position spot landmark)
      (huse : landmark.occurrence? = some (kind, use)) (depth : Nat) :
      (table.recordAll (analyse program)).depth? use.id = some depth ↔
        Nearest spot use.name depth := by
    have hbound := h.bound_mem_analyse_iff hnodup hnamed huse
    obtain ⟨o, ho, rfl⟩ := h.exists_occurrence huse
    refine (DepthTable.depth?_recordAll_eq_some_iff (hnone o ho) ?_ depth).trans (hbound depth)
    intro d d' hd hd'
    exact ((hbound d).1 hd).unique ((hbound d').1 hd')
  refine ⟨occurrences_outline program, fun _ _ _ _ _ h huse => hsome h huse, ?_⟩
  intro position spot landmark kind use h huse
  have hnone_iff : (table.recordAll (analyse program)).depth? use.id = none ↔
      ∀ depth, ¬Nearest spot use.name depth := by
    rw [Option.eq_none_iff_forall_ne_some]
    exact forall_congr' fun depth => not_congr (hsome h huse depth)
  rw [hnone_iff]
  constructor
  · intro hnearest
    refine .inl fun scope hscope hdeclares => ?_
    obtain ⟨depth, hdepth⟩ := exists_nearest_iff.2 ⟨scope, hscope, hdeclares⟩
    exact hnearest depth hdepth
  · rintro (hdeclares | hstray) depth hnearest
    · obtain ⟨scope, hscope, hdeclared⟩ := exists_nearest_iff.1 ⟨depth, hnearest⟩
      exact hdeclares scope hscope hdeclared
    · exact h.not_nearest_of_stray hnamed huse hstray depth hnearest

/-! ### Sessions -/

namespace Session

theorem machine_accept {s : Session} {source : String} {program : List Stmt}
    (h : (s.read source).1 = .ok program) :
    (s.accept source).2.machine = s.machine.record (analyse program) := by
  have hread : s.read source = (.ok program, (s.read source).2) := Prod.ext h rfl
  rw [accept, hread]
  dsimp only
  split
  · next hcheck => exact congrArg (fun x => x.2.machine) hcheck.symm
  · next hcheck => exact congrArg (fun x => x.2.machine) hcheck.symm

/-- **Depths are those of the nearest declarations.** After a text was read and checked in a
session, whether it was accepted or not, the depth table has for every use of its program the depth
of the nearest scope that declares the name before the use, and nothing if there is none or if the
use is a `this` outside of all classes. -/
theorem depths_nearest (sink : Sink) (reading : Nat → Float) (fuel : Nat) (sources : List String)
    {source : String} {program : List Stmt}
    (h : (((initial sink reading).runAll fuel sources).2.read source).1 = .ok program) :
    DepthsNearest program
      (((initial sink reading).runAll fuel sources).2.accept source).2.machine.depths := by
  have hready : ((initial sink reading).runAll fuel sources).2.Ready :=
    (inStep_runAll sink reading fuel (List.append_nil sources).symm).left
  generalize ((initial sink reading).runAll fuel sources).2 = s at h hready ⊢
  have hfresh := Source.fresh_of_parse h
  rw [machine_accept h]
  refine depthsNearest_recordAll hfresh.nodup (fun o ho => ?_) (Source.namedAll_of_parse h ?_)
  · exact hready.depth?_eq_none _ (hfresh.mem o ho).1
  · exact fun name hname => Source.ne_spelling_of_mem_identifiers hname .this

/-- The variable that the function of `closureText` reads is declared in the next scope further
out. -/
theorem depths_nearest_closureText :
    ((initial .unbounded fun _ => 0).read closureText).1 = .ok closureProgram ∧
      ∃ position spot use, Stands closureProgram position spot (.use .variable use) ∧
        use.name = "a" ∧ Nearest spot "a" 1 := by
  have hread : ((initial .unbounded fun _ => 0).read closureText).1 = .ok closureProgram := by
    have hid : (initial .unbounded fun _ => 0).nextId = 0 := rfl
    rw [read, hid, parse_closureText]
    rfl
  have hstands : (outline closureProgram)[3]? =
      some ⟨.use .variable ⟨0, ⟨.identifier, "a", 1⟩⟩, _⟩ := rfl
  have hdepths := depths_nearest .unbounded (fun _ => 0) 0 [] hread
  refine ⟨hread, 3, _, _, ⟨hstands⟩, rfl, (hdepths.some_iff _ _ _ _ _ ⟨hstands⟩ rfl 1).1 ?_⟩
  change ((initial .unbounded fun _ => 0).accept closureText).2.machine.depths.depth? 0 = some 1
  rw [accept_closureText]
  rfl

end Session

end Treewalk
