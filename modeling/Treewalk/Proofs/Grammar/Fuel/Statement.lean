import Treewalk.Proofs.Grammar.Fuel.Expression

/-!
# Enough fuel for programs

The fuel of `parse` is enough on every list of tokens: it is read to its end, and with more fuel
nothing else would be read. The readers of statements come on top of those of an expression, so a
token is worth thirty-two units here.

## Main results

* `program_fuel` — enough fuel is as good as any other amount that is enough
* `parse_finished` — every list of tokens is read to its end
-/

namespace Treewalk.Grammar

variable {fuel size : Nat}

/-! ### Statements without statements inside -/

theorem settles_variableInitializer (h : 16 * size + 10 ≤ fuel) :
    Settles size size (variableInitializer fuel) (variableInitializer (fuel + 1)) :=
  Settles.bind_takeIf? (.pure le_rfl) fun equals n hn =>
    ((expressionSettles fuel).expression (by omega)).map.mono (by omega)

theorem settles_varDeclaration (h : 16 * size + 10 ≤ fuel) :
    Settles size (size - 1) (varDeclaration fuel) (varDeclaration (fuel + 1)) := by
  rw [varDeclaration_eq, varDeclaration_eq]
  refine Settles.bind_expectName fun name n hn => ?_
  refine (settles_variableInitializer (by omega)).bind le_rfl fun initializer => ?_
  exact Settles.bind_expect fun semicolon m hm => .pure (by omega)

theorem settles_expressionStatement (h : 16 * size + 10 ≤ fuel) :
    Settles size (size - 1) (expressionStatement fuel) (expressionStatement (fuel + 1)) :=
  ((expressionSettles fuel).expression h).bind le_rfl fun value =>
    Settles.bind_expect fun semicolon n hn => .pure (by omega)

theorem settles_printStatement (h : 16 * size + 10 ≤ fuel) :
    Settles size size (printStatement fuel) (printStatement (fuel + 1)) :=
  ((expressionSettles fuel).expression h).bind le_rfl fun value =>
    Settles.bind_expect fun semicolon n hn => .pure (by omega)

theorem settles_returnStatement (keyword : Token) (h : 16 * size + 10 ≤ fuel) :
    Settles size size (returnStatement fuel keyword) (returnStatement (fuel + 1) keyword) := by
  rw [returnStatement_eq, returnStatement_eq]
  have hvalue := (expressionSettles fuel).expression h
  refine (Settles.optionalUnless hvalue).bind le_rfl fun value => ?_
  exact Settles.bind_expect fun semicolon n hn => .pure (by omega)

theorem settles_parameters (count : Nat) (h : size + 1 ≤ fuel) :
    Settles size size (parameters fuel count) (parameters (fuel + 1) count) := by
  induction fuel generalizing size count with
  | zero => omega
  | succ fuel ih =>
    rw [parameters_succ, parameters_succ]
    refine Settles.noteCount.bind le_rfl fun _ => Settles.bind_expectName fun name n hn => ?_
    refine Settles.bind_takeIf? (.pure (by omega)) fun comma m hm => ?_
    exact (ih (count + 1) (by omega)).bind le_rfl fun names => .pure (by omega)

theorem settles_signature (kind : RoutineKind) (h : size + 1 ≤ fuel) :
    Settles size (size - 1) (signature fuel kind) (signature (fuel + 1) kind) := by
  rw [signature_eq, signature_eq]
  refine Settles.bind_expectName fun name n hn => Settles.bind_expect fun left m hm => ?_
  refine (Settles.listUnless (settles_parameters 0 (by omega))).bind le_rfl fun names => ?_
  refine Settles.bind_expect fun right k hk => ?_
  exact Settles.bind_expect fun brace j hj => .pure (by omega)

theorem settles_superclassClause : Settles size size superclassClause superclassClause :=
  Settles.bind_takeIf? (.pure le_rfl) fun less n hn => Settles.bind_expectName fun name m hm =>
    Settles.freshId.bind le_rfl fun id => .pure (by omega)

theorem settles_classHeader : Settles size size classHeader classHeader := by
  rw [classHeader_eq]
  refine Settles.bind_expectName fun name n hn => settles_superclassClause.bind le_rfl fun o => ?_
  exact Settles.bind_expect fun left m hm => .pure (by omega)

theorem settles_loopInitializer (h : 16 * size + 10 ≤ fuel) :
    Settles size size (loopInitializer fuel) (loopInitializer (fuel + 1)) := by
  refine Settles.bind_takeIf? ?_ fun semicolon n hn => .pure (by omega)
  refine Settles.bind_takeIf? ?_ fun var n hn => ?_
  · exact (settles_expressionStatement h).map.mono (by omega)
  · exact (settles_varDeclaration (by omega)).map.mono (by omega)

theorem settles_loopClauses (h : 16 * size + 10 ≤ fuel) :
    Settles size size (loopClauses fuel) (loopClauses (fuel + 1)) := by
  rw [loopClauses_eq, loopClauses_eq]
  have hexpression {n : Nat} (hn : n ≤ size) :
      Settles n n (expression fuel) (expression (fuel + 1)) :=
    (expressionSettles fuel).expression (by omega)
  refine Settles.bind_expect fun left n hn => ?_
  refine (settles_loopInitializer (by omega)).bind le_rfl fun initializer => ?_
  refine (Settles.optionalUnless (hexpression (by omega))).bind le_rfl fun condition => ?_
  refine Settles.bind_expect fun semicolon m hm => ?_
  refine (Settles.optionalUnless (hexpression (by omega))).bind le_rfl fun increment => ?_
  exact Settles.bind_expect fun right k hk => .pure (by omega)

/-! ### Statements with statements inside -/

/-- The readers of declarations and statements, at one amount of fuel and at one unit more. All but
two take a token or are abandoned. -/
structure StatementSettles (fuel : Nat) : Prop where
  declaration {size : Nat} (h : 32 * size + 13 ≤ fuel) :
    Settles size (size - 1) (declaration fuel) (declaration (fuel + 1))
  statement {size : Nat} (h : 32 * size + 12 ≤ fuel) :
    Settles size (size - 1) (statement fuel) (statement (fuel + 1))
  block {size : Nat} (h : 32 * size + 15 ≤ fuel) :
    Settles size (size - 1) (block fuel) (block (fuel + 1))
  declarations {size : Nat} (h : 32 * size + 14 ≤ fuel) :
    Settles size size (declarations fuel) (declarations (fuel + 1))
  routine {size : Nat} (kind : RoutineKind) (h : 32 * size + 16 ≤ fuel) :
    Settles size (size - 1) (routine fuel kind) (routine (fuel + 1) kind)
  methods {size : Nat} (h : 32 * size + 17 ≤ fuel) :
    Settles size size (methods fuel) (methods (fuel + 1))

namespace StatementSettles

theorem succ_declaration (ih : StatementSettles fuel) (h : 32 * size + 13 ≤ fuel + 1) :
    Settles size (size - 1) (Grammar.declaration (fuel + 1)) (Grammar.declaration (fuel + 2)) := by
  unfold Grammar.declaration
  refine Settles.recover (Settles.bind_takeIf? (Settles.bind_takeIf? (Settles.bind_takeIf? ?_ ?_)
    ?_) ?_)
  · exact ih.statement (by omega)
  · intro var n hn
    exact (settles_varDeclaration (by omega)).mono (by omega)
  · intro fun' n hn
    exact (ih.routine .function (by omega)).bind (by omega) fun routine => .pure (by omega)
  · intro class' n hn
    refine settles_classHeader.bind le_rfl fun header => ?_
    refine (ih.methods (by omega)).bind le_rfl fun methods => ?_
    exact Settles.bind_expect fun right m hm => .pure (by omega)

theorem succ_statement (ih : StatementSettles fuel) (h : 32 * size + 12 ≤ fuel + 1) :
    Settles size (size - 1) (Grammar.statement (fuel + 1)) (Grammar.statement (fuel + 2)) := by
  unfold Grammar.statement
  refine Settles.bind_takeIf? (settles_expressionStatement (by omega)) fun t n hn => ?_
  dsimp only
  split
  · refine (settles_loopClauses (by omega)).bind le_rfl fun clauses => ?_
    exact (ih.statement (by omega)).bind (by omega) fun body => .pure (by omega)
  · refine Settles.bind_expect fun left m hm => ?_
    refine ((expressionSettles fuel).expression (by omega)).bind le_rfl fun condition => ?_
    refine Settles.bind_expect fun right k hk => ?_
    refine (ih.statement (by omega)).bind (by omega) fun branch => ?_
    refine Settles.bind_takeIf? (.pure (by omega)) fun t' j hj => ?_
    exact (ih.statement (by omega)).bind (by omega) fun other => .pure (by omega)
  · exact (settles_printStatement (by omega)).mono (by omega)
  · exact (settles_returnStatement t (by omega)).mono (by omega)
  · refine Settles.bind_expect fun left m hm => ?_
    refine ((expressionSettles fuel).expression (by omega)).bind le_rfl fun condition => ?_
    refine Settles.bind_expect fun right k hk => ?_
    exact (ih.statement (by omega)).bind (by omega) fun body => .pure (by omega)
  · exact (ih.block (by omega)).bind (by omega) fun body => .pure (by omega)

theorem succ_block (ih : StatementSettles fuel) (h : 32 * size + 15 ≤ fuel + 1) :
    Settles size (size - 1) (Grammar.block (fuel + 1)) (Grammar.block (fuel + 2)) := by
  unfold Grammar.block
  refine (ih.declarations (by omega)).bind le_rfl fun body => ?_
  exact Settles.bind_expect fun right n hn => .pure (by omega)

theorem succ_declarations (ih : StatementSettles fuel) (h : 32 * size + 14 ≤ fuel + 1) :
    Settles size size (Grammar.declarations (fuel + 1)) (Grammar.declarations (fuel + 2)) := by
  unfold Grammar.declarations
  refine Settles.nextIs.bind le_rfl fun atBrace => Settles.bind_atEnd ?_ fun n hn => ?_
  · simp only [Bool.or_true, if_true]
    exact .pure le_rfl
  · split
    · exact .pure le_rfl
    · refine (ih.declaration (by omega)).bind (by omega) fun first => ?_
      exact (ih.declarations (by omega)).bind le_rfl fun rest => .pure (by omega)

theorem succ_routine (ih : StatementSettles fuel) (kind : RoutineKind)
    (h : 32 * size + 16 ≤ fuel + 1) :
    Settles size (size - 1) (Grammar.routine (fuel + 1) kind)
      (Grammar.routine (fuel + 2) kind) := by
  unfold Grammar.routine
  refine (settles_signature kind (by omega)).bind (by omega) fun header => ?_
  exact (ih.block (by omega)).bind (by omega) fun body => .pure (by omega)

theorem succ_methods (ih : StatementSettles fuel) (h : 32 * size + 17 ≤ fuel + 1) :
    Settles size size (Grammar.methods (fuel + 1)) (Grammar.methods (fuel + 2)) := by
  unfold Grammar.methods
  refine Settles.nextIs.bind le_rfl fun atBrace => Settles.bind_atEnd ?_ fun n hn => ?_
  · simp only [Bool.or_true, if_true]
    exact .pure le_rfl
  · split
    · exact .pure le_rfl
    · refine (ih.routine .method (by omega)).bind (by omega) fun first => ?_
      exact (ih.methods (by omega)).bind le_rfl fun rest => .pure (by omega)

end StatementSettles

theorem statementSettles (fuel : Nat) : StatementSettles fuel := by
  induction fuel with
  | zero =>
    exact ⟨fun h => by omega, fun h => by omega, fun h => by omega, fun h => by omega,
      fun _ h => by omega, fun h => by omega⟩
  | succ fuel ih =>
    exact ⟨ih.succ_declaration, ih.succ_statement, ih.succ_block, ih.succ_declarations,
      ih.succ_routine, ih.succ_methods⟩

/-! ### Programs -/

theorem settles_program (h : 32 * size + 14 ≤ fuel) :
    Settles size size (program fuel) (program (fuel + 1)) := by
  induction fuel generalizing size with
  | zero => omega
  | succ fuel ih =>
    unfold program
    refine Settles.bind_atEnd (.pure le_rfl) fun n hn => ?_
    refine ((statementSettles fuel).declaration (by omega)).bind (by omega) fun first => ?_
    exact (ih (by omega)).bind le_rfl fun rest => .pure (by omega)

/-- Any two amounts of fuel that are enough do the same. -/
theorem program_fuel {fuel fuel' : Nat} {c : Cursor} (h : 32 * c.ahead.length + 14 ≤ fuel)
    (h' : 32 * c.ahead.length + 14 ≤ fuel') : program fuel' c = program fuel c := by
  have least {fuel : Nat} (h : 32 * c.ahead.length + 14 ≤ fuel) :
      program fuel c = program (32 * c.ahead.length + 14) c := by
    induction fuel, h using Nat.le_induction with
    | base => rfl
    | succ fuel h ih => exact ((settles_program h) c le_rfl).1.trans ih
  rw [least h, least h']

theorem le_fuelFor (tokens : List Token) (firstId : NodeId) :
    32 * (Cursor.start tokens firstId).ahead.length + 14 ≤ fuelFor tokens := by
  have : (tokens.takeWhile (!·.isEnd)).length ≤ tokens.length :=
    (List.takeWhile_prefix _).length_le
  simp only [Cursor.start, fuelFor]
  omega

/-- **Every list of tokens is read to its end.** -/
theorem parse_finished (tokens : List Token) (firstId : NodeId) :
    (parse tokens firstId).finished = true := by
  have h := (settles_program (le_fuelFor tokens firstId) (.start tokens firstId) le_rfl).2
  unfold parse
  split at h
  · next hr => rw [hr]
  · next stop d hr =>
    rw [hr]
    cases stop with
    | fault anchor cause => rfl
    | exhausted => exact absurd rfl h.1

end Treewalk.Grammar
