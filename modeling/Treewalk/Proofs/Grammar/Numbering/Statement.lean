import Treewalk.Proofs.Grammar.Numbering.Expression

/-!
# Node numbers of statements

The walk over the readers goes on with those of statements. What may be left out of a statement is
left out in both readings, and the numbers of a loop stand in another order in its tree.

## Main results

* `parse_alike` — the same tokens are read alike, whatever the first number is
* `parse_fresh` — the numbers of a program
-/

namespace Treewalk.Grammar

variable {α β : Type}

/-! ### Parts of statements -/

abbrev StmtNumbers := Renumbered Stmt.eraseIds Stmt.occurrences

abbrev StmtsNumbers := Renumbered (List.map Stmt.eraseIds) Stmt.occurrencesAll

abbrev RoutineNumbers := Renumbered Routine.eraseIds Routine.occurrences

abbrev RoutinesNumbers := Renumbered (List.map Routine.eraseIds) Routine.occurrencesAll

theorem Numbers.optionalUnless {n : NodeId} {s : Symbol} {read : Reading α}
    {Q : NodeId → α → α → Prop} (h : Numbers n read read Q) :
    Numbers n (optionalUnless s read) (optionalUnless s read) fun m => Option.Rel (Q m) :=
  Plain.nextIs.bind fun b => by
    cases b with
    | true => exact .pure .none
    | false => exact .map (h.mono fun _ _ _ _ hq => .some hq)

/-- What may be left out has no uses if it is. -/
theorem Renumbered.of_rel {n m : NodeId} {erase : α → β} {uses : α → List Occurrence}
    {o o' : Option α} (h : Option.Rel (Renumbered erase uses n m) o o') (hle : n ≤ m) :
    Renumbered (Option.map erase) (fun o => o.elim [] uses) n m o o' := by
  cases h with
  | none => exact ⟨rfl, .nil hle⟩
  | some h => exact ⟨congrArg some h.erase_eq, h.fresh⟩

section Parts

variable {n : NodeId} (fuel : Nat)

theorem variableInitializer_numbers :
    Numbers n (variableInitializer fuel) (variableInitializer fuel) fun m =>
      Option.Rel (ExprNumbers n m) :=
  Plain.takeIf?.bind fun o => by
    cases o with
    | none => exact .pure .none
    | some equals => exact .map ((expression_numbers fuel).mono fun _ _ _ _ h => .some h)

theorem varDeclaration_numbers :
    Numbers n (varDeclaration fuel) (varDeclaration fuel) (StmtNumbers n) := by
  rw [varDeclaration_eq]
  refine Plain.expectName.bind fun name => (variableInitializer_numbers fuel).bind
    fun m o o' hle ho => Plain.expect.bind fun semicolon => .pure ?_
  cases ho with
  | none => exact ⟨rfl, .nil hle⟩
  | some h => exact ⟨congrArg (Stmt.var name <| some ·) h.erase_eq, h.fresh⟩

theorem expressionStatement_numbers :
    Numbers n (expressionStatement fuel) (expressionStatement fuel) (StmtNumbers n) :=
  (expression_numbers fuel).bind fun _ _ _ _ he => Plain.expect.bind fun _ =>
    .pure ⟨congrArg Stmt.expression he.erase_eq, he.fresh⟩

theorem printStatement_numbers :
    Numbers n (printStatement fuel) (printStatement fuel) (StmtNumbers n) :=
  (expression_numbers fuel).bind fun _ _ _ _ he => Plain.expect.bind fun _ =>
    .pure ⟨congrArg Stmt.print he.erase_eq, he.fresh⟩

theorem returnStatement_numbers (keyword : Token) :
    Numbers n (returnStatement fuel keyword) (returnStatement fuel keyword) (StmtNumbers n) := by
  rw [returnStatement_eq]
  refine (expression_numbers fuel).optionalUnless.bind fun m o o' hle ho =>
    Plain.expect.bind fun semicolon => .pure ?_
  cases ho with
  | none => exact ⟨rfl, .nil hle⟩
  | some h => exact ⟨congrArg (Stmt.return keyword <| some ·) h.erase_eq, h.fresh⟩

theorem plain_parameters (count : Nat) : Plain (parameters fuel count) := by
  induction fuel generalizing count with
  | zero => exact .throw
  | succ fuel ih =>
    intro n
    rw [parameters_succ]
    refine Plain.noteCount.bind fun _ => Plain.expectName.bind fun name =>
      Plain.takeIf?.bind fun o => ?_
    cases o with
    | none => exact Plain.pure n
    | some comma => exact (ih (count + 1)).bind fun names => Plain.pure n

theorem plain_signature (kind : RoutineKind) : Plain (signature fuel kind) := by
  intro n
  rw [signature_eq]
  have hnames : Plain (listUnless .rightParen (parameters fuel 0)) := fun n =>
    Plain.nextIs.bind fun b => by
      cases b with
      | true => exact Plain.pure n
      | false => exact plain_parameters fuel 0 n
  exact Plain.expectName.bind fun name => Plain.expect.bind fun left => hnames.bind fun names =>
    Plain.expect.bind fun right => Plain.expect.bind fun brace => Plain.pure n

/-- A superclass clause has one use. -/
theorem superclassClause_numbers :
    Numbers n superclassClause superclassClause fun m => Option.Rel
      (Renumbered (·.token) (fun use => [⟨.variable, use, use.name⟩]) n m) := by
  refine Plain.takeIf?.bind fun o => ?_
  cases o with
  | none => exact .pure .none
  | some less =>
    exact Plain.expectName.bind fun name => numbers_freshId.bind fun m id id' _ hid =>
      .pure (.some ⟨rfl, .single hid.1 hid.2⟩)

theorem classHeader_numbers :
    Numbers n classHeader classHeader fun m header header' =>
      header'.1 = header.1 ∧ Option.Rel
        (Renumbered (·.token) (fun use => [⟨.variable, use, use.name⟩]) n m) header.2 header'.2 := by
  rw [classHeader_eq]
  exact Plain.expectName.bind fun name => superclassClause_numbers.bind fun m o o' _ ho =>
    Plain.expect.bind fun left => .pure ⟨rfl, ho⟩

theorem loopInitializer_numbers :
    Numbers n (loopInitializer fuel) (loopInitializer fuel) fun m =>
      Option.Rel (StmtNumbers n m) := by
  refine Plain.takeIf?.bind fun o => ?_
  cases o with
  | some semicolon => exact .pure .none
  | none =>
    refine Plain.takeIf?.bind fun o => ?_
    cases o with
    | some t => exact .map ((varDeclaration_numbers fuel).mono fun _ _ _ _ h => .some h)
    | none => exact .map ((expressionStatement_numbers fuel).mono fun _ _ _ _ h => .some h)

/-- The uses in the clauses of a loop. -/
def LoopClauses.occurrences (clauses : LoopClauses) : List Occurrence :=
  clauses.initializer.elim [] Stmt.occurrences ++ clauses.condition.elim [] Expr.occurrences ++
    clauses.increment.elim [] Expr.occurrences

theorem loopClauses_numbers :
    Numbers n (loopClauses fuel) (loopClauses fuel)
      (Renumbered (·.relabel .eraseIds) LoopClauses.occurrences n) := by
  rw [loopClauses_eq]
  refine Plain.expect.bind fun left => (loopInitializer_numbers fuel).bind fun m o₁ o₁' h₁ ho₁ =>
    (expression_numbers fuel).optionalUnless.bind fun k o₂ o₂' h₂ ho₂ => Plain.expect.bind fun _ =>
    (expression_numbers fuel).optionalUnless.bind fun j o₃ o₃' h₃ ho₃ => Plain.expect.bind fun _ =>
    .pure ⟨?_, ?_⟩
  · show LoopClauses.mk _ _ _ = LoopClauses.mk _ _ _
    rw [LoopClauses.mk.injEq]
    exact ⟨(Renumbered.of_rel ho₁ h₁).erase_eq, (Renumbered.of_rel ho₂ h₂).erase_eq,
      (Renumbered.of_rel ho₃ h₃).erase_eq⟩
  · exact ((Renumbered.of_rel ho₁ h₁).fresh.append (Renumbered.of_rel ho₂ h₂).fresh).append
      (Renumbered.of_rel ho₃ h₃).fresh

/-- The body of a loop stands before the increment in the tree. -/
theorem occurrences_loopOf (clauses : LoopClauses) (body : Stmt) :
    (clauses.occurrences ++ body.occurrences).Perm (loopOf clauses body).occurrences := by
  obtain ⟨initializer, condition, increment⟩ := clauses
  have hloop : (loopOf ⟨initializer, condition, increment⟩ body).occurrences =
      initializer.elim [] Stmt.occurrences ++ condition.elim [] Expr.occurrences ++
        (body.occurrences ++ increment.elim [] Expr.occurrences) := by
    cases initializer <;> cases condition <;> cases increment <;>
      simp [Stmt.occurrences, Stmt.occurrencesAll, Expr.occurrences]
  rw [hloop, LoopClauses.occurrences, List.append_assoc]
  exact List.perm_append_comm.append_left _

end Parts

/-! ### Statements with statements inside -/

/-- The readers of declarations and statements, at one amount of fuel. -/
structure StatementNumbers (fuel : Nat) : Prop where
  declaration {n : NodeId} : Numbers n (declaration fuel) (declaration fuel) fun m =>
    Option.Rel (StmtNumbers n m)
  statement {n : NodeId} : Numbers n (statement fuel) (statement fuel) (StmtNumbers n)
  block {n : NodeId} : Numbers n (block fuel) (block fuel) (StmtsNumbers n)
  declarations {n : NodeId} : Numbers n (declarations fuel) (declarations fuel) (StmtsNumbers n)
  routine {n : NodeId} (kind : RoutineKind) :
    Numbers n (routine fuel kind) (routine fuel kind) (RoutineNumbers n)
  methods {n : NodeId} : Numbers n (methods fuel) (methods fuel) (RoutinesNumbers n)

namespace StatementNumbers

variable {fuel : Nat} {n : NodeId}

theorem succ_declaration (h : StatementNumbers fuel) :
    Numbers n (Grammar.declaration (fuel + 1)) (Grammar.declaration (fuel + 1)) fun m =>
      Option.Rel (StmtNumbers n m) := by
  unfold Grammar.declaration
  refine Numbers.recover (Plain.takeIf?.bind fun o => ?_)
  cases o with
  | some t =>
    refine classHeader_numbers.bind fun m header header' hle hheader => h.methods.bind
      fun k methods methods' _ hmethods => Plain.expect.bind fun right => .pure ?_
    obtain ⟨name, superclass⟩ := header
    obtain ⟨name', superclass'⟩ := header'
    obtain ⟨rfl, hsuperclass⟩ := hheader
    have hmethods_eq := hmethods.erase_eq
    cases hsuperclass with
    | none =>
      refine ⟨?_, hmethods.fresh.mono hle le_rfl⟩
      simp only [Stmt.eraseIds, Stmt.relabel, Routine.relabelAll_eq_map]
      exact congrArg (Stmt.class _ none) hmethods_eq
    | @some use use' huse =>
      refine ⟨?_, huse.fresh.append hmethods.fresh⟩
      have huse_eq : use'.relabel .eraseIds = use.relabel .eraseIds :=
        congrArg (Use.mk 0) huse.erase_eq
      simp only [Stmt.eraseIds, Stmt.relabel, Routine.relabelAll_eq_map, Option.map_some, huse_eq]
      exact congrArg (Stmt.class _ _) hmethods_eq
  | none =>
    refine Plain.takeIf?.bind fun o => ?_
    cases o with
    | some t =>
      exact (h.routine .function).bind fun m routine routine' _ hr =>
        .pure ⟨congrArg Stmt.function hr.erase_eq, hr.fresh⟩
    | none =>
      refine Plain.takeIf?.bind fun o => ?_
      cases o with
      | some t => exact varDeclaration_numbers fuel
      | none => exact h.statement

theorem succ_statement (h : StatementNumbers fuel) :
    Numbers n (Grammar.statement (fuel + 1)) (Grammar.statement (fuel + 1)) (StmtNumbers n) := by
  unfold Grammar.statement
  refine Plain.takeIf?.bind fun o => ?_
  cases o with
  | none => exact expressionStatement_numbers fuel
  | some t =>
    dsimp only
    split
    · refine (loopClauses_numbers fuel).bind fun m clauses clauses' _ hc => h.statement.bind
        fun k body body' _ hb => .pure ⟨?_, ?_⟩
      · rw [Stmt.eraseIds, Stmt.eraseIds, relabel_loopOf, relabel_loopOf, hc.erase_eq]
        exact congrArg (loopOf _) hb.erase_eq
      · exact (hc.fresh.append hb.fresh).perm (occurrences_loopOf clauses body)
    · refine Plain.expect.bind fun _ => (expression_numbers fuel).bind fun m e e' _ he =>
        Plain.expect.bind fun _ => h.statement.bind fun k s s' _ hs => Plain.takeIf?.bind fun o => ?_
      cases o with
      | none =>
        exact .pure ⟨congrArg₂ (Stmt.if · · none) he.erase_eq hs.erase_eq, he.fresh.append hs.fresh⟩
      | some t' =>
        refine h.statement.bind fun j other other' _ ho => .pure ⟨?_, ?_⟩
        · show Stmt.if _ _ _ = Stmt.if _ _ _
          rw [Stmt.if.injEq]
          exact ⟨he.erase_eq, hs.erase_eq, congrArg some ho.erase_eq⟩
        · exact (he.fresh.append hs.fresh).append ho.fresh
    · exact printStatement_numbers fuel
    · exact returnStatement_numbers fuel t
    · exact Plain.expect.bind fun _ => (expression_numbers fuel).bind fun m e e' _ he =>
        Plain.expect.bind fun _ => h.statement.bind fun k s s' _ hs =>
        .pure ⟨congrArg₂ Stmt.while he.erase_eq hs.erase_eq, he.fresh.append hs.fresh⟩
    · refine h.block.bind fun m body body' _ hb => .pure ⟨?_, hb.fresh⟩
      simp only [Stmt.eraseIds, Stmt.relabel, Stmt.relabelAll_eq_map]
      exact congrArg Stmt.block hb.erase_eq

theorem succ_block (h : StatementNumbers fuel) :
    Numbers n (Grammar.block (fuel + 1)) (Grammar.block (fuel + 1)) (StmtsNumbers n) := by
  unfold Grammar.block
  exact h.declarations.bind fun m body body' _ hb => Plain.expect.bind fun _ => .pure hb

/-- A declaration that was abandoned adds no use to those behind it. -/
theorem toList_append {m k : NodeId} {o o' : Option Stmt} {rest rest' : List Stmt} (hle : n ≤ m)
    (ho : Option.Rel (StmtNumbers n m) o o') (hrest : StmtsNumbers m k rest rest') :
    StmtsNumbers n k (o.toList ++ rest) (o'.toList ++ rest') := by
  cases ho with
  | none => exact ⟨hrest.erase_eq, hrest.fresh.mono hle le_rfl⟩
  | some hs =>
    exact ⟨congrArg₂ List.cons hs.erase_eq hrest.erase_eq, hs.fresh.append hrest.fresh⟩

theorem succ_declarations (h : StatementNumbers fuel) :
    Numbers n (Grammar.declarations (fuel + 1)) (Grammar.declarations (fuel + 1))
      (StmtsNumbers n) := by
  unfold Grammar.declarations
  refine Plain.nextIs.bind fun atBrace => Plain.atEnd.bind fun atEnd => ?_
  split
  · exact .pure ⟨rfl, .nil le_rfl⟩
  · exact h.declaration.bind fun m first first' hle hfirst => h.declarations.bind
      fun k rest rest' _ hrest => .pure (toList_append hle hfirst hrest)

theorem succ_routine (h : StatementNumbers fuel) (kind : RoutineKind) :
    Numbers n (Grammar.routine (fuel + 1) kind) (Grammar.routine (fuel + 1) kind)
      (RoutineNumbers n) := by
  unfold Grammar.routine
  refine (plain_signature fuel kind).bind fun header => h.block.bind fun m body body' _ hb =>
    .pure ⟨?_, hb.fresh⟩
  simp only [Routine.eraseIds, Routine.relabel, Stmt.relabelAll_eq_map]
  exact congrArg (Routine.mk _ _) hb.erase_eq

theorem succ_methods (h : StatementNumbers fuel) :
    Numbers n (Grammar.methods (fuel + 1)) (Grammar.methods (fuel + 1)) (RoutinesNumbers n) := by
  unfold Grammar.methods
  refine Plain.nextIs.bind fun atBrace => Plain.atEnd.bind fun atEnd => ?_
  split
  · exact .pure ⟨rfl, .nil le_rfl⟩
  · exact (h.routine .method).bind fun m first first' _ hfirst => h.methods.bind
      fun k rest rest' _ hrest => .pure ⟨congrArg₂ List.cons hfirst.erase_eq hrest.erase_eq,
        hfirst.fresh.append hrest.fresh⟩

end StatementNumbers

theorem statementNumbers (fuel : Nat) : StatementNumbers fuel := by
  induction fuel with
  | zero =>
    refine ⟨?_, ?_, ?_, ?_, fun _ => ?_, ?_⟩
    · unfold declaration; exact .throw
    · unfold statement; exact .throw
    · unfold block; exact .throw
    · unfold declarations; exact .throw
    · unfold routine; exact .throw
    · unfold methods; exact .throw
  | succ fuel ih =>
    exact ⟨ih.succ_declaration, ih.succ_statement, ih.succ_block, ih.succ_declarations,
      ih.succ_routine, ih.succ_methods⟩

theorem program_numbers (fuel : Nat) {n : NodeId} :
    Numbers n (program fuel) (program fuel) (StmtsNumbers n) := by
  induction fuel generalizing n with
  | zero => exact .throw
  | succ fuel ih =>
    unfold program
    refine Plain.atEnd.bind fun atEnd => ?_
    split
    · exact .pure ⟨rfl, .nil le_rfl⟩
    · exact (statementNumbers fuel).declaration.bind fun m first first' hle hfirst => ih.bind
        fun k rest rest' _ hrest => .pure (StatementNumbers.toList_append hle hfirst hrest)

/-! ### Programs -/

/-- **The same tokens are read alike** whatever the first number is: the faults are the same, and
the trees are up to their numbers. -/
theorem parse_alike (tokens : List Token) (n k : NodeId) :
    (parse tokens k).faults = (parse tokens n).faults ∧
      (parse tokens k).finished = (parse tokens n).finished ∧
      (parse tokens k).statements.map Stmt.eraseIds =
        (parse tokens n).statements.map Stmt.eraseIds := by
  have h := program_numbers (fuelFor tokens) (.start tokens n) k rfl
  have hk : { Cursor.start tokens n with nextId := k } = .start tokens k := rfl
  rw [hk] at h
  unfold parse
  split at h
  · next hn hk =>
    obtain ⟨-, ⟨id, rfl⟩, hbody⟩ := h
    rw [hn, hk]
    exact ⟨rfl, rfl, hbody.erase_eq⟩
  · next stop d stop' d' hn hk =>
    obtain ⟨rfl, -, id, rfl⟩ := h
    rw [hn, hk]
    cases stop' <;> exact ⟨rfl, rfl, rfl⟩
  · exact h.elim

/-- **The numbers of a program are new and all different.** -/
theorem parse_fresh (tokens : List Token) (n : NodeId) :
    Fresh n (parse tokens n).nextId (Stmt.occurrencesAll (parse tokens n).statements) := by
  have h := program_numbers (fuelFor tokens) (.start tokens n) n rfl
  unfold parse
  split at h
  · next hn hk =>
    rw [hn]
    exact h.2.2.fresh
  · next stop d stop' d' hn hk =>
    rw [hn]
    cases stop <;> exact .nil h.2.1
  · exact h.elim

end Treewalk.Grammar
