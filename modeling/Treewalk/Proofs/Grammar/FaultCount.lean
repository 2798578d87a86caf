import Treewalk.Proofs.Grammar.Fuel.Statement

/-!
# How many faults are found

Every fault is paid for with a token. A declaration that is abandoned costs the token at fault, and
a fault that is only noted down costs the equals sign or the comma in front of it. At the end of the
input nothing can be dropped, but then something was taken before: the opening brace of each body
that is still open pays for the fault at its end. So there are no more faults than tokens.

## Main definitions

* `Within` — a budget covers the faults met and the tokens ahead
* `Spends` — a reading stays within a budget
* `Keeps` — at a cursor, a reading is never abandoned and pays for each fault with a token

## Main results

* `program_keeps` — the reader of programs
* `length_faults_le` — there are at most as many faults as tokens

## Implementation notes

A reading that is abandoned leaves its fault to be noted down by others, so a budget has to cover
one fault more than those met.
-/

namespace Treewalk.Grammar

variable {α β : Type}

/-! ### Budgets -/

/-- The budget covers the faults met and the tokens ahead, with something to spare, and one fault
more. -/
def Within (budget spare : Nat) (c : Cursor) : Prop :=
  c.faults.length + c.ahead.length + spare ≤ budget ∧ c.faults.length + 1 ≤ budget

theorem Within.mono {budget j k : Nat} {c : Cursor} (h : Within budget k c) (hle : j ≤ k) :
    Within budget j c :=
  ⟨(Nat.add_le_add_left hle _).trans h.1, h.2⟩

/-- The reading stays within the budget, with so much to spare before and after it. -/
def Spends (budget before after : Nat) (read : Reading α) : Prop :=
  ∀ c, Within budget before c →
    match read c with
    | .ok _ d => Within budget after d
    | .error stop d => stop ≠ .exhausted → Within budget 0 d

namespace Spends

variable {budget j k l : Nat} {read : Reading α} {f : α → Reading β}

theorem mono {j' k' : Nat} (h : Spends budget k j read) (hk : k ≤ k') (hj : j' ≤ j) :
    Spends budget k' j' read := by
  intro c hc
  have hend := h c (hc.mono hk)
  split at hend
  · exact hend.mono hj
  · exact hend

protected theorem pure (a : α) : Spends budget k k (pure a : Reading α) := fun _ hc => hc

theorem exhausted : Spends budget k j (throw .exhausted : Reading α) := fun _ _ h => absurd rfl h

theorem fail {cause : GrammarFault} : Spends budget k j (fail cause : Reading α) :=
  fun _ hc _ => hc.mono (Nat.zero_le k)

protected theorem bind (h : Spends budget l k read) (hf : ∀ a, Spends budget k j (f a)) :
    Spends budget l j (read >>= f) := by
  intro c hc
  have hend := h c hc
  simp only [bind, EStateM.bind]
  cases hr : read c with
  | ok a d => exact hf a d (by rwa [hr] at hend)
  | error stop d => exact by rwa [hr] at hend

protected theorem map {g : α → β} (h : Spends budget k j read) :
    Spends budget k j (g <$> read) := by
  rw [map_eq_pure_bind]
  exact h.bind fun a => .pure (g a)

theorem peek : Spends budget k k peek := fun _ hc => hc

theorem nextIs {s : Symbol} : Spends budget k k (nextIs s) := fun _ hc => hc

theorem atEnd : Spends budget k k atEnd := fun _ hc => hc

theorem freshId : Spends budget k k freshId := fun _ hc => hc

/-- A token that is taken is to spare. -/
theorem bind_takeIf? {p : Token → Bool} {f : Option Token → Reading β}
    (hnone : Spends budget k j (f none)) (hsome : ∀ t, Spends budget (k + 1) j (f (some t))) :
    Spends budget k j (takeIf? p >>= f) := by
  rintro ⟨ahead, finish, nextId, faults⟩ hc
  cases ahead with
  | nil => exact hnone _ hc
  | cons t rest =>
    by_cases h : p t
    · have hrest : Within budget (k + 1) ⟨rest, finish, nextId, faults⟩ := by
        simp only [Within, List.length_cons] at hc ⊢
        omega
      simp only [bind, EStateM.bind, Grammar.takeIf?, h, if_true]
      exact hsome t _ hrest
    · simp only [bind, EStateM.bind, Grammar.takeIf?, h]
      exact hnone _ hc

theorem bind_expect {s : Symbol} {place : SymbolPlace} {f : Token → Reading β}
    (h : ∀ t, Spends budget (k + 1) j (f t)) : Spends budget k j (expect s place >>= f) := by
  simp only [expect, bind_assoc]
  refine bind_takeIf? (fail.bind h) fun t => ?_
  simp only [pure_bind]
  exact h t

theorem bind_expectName {place : NamePlace} {f : Token → Reading β}
    (h : ∀ t, Spends budget (k + 1) j (f t)) : Spends budget k j (expectName place >>= f) := by
  simp only [expectName, bind_assoc]
  refine bind_takeIf? (fail.bind h) fun t => ?_
  simp only [pure_bind]
  exact h t

/-- A fault that is noted down needs two to spare, one for itself and one for the next. -/
theorem report {t : Token} {cause : GrammarFault} :
    Spends budget (k + 2) (k + 1) (report t cause) := by
  intro c hc
  change Within budget (k + 1) { c with faults := .grammar t cause :: c.faults }
  simp only [Within, List.length_cons] at hc ⊢
  omega

/-! ### Parts -/

theorem noteCount {count : Nat} {cause : GrammarFault} :
    Spends budget (k + 2) (k + 1) (noteCount count cause) := by
  rw [Grammar.noteCount]
  split
  · exact peek.bind fun t => report
  · exact (Spends.pure ()).mono le_rfl (Nat.le_succ _)

theorem optionalUnless {s : Symbol} (h : Spends budget k k read) :
    Spends budget k k (optionalUnless s read) :=
  nextIs.bind fun b => by
    cases b with
    | true => exact .pure none
    | false => exact h.map

theorem listUnless {s : Symbol} {read : Reading (List α)} (h : Spends budget k k read) :
    Spends budget k k (listUnless s read) :=
  nextIs.bind fun b => by
    cases b with
    | true => exact .pure []
    | false => exact h

end Spends

/-! ### Expressions -/

variable {budget fuel : Nat}

theorem spends_assignTo (k : Nat) (equals : Token) (value target : Expr) :
    Spends budget (k + 2) (k + 1) (assignTo equals value target) := by
  have hpure (e : Expr) : Spends budget (k + 2) (k + 1) (pure e : Reading Expr) :=
    (Spends.pure e).mono le_rfl (Nat.le_succ _)
  cases target with
  | «variable» use => exact Spends.freshId.bind fun id => hpure _
  | property object name => exact hpure _
  | _ => exact Spends.report.bind fun _ => .pure _

theorem spends_bind_atom? {j k : Nat} {f : Option Expr → Reading β}
    (hnone : Spends budget k j (f none)) (hsome : ∀ e, Spends budget (k + 1) j (f (some e))) :
    Spends budget k j (atom? >>= f) := by
  simp only [atom?, bind_assoc]
  refine Spends.bind_takeIf? ?_ fun t => ?_
  · simp only [pure_bind]
    exact hnone
  dsimp only
  split <;> simp only [bind_assoc, pure_bind]
  · exact hsome _
  · exact hsome _
  · exact hsome _
  · exact hsome _
  · exact Spends.bind_expect fun dot => Spends.bind_expectName fun method =>
      Spends.freshId.bind fun id => (hsome _).mono (by omega) le_rfl
  · exact Spends.freshId.bind fun id => hsome _
  · exact Spends.freshId.bind fun id => hsome _
  · exact hsome _

/-- The readers of expressions, at one amount of fuel. An expression takes a token or is abandoned;
what goes on with one stands behind a token that was taken. -/
structure ExpressionSpends (budget fuel : Nat) : Prop where
  expression (k : Nat) : Spends budget k (k + 1) (expression fuel)
  operand (k : Nat) (level : Option Level) : Spends budget k (k + 1) (operand fuel level)
  operators (k : Nat) (level : Level) (left : Expr) : Spends budget k k (operators fuel level left)
  accesses (k : Nat) (object : Expr) : Spends budget (k + 1) (k + 1) (accesses fuel object)
  arguments (k count : Nat) : Spends budget (k + 2) (k + 2) (arguments fuel count)
  primary (k : Nat) : Spends budget k (k + 1) (primary fuel)

namespace ExpressionSpends

theorem succ_expression (ih : ExpressionSpends budget fuel) (k : Nat) :
    Spends budget k (k + 1) (Grammar.expression (fuel + 1)) := by
  unfold Grammar.expression
  refine (ih.operand k (some .disjunction)).bind fun left => ?_
  refine Spends.bind_takeIf? (.pure left) fun equals => ?_
  exact ((ih.expression (k + 2)).mono le_rfl (Nat.le_succ _)).bind fun value =>
    spends_assignTo k equals value left

theorem succ_operand (ih : ExpressionSpends budget fuel) (k : Nat) (level : Option Level) :
    Spends budget k (k + 1) (Grammar.operand (fuel + 1) level) := by
  cases level with
  | some level =>
    rw [Grammar.operand, operation_succ]
    exact (ih.operand k level.tighter?).bind fun left => ih.operators (k + 1) level left
  | none =>
    unfold Grammar.operand unary
    refine Spends.bind_takeIf? ?_ fun operator => ?_
    · exact (ih.primary k).bind fun callee => ih.accesses k callee
    · exact ((ih.operand (k + 1) none).mono le_rfl (Nat.le_succ _)).bind fun operand => .pure _

theorem succ_operators (ih : ExpressionSpends budget fuel) (k : Nat) (level : Level) (left : Expr) :
    Spends budget k k (Grammar.operators (fuel + 1) level left) := by
  rw [operators_succ]
  refine Spends.bind_takeIf? (.pure left) fun operator => ?_
  exact (ih.operand (k + 1) level.tighter?).bind fun right =>
    (ih.operators k level _).mono (by omega) le_rfl

theorem succ_accesses (ih : ExpressionSpends budget fuel) (k : Nat) (object : Expr) :
    Spends budget (k + 1) (k + 1) (Grammar.accesses (fuel + 1) object) := by
  rw [accesses_succ]
  refine Spends.bind_takeIf? ?_ fun left => ?_
  · refine Spends.bind_takeIf? (.pure object) fun dot => ?_
    exact Spends.bind_expectName fun name => (ih.accesses k _).mono (by omega) le_rfl
  · refine (ih.arguments k 0).listUnless.bind fun values => ?_
    exact Spends.bind_expect fun paren => (ih.accesses k _).mono (by omega) le_rfl

theorem succ_arguments (ih : ExpressionSpends budget fuel) (k count : Nat) :
    Spends budget (k + 2) (k + 2) (Grammar.arguments (fuel + 1) count) := by
  rw [arguments_succ]
  refine Spends.noteCount.bind fun _ => (ih.expression (k + 1)).bind fun argument => ?_
  refine Spends.bind_takeIf? (.pure _) fun comma => ?_
  exact ((ih.arguments k (count + 1)).mono (by omega) le_rfl).bind fun values => .pure _

theorem succ_primary (ih : ExpressionSpends budget fuel) (k : Nat) :
    Spends budget k (k + 1) (Grammar.primary (fuel + 1)) := by
  unfold Grammar.primary
  refine spends_bind_atom? ?_ fun e => .pure e
  refine Spends.bind_takeIf? .fail fun left => ?_
  refine (ih.expression (k + 1)).bind fun inner => Spends.bind_expect fun right => ?_
  exact (Spends.pure _).mono le_rfl (by omega)

end ExpressionSpends

theorem expressionSpends (budget fuel : Nat) : ExpressionSpends budget fuel := by
  induction fuel with
  | zero =>
    refine ⟨fun k => ?_, fun k level => ?_, fun k level left => ?_, fun k object => ?_,
      fun k count => ?_, fun k => ?_⟩
    · unfold expression; exact .exhausted
    · cases level with
      | none => unfold operand unary; exact .exhausted
      | some level => unfold operand operation; exact .exhausted
    · unfold operators; exact .exhausted
    · unfold accesses; exact .exhausted
    · unfold arguments; exact .exhausted
    · unfold primary; exact .exhausted
  | succ fuel ih =>
    exact ⟨ih.succ_expression, ih.succ_operand, ih.succ_operators, ih.succ_accesses,
      ih.succ_arguments, ih.succ_primary⟩

theorem spends_expression (budget fuel k : Nat) : Spends budget k k (expression fuel) :=
  ((expressionSpends budget fuel).expression k).mono le_rfl (Nat.le_succ k)

/-! ### Statements without statements inside -/

section Clauses

variable (budget fuel k : Nat)

theorem spends_varDeclaration : Spends budget k k (varDeclaration fuel) := by
  rw [varDeclaration_eq]
  have hinitializer (k : Nat) : Spends budget k k (variableInitializer fuel) :=
    Spends.bind_takeIf? (.pure none) fun equals =>
      ((spends_expression budget fuel (k + 1)).mono le_rfl (Nat.le_succ k)).map
  exact Spends.bind_expectName fun name => (hinitializer (k + 1)).bind fun initializer =>
    Spends.bind_expect fun semicolon => (Spends.pure _).mono le_rfl (by omega)

theorem spends_expressionStatement : Spends budget k k (expressionStatement fuel) :=
  (spends_expression budget fuel k).bind fun _ =>
    Spends.bind_expect fun _ => (Spends.pure _).mono le_rfl (Nat.le_succ k)

theorem spends_printStatement : Spends budget k k (printStatement fuel) :=
  (spends_expression budget fuel k).bind fun _ =>
    Spends.bind_expect fun _ => (Spends.pure _).mono le_rfl (Nat.le_succ k)

theorem spends_returnStatement (keyword : Token) :
    Spends budget k k (returnStatement fuel keyword) := by
  rw [returnStatement_eq]
  exact (spends_expression budget fuel k).optionalUnless.bind fun value =>
    Spends.bind_expect fun semicolon => (Spends.pure _).mono le_rfl (Nat.le_succ k)

theorem spends_parameters (count : Nat) :
    Spends budget (k + 2) (k + 2) (parameters fuel count) := by
  induction fuel generalizing count with
  | zero => exact .exhausted
  | succ fuel ih =>
    rw [parameters_succ]
    refine Spends.noteCount.bind fun _ => Spends.bind_expectName fun name => ?_
    refine Spends.bind_takeIf? (.pure _) fun comma => ?_
    exact ((ih (count + 1)).mono (by omega) le_rfl).bind fun names => .pure _

/-- The brace in front of the body is to spare. -/
theorem spends_signature (kind : RoutineKind) :
    Spends budget k (k + 1) (signature fuel kind) := by
  rw [signature_eq]
  refine Spends.bind_expectName fun name => Spends.bind_expect fun left => ?_
  refine (spends_parameters budget fuel k 0).listUnless.bind fun names => ?_
  exact Spends.bind_expect fun right => Spends.bind_expect fun brace =>
    (Spends.pure _).mono le_rfl (by omega)

theorem spends_classHeader : Spends budget k k classHeader := by
  rw [classHeader_eq]
  have hsuperclass (k : Nat) : Spends budget k k superclassClause :=
    Spends.bind_takeIf? (.pure none) fun less => Spends.bind_expectName fun name =>
      Spends.freshId.bind fun id => (Spends.pure _).mono le_rfl (by omega)
  exact Spends.bind_expectName fun name => (hsuperclass (k + 1)).bind fun superclass =>
    Spends.bind_expect fun left => (Spends.pure _).mono le_rfl (by omega)

theorem spends_loopInitializer : Spends budget k k (loopInitializer fuel) := by
  refine Spends.bind_takeIf? (Spends.bind_takeIf? ?_ fun var => ?_) fun semicolon => ?_
  · exact (spends_expressionStatement budget fuel k).map
  · exact ((spends_varDeclaration budget fuel (k + 1)).mono le_rfl (Nat.le_succ k)).map
  · exact (Spends.pure _).mono le_rfl (Nat.le_succ k)

theorem spends_loopClauses : Spends budget k k (loopClauses fuel) := by
  rw [loopClauses_eq]
  have hclause (k : Nat) {s : Symbol} :
      Spends budget k k (optionalUnless s (expression fuel)) :=
    (spends_expression budget fuel k).optionalUnless
  exact Spends.bind_expect fun left => (spends_loopInitializer budget fuel (k + 1)).bind
    fun initializer => (hclause (k + 1)).bind fun condition => Spends.bind_expect fun semicolon =>
    (hclause (k + 2)).bind fun increment => Spends.bind_expect fun right =>
    (Spends.pure _).mono le_rfl (by omega)

end Clauses

/-! ### Statements with statements inside -/

/-- At the cursor the reading is not abandoned, and there are at most as many faults more as tokens
less. -/
def Keeps (read : Reading α) (c : Cursor) : Prop :=
  match read c with
  | .ok _ d => d.faults.length + d.ahead.length ≤ c.faults.length + c.ahead.length
  | .error stop _ => stop = .exhausted

namespace Keeps

variable {read : Reading α} {f : α → Reading β} {c : Cursor}

protected theorem pure (a : α) : Keeps (pure a : Reading α) c := le_rfl

theorem exhausted : Keeps (throw .exhausted : Reading α) c := rfl

protected theorem bind (h : Keeps read c) (hf : ∀ a d, Keeps (f a) d) : Keeps (read >>= f) c := by
  unfold Keeps at h ⊢
  simp only [bind, EStateM.bind]
  cases hr : read c with
  | error stop d => rwa [hr] at h
  | ok a d =>
    rw [hr] at h
    have hnext := hf a d
    unfold Keeps at hnext
    dsimp only
    cases he : f a d with
    | ok b e =>
      rw [he] at hnext
      exact hnext.trans h
    | error stop e => rwa [he] at hnext

theorem bind_nextIs {s : Symbol} {f : Bool → Reading β} (h : ∀ b, Keeps (f b) c) :
    Keeps (nextIs s >>= f) c := h _

theorem bind_atEnd {f : Bool → Reading β} (htrue : Keeps (f true) c)
    (hfalse : c.ahead ≠ [] → Keeps (f false) c) : Keeps (atEnd >>= f) c := by
  obtain ⟨ahead, finish, nextId, faults⟩ := c
  cases ahead with
  | nil => exact htrue
  | cons t rest => exact hfalse (List.cons_ne_nil t rest)

/-- What is to spare before is to spare afterwards. -/
theorem spends {k : Nat} (h : ∀ c, Keeps read c) : Spends budget (k + 1) (k + 1) read := by
  intro c hc
  have hend := h c
  unfold Keeps at hend
  cases hr : read c with
  | ok a d =>
    rw [hr] at hend
    simp only [Within] at hc hend ⊢
    omega
  | error stop d =>
    rw [hr] at hend
    exact fun hstop => absurd hend hstop

/-- Either the declaration is read, or it is abandoned and the token at fault is dropped. -/
theorem recover (h : ∀ budget, Spends budget 0 0 read) (hc : c.ahead ≠ []) :
    Keeps (recover read) c := by
  have hlength := List.length_pos_iff.2 hc
  have hend := h (c.faults.length + c.ahead.length) c ⟨le_rfl, by omega⟩
  unfold Keeps Grammar.recover
  cases hr : read c with
  | ok a d =>
    rw [hr] at hend
    exact hend.1
  | error stop d =>
    rw [hr] at hend
    cases stop with
    | exhausted => rfl
    | fault anchor cause =>
      have hbudget := hend nofun
      have hresync := length_resync_le d.ahead
      simp only [Within, List.length_cons] at hbudget ⊢
      omega

end Keeps

/-- The readers of declarations and statements, at one amount of fuel. -/
structure StatementSpends (fuel : Nat) : Prop where
  declaration {c : Cursor} (hc : c.ahead ≠ []) : Keeps (declaration fuel) c
  statement (budget k : Nat) : Spends budget k k (statement fuel)
  block (budget k : Nat) : Spends budget (k + 1) (k + 1) (block fuel)
  declarations (c : Cursor) : Keeps (declarations fuel) c
  routine (budget k : Nat) (kind : RoutineKind) : Spends budget k k (routine fuel kind)
  methods (budget k : Nat) : Spends budget k k (methods fuel)

namespace StatementSpends

theorem succ_declaration (ih : StatementSpends fuel) {c : Cursor} (hc : c.ahead ≠ []) :
    Keeps (Grammar.declaration (fuel + 1)) c := by
  unfold Grammar.declaration
  refine Keeps.recover (fun budget => ?_) hc
  refine Spends.bind_takeIf? (Spends.bind_takeIf? (Spends.bind_takeIf? ?_ fun var => ?_)
    fun fun' => ?_) fun class' => ?_
  · exact ih.statement budget 0
  · exact (spends_varDeclaration budget fuel 1).mono le_rfl (Nat.zero_le 1)
  · exact (ih.routine budget 1 .function).bind fun routine =>
      (Spends.pure _).mono le_rfl (Nat.zero_le 1)
  · refine (spends_classHeader budget 1).bind fun header => (ih.methods budget 1).bind fun _ => ?_
    exact Spends.bind_expect fun right => (Spends.pure _).mono le_rfl (by omega)

theorem succ_statement (ih : StatementSpends fuel) (budget k : Nat) :
    Spends budget k k (Grammar.statement (fuel + 1)) := by
  unfold Grammar.statement
  refine Spends.bind_takeIf? (spends_expressionStatement budget fuel k) fun t => ?_
  refine Spends.mono ?_ le_rfl (Nat.le_succ k)
  have hbody (j : Nat) (hj : k + 1 ≤ j) {next : Stmt → Stmt} :
      Spends budget j (k + 1) (do return next (← Grammar.statement fuel)) :=
    ((ih.statement budget (k + 1)).mono hj le_rfl).bind fun body => .pure _
  dsimp only
  split
  · exact (spends_loopClauses budget fuel (k + 1)).bind fun clauses => hbody (k + 1) le_rfl
  · refine Spends.bind_expect fun left => (spends_expression budget fuel _).bind fun condition => ?_
    refine Spends.bind_expect fun right => (ih.statement budget _).bind fun branch => ?_
    exact Spends.bind_takeIf? ((Spends.pure _).mono le_rfl (by omega)) fun t => hbody _ (by omega)
  · exact spends_printStatement budget fuel (k + 1)
  · exact spends_returnStatement budget fuel (k + 1) t
  · refine Spends.bind_expect fun left => (spends_expression budget fuel _).bind fun condition => ?_
    exact Spends.bind_expect fun right => hbody _ (by omega)
  · exact (ih.block budget k).bind fun body => .pure _

theorem succ_block (ih : StatementSpends fuel) (budget k : Nat) :
    Spends budget (k + 1) (k + 1) (Grammar.block (fuel + 1)) := by
  unfold Grammar.block
  exact (Keeps.spends ih.declarations).bind fun body =>
    Spends.bind_expect fun right => (Spends.pure _).mono le_rfl (Nat.le_succ _)

theorem succ_declarations (ih : StatementSpends fuel) (c : Cursor) :
    Keeps (Grammar.declarations (fuel + 1)) c := by
  unfold Grammar.declarations
  refine Keeps.bind_nextIs fun atBrace => Keeps.bind_atEnd ?_ fun hc => ?_
  · simp only [Bool.or_true, if_true]
    exact .pure []
  · split
    · exact .pure []
    · exact (ih.declaration hc).bind fun first d => (ih.declarations d).bind fun rest _ => .pure _

theorem succ_routine (ih : StatementSpends fuel) (budget k : Nat) (kind : RoutineKind) :
    Spends budget k k (Grammar.routine (fuel + 1) kind) := by
  unfold Grammar.routine
  exact (spends_signature budget fuel k kind).bind fun header =>
    (ih.block budget k).bind fun body => (Spends.pure _).mono le_rfl (Nat.le_succ k)

theorem succ_methods (ih : StatementSpends fuel) (budget k : Nat) :
    Spends budget k k (Grammar.methods (fuel + 1)) := by
  unfold Grammar.methods
  refine Spends.nextIs.bind fun atBrace => Spends.atEnd.bind fun atEnd => ?_
  split
  · exact .pure []
  · exact (ih.routine budget k .method).bind fun first =>
      (ih.methods budget k).bind fun rest => .pure _

end StatementSpends

theorem statementSpends (fuel : Nat) : StatementSpends fuel := by
  induction fuel with
  | zero =>
    refine ⟨fun hc => ?_, fun budget k => ?_, fun budget k => ?_, fun c => ?_,
      fun budget k kind => ?_, fun budget k => ?_⟩
    · unfold declaration; exact .exhausted
    · unfold statement; exact .exhausted
    · unfold block; exact .exhausted
    · unfold declarations; exact .exhausted
    · unfold routine; exact .exhausted
    · unfold methods; exact .exhausted
  | succ fuel ih =>
    exact ⟨ih.succ_declaration, ih.succ_statement, ih.succ_block, ih.succ_declarations,
      ih.succ_routine, ih.succ_methods⟩

/-! ### Programs -/

theorem program_keeps (fuel : Nat) (c : Cursor) : Keeps (program fuel) c := by
  induction fuel generalizing c with
  | zero => exact .exhausted
  | succ fuel ih =>
    unfold program
    refine Keeps.bind_atEnd (.pure []) fun hc => ?_
    exact ((statementSpends fuel).declaration hc).bind fun first d =>
      (ih d).bind fun rest _ => .pure _

/-- A program is never abandoned as a whole. -/
theorem exists_program_eq (tokens : List Token) (firstId : NodeId) :
    ∃ body c, program (fuelFor tokens) (.start tokens firstId) = .ok body c := by
  have hkeeps := program_keeps (fuelFor tokens) (.start tokens firstId)
  have hfinished := parse_finished tokens firstId
  unfold Keeps at hkeeps
  unfold parse at hfinished
  cases hr : program (fuelFor tokens) (.start tokens firstId) with
  | ok body c => exact ⟨body, c, rfl⟩
  | error stop c =>
    rw [hr] at hkeeps hfinished
    cases hkeeps
    cases hfinished

/-- **Every fault is paid for with a token.** -/
theorem length_faults_le (tokens : List Token) (firstId : NodeId) :
    (parse tokens firstId).faults.length ≤ (tokens.takeWhile (!·.isEnd)).length := by
  have hkeeps := program_keeps (fuelFor tokens) (.start tokens firstId)
  obtain ⟨body, c, hread⟩ := exists_program_eq tokens firstId
  rw [Keeps, hread] at hkeeps
  rw [parse, hread]
  simp only [Cursor.start, List.length_nil, Nat.zero_add] at hkeeps
  rw [List.length_reverse]
  exact (Nat.le_add_right _ _).trans hkeeps

end Treewalk.Grammar
