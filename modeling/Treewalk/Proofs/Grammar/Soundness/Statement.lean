import Treewalk.Proofs.Grammar.Soundness.Expression

/-!
# What readers of statements take

Every reader of a statement that ends without a fault took the tokens of its phrase, and its result
is a tree of them. An `else` goes to the nearest `if` because a statement is read as far as it goes:
behind an open one no `else` is left.

## Main results

* `StatementSpans` — the readers with statements inside, at one amount of fuel
* `program_spans` — the tokens of a program
-/

namespace Treewalk.Grammar

open ExprPhrase (Derives)

/-! ### Parts of statements -/

theorem variableInitializer_spans (fuel : Nat) : Spans (variableInitializer fuel) fun w o =>
    match o with
    | none => w = []
    | some e => ∃ equals w', w = equals :: w' ∧ equals.isSymbol .equal ∧
        Derives .expression w' e := by
  refine Spans.takeIf?.bind fun o => ?_
  cases o with
  | none => exact .pure fun _ h => by simpa using h
  | some equals =>
    refine .map ((expression_spans fuel).mono ?_)
    rintro w e he _ ⟨hequals, rfl⟩
    exact ⟨equals, w, rfl, hequals, he⟩

/-- A variable declaration behind its keyword. -/
theorem varDeclaration_spans (fuel : Nat) : Spans (varDeclaration fuel) fun w s =>
    ∀ t : Token, t.isKeyword .var → VariableDeclaration (t :: w) s := by
  rw [varDeclaration_eq]
  refine Spans.expectName.bind fun name => (variableInitializer_spans fuel).bind fun o =>
    Spans.expect.bind fun semicolon => .pure ?_
  cases o with
  | none =>
    rintro _ ⟨hsemicolon, rfl⟩ _ rfl _ ⟨hname, rfl⟩ t ht
    exact .plain ht hname hsemicolon
  | some e =>
    rintro _ ⟨hsemicolon, rfl⟩ _ ⟨equals, w, rfl, hequals, he⟩ _ ⟨hname, rfl⟩ t ht
    simpa using VariableDeclaration.initialized ht hname hequals he hsemicolon

theorem expressionStatement_spans (fuel : Nat) :
    Spans (expressionStatement fuel) ExpressionStatement := by
  refine (expression_spans fuel).bind fun value => Spans.expect.bind fun semicolon => .pure ?_
  rintro _ ⟨hsemicolon, rfl⟩ w hvalue
  exact .mk hvalue hsemicolon

theorem parameters_spans (fuel count : Nat) : Spans (parameters fuel count) fun w names =>
    ParameterNames w names ∧ count + names.length ≤ maxArity := by
  induction fuel generalizing count with
  | zero => exact .throw
  | succ fuel ih =>
    rw [parameters_succ]
    refine Spans.noteCount.bind fun _ => Spans.expectName.bind fun name =>
      Spans.takeIf?.bind fun o => ?_
    cases o with
    | some comma =>
      refine (ih (count + 1)).bind fun names => .pure ?_
      rintro w ⟨hrest, harity⟩ _ ⟨hcomma, rfl⟩ _ ⟨hname, rfl⟩ _ ⟨rfl, -⟩
      refine ⟨by simpa using ParameterNames.cons hname hcomma hrest, ?_⟩
      rw [List.length_cons]
      omega
    | none =>
      refine .pure ?_
      rintro _ rfl _ ⟨hname, rfl⟩ _ ⟨rfl, hcount⟩
      exact ⟨.last hname, hcount⟩

/-- The brace that the signature ends with is the first token of the body. -/
theorem signature_spans (fuel : Nat) (kind : RoutineKind) :
    Spans (signature fuel kind) fun w (name, parameters) =>
      ∃ left w' right brace, w = name :: left :: (w' ++ [right, brace]) ∧ name.isIdentifier ∧
        left.isSymbol .leftParen ∧ ParameterList w' parameters ∧ right.isSymbol .rightParen ∧
        brace.isSymbol .leftBrace := by
  rw [signature_eq]
  refine Spans.expectName.bind fun name => Spans.expect.bind fun left =>
    (parameters_spans fuel 0).listUnless.bind fun names => Spans.expect.bind fun right =>
    Spans.expect.bind fun brace => .pure ?_
  rintro _ ⟨hbrace, rfl⟩ _ ⟨hright, rfl⟩ w hnames _ ⟨hleft, rfl⟩ _ ⟨hname, rfl⟩
  refine ⟨left, w, right, brace, by simp, hname, hleft, ?_, hright, hbrace⟩
  rcases hnames with ⟨rfl, rfl⟩ | ⟨hnames, harity⟩
  · exact .empty
  · exact .names hnames (by simpa using harity)

theorem superclassClause_spans : Spans superclassClause SuperclassClause := by
  refine Spans.takeIf?.bind fun o => ?_
  cases o with
  | none =>
    refine .pure ?_
    rintro _ rfl
    exact .none
  | some less =>
    refine Spans.expectName.bind fun name => Spans.freshId.bind fun id => .pure ?_
    rintro _ rfl _ ⟨hname, rfl⟩ _ ⟨hless, rfl⟩
    exact .some hless hname

theorem classHeader_spans : Spans classHeader fun w (name, superclass) =>
    ∃ w' left, w = name :: (w' ++ [left]) ∧ name.isIdentifier ∧ SuperclassClause w' superclass ∧
      left.isSymbol .leftBrace := by
  rw [classHeader_eq]
  refine Spans.expectName.bind fun name => superclassClause_spans.bind fun superclass =>
    Spans.expect.bind fun left => .pure ?_
  rintro _ ⟨hleft, rfl⟩ w hsuperclass _ ⟨hname, rfl⟩
  exact ⟨w, left, by simp, hname, hsuperclass, hleft⟩

theorem loopInitializer_spans (fuel : Nat) : Spans (loopInitializer fuel) LoopInitializer := by
  refine Spans.takeIf?.bind fun o => ?_
  cases o with
  | some semicolon =>
    refine .pure ?_
    rintro _ ⟨hsemicolon, rfl⟩
    exact .none hsemicolon
  | none =>
    refine Spans.takeIf?.bind fun o => ?_
    cases o with
    | some t =>
      refine .map ((varDeclaration_spans fuel).mono ?_)
      rintro w s h _ ⟨ht, rfl⟩ _ rfl
      exact .variable (h t ht)
    | none =>
      refine .map ((expressionStatement_spans fuel).mono ?_)
      rintro w s h _ rfl _ rfl
      exact .expression h

theorem loopClauses_spans (fuel : Nat) : Spans (loopClauses fuel) fun w clauses =>
    ∃ left w' right, w = left :: (w' ++ [right]) ∧ left.isSymbol .leftParen ∧
      LoopHeader w' clauses ∧ right.isSymbol .rightParen := by
  rw [loopClauses_eq]
  refine Spans.expect.bind fun left => (loopInitializer_spans fuel).bind fun initializer =>
    (optionalExpression_spans fuel _).bind fun condition => Spans.expect.bind fun semicolon =>
    (optionalExpression_spans fuel _).bind fun increment => Spans.expect.bind fun right => .pure ?_
  rintro _ ⟨hright, rfl⟩ w₃ hincrement _ ⟨hsemicolon, rfl⟩ w₂ hcondition w₁ hinitializer
    _ ⟨hleft, rfl⟩
  exact ⟨left, w₁ ++ w₂ ++ semicolon :: w₃, right, by simp, hleft,
    .mk hinitializer hcondition hsemicolon hincrement, hright⟩

/-! ### Statements with statements inside -/

/-- The readers of declarations and statements, at one amount of fuel. The brace before a block is
taken by the reader of what the block belongs to. -/
structure StatementSpans (fuel : Nat) : Prop where
  declaration : Spans (declaration fuel) fun w o =>
    ∃ s, o = some s ∧ StmtPhrase.Derives .nearest .declaration w s
  statement : SpansTo (statement fuel) fun w s r =>
    ∃ isOpen, StmtPhrase.Derives .nearest (.statement isOpen) w s ∧
      (isOpen = true → ∀ t ∈ r.head?, t.isKeyword .else = false)
  block : Spans (block fuel) fun w body => ∀ left : Token, left.isSymbol .leftBrace →
    StmtPhrase.Derives .nearest .block (left :: w) body
  declarations : Spans (declarations fuel) (StmtPhrase.Derives .nearest .declarations)
  routine (kind : RoutineKind) :
    Spans (routine fuel kind) (StmtPhrase.Derives .nearest .routine)
  methods : Spans (methods fuel) (StmtPhrase.Derives .nearest .methods)

namespace StatementSpans

variable {fuel : Nat}

theorem succ_declaration (h : StatementSpans fuel) :
    Spans (Grammar.declaration (fuel + 1)) fun w o =>
      ∃ s, o = some s ∧ StmtPhrase.Derives .nearest .declaration w s := by
  unfold Grammar.declaration
  refine Spans.recover (Spans.takeIf?.bind fun o => ?_)
  cases o with
  | some t =>
    refine classHeader_spans.bind fun header => h.methods.bind fun methods =>
      Spans.expect.bind fun right => .pure ?_
    rintro _ ⟨hright, rfl⟩ w₂ hmethods _ ⟨w₁, left, rfl, hname, hsuperclass, hleft⟩ _ ⟨ht, rfl⟩
    simpa using StmtPhrase.Derives.class ht hname hsuperclass hleft hmethods hright
  | none =>
    refine Spans.takeIf?.bind fun o => ?_
    cases o with
    | some t =>
      refine (h.routine .function).bind fun routine => .pure ?_
      rintro w hroutine _ ⟨ht, rfl⟩ _ rfl
      simpa using StmtPhrase.Derives.function ht hroutine
    | none =>
      refine Spans.takeIf?.bind fun o => ?_
      cases o with
      | some t =>
        refine (varDeclaration_spans fuel).mono ?_
        rintro w s hs _ ⟨ht, rfl⟩ _ rfl _ rfl
        exact .variable (hs t ht)
      | none =>
        refine h.statement.mono ?_
        rintro w s _ ⟨isOpen, hs, -⟩ _ rfl _ rfl _ rfl
        exact .statement hs

theorem succ_statement (h : StatementSpans fuel) :
    SpansTo (Grammar.statement (fuel + 1)) fun w s r =>
      ∃ isOpen, StmtPhrase.Derives .nearest (.statement isOpen) w s ∧
        (isOpen = true → ∀ t ∈ r.head?, t.isKeyword .else = false) := by
  unfold Grammar.statement
  refine SpansTo.bind Spans.takeIf? fun o => ?_
  cases o with
  | none =>
    refine SpansTo.mono (expressionStatement_spans fuel) ?_
    rintro w s r hs _ rfl
    exact ⟨false, .expression hs, by simp⟩
  | some t =>
    obtain ⟨kind, lexeme, line⟩ := t
    dsimp only
    split
    · refine SpansTo.bind (loopClauses_spans fuel) fun clauses => h.statement.bind fun body =>
        .pure ?_
      rintro r w₂ ⟨isOpen, hbody, hopen⟩ _ ⟨left, w₁, right, rfl, hleft, hclauses, hright⟩ _ ⟨-, rfl⟩
      refine ⟨isOpen, ?_, hopen⟩
      simpa using StmtPhrase.Derives.for rfl hleft hclauses hright hbody
    · refine SpansTo.bind Spans.expect fun left => SpansTo.bind (expression_spans fuel)
        fun condition => SpansTo.bind Spans.expect fun right => h.statement.bind fun branch =>
        SpansTo.takeIf?.bind fun o => ?_
      cases o with
      | some t' =>
        refine h.statement.bind fun other => .pure ?_
        rintro r w₃ ⟨isOpen', hother, hopen'⟩ _ ⟨ht', rfl⟩ w₂ ⟨isOpen, hbranch, hopen⟩ _
          ⟨hright, rfl⟩ w₁ hcondition _ ⟨hleft, rfl⟩ _ ⟨-, rfl⟩
        have hclosed : isOpen = false := by
          by_contra hne
          simp [ht'] at hopen
          exact absurd hopen (by simpa using hne)
        refine ⟨isOpen', ?_, hopen'⟩
        simpa using StmtPhrase.Derives.ifElse rfl hleft hcondition hright hbranch
          (fun _ => hclosed) ht' hother
      | none =>
        refine .pure ?_
        rintro r _ ⟨rfl, helse⟩ w₂ ⟨isOpen, hbranch, -⟩ _ ⟨hright, rfl⟩ w₁ hcondition _
          ⟨hleft, rfl⟩ _ ⟨-, rfl⟩
        refine ⟨true, ?_, fun _ => helse⟩
        simpa using StmtPhrase.Derives.ifThen rfl hleft hcondition hright hbranch
    · refine SpansTo.bind (expression_spans fuel) fun value => SpansTo.bind Spans.expect
        fun semicolon => .pure ?_
      rintro r _ ⟨hsemicolon, rfl⟩ w hvalue _ ⟨-, rfl⟩
      refine ⟨false, ?_, by simp⟩
      simpa using StmtPhrase.Derives.print rfl hvalue hsemicolon
    · rw [returnStatement_eq]
      refine SpansTo.bind (optionalExpression_spans fuel _) fun value => SpansTo.bind Spans.expect
        fun semicolon => .pure ?_
      rintro r _ ⟨hsemicolon, rfl⟩ w hvalue _ ⟨-, rfl⟩
      refine ⟨false, ?_, by simp⟩
      simpa using StmtPhrase.Derives.return rfl hvalue hsemicolon
    · refine SpansTo.bind Spans.expect fun left => SpansTo.bind (expression_spans fuel)
        fun condition => SpansTo.bind Spans.expect fun right => h.statement.bind fun body =>
        .pure ?_
      rintro r w₂ ⟨isOpen, hbody, hopen⟩ _ ⟨hright, rfl⟩ w₁ hcondition _ ⟨hleft, rfl⟩ _ ⟨-, rfl⟩
      refine ⟨isOpen, ?_, hopen⟩
      simpa using StmtPhrase.Derives.while rfl hleft hcondition hright hbody
    · refine SpansTo.bind h.block fun body => .pure ?_
      rintro r w hbody _ ⟨hkind, rfl⟩
      have hleft : Token.isSymbol ⟨kind, lexeme, line⟩ .leftBrace := by
        split at hkind <;> simp_all [Token.isSymbol]
      refine ⟨false, ?_, by simp⟩
      simpa using StmtPhrase.Derives.braces (hbody _ hleft)

theorem succ_block (h : StatementSpans fuel) : Spans (Grammar.block (fuel + 1)) fun w body =>
    ∀ left : Token, left.isSymbol .leftBrace →
      StmtPhrase.Derives .nearest .block (left :: w) body := by
  unfold Grammar.block
  refine h.declarations.bind fun body => Spans.expect.bind fun right => .pure ?_
  rintro _ ⟨hright, rfl⟩ w hbody left hleft
  exact .block hleft hbody hright

theorem succ_declarations (h : StatementSpans fuel) :
    Spans (Grammar.declarations (fuel + 1)) (StmtPhrase.Derives .nearest .declarations) := by
  unfold Grammar.declarations
  refine Spans.nextIs.bind fun atBrace => Spans.atEnd.bind fun atEnd => ?_
  split
  · refine .pure ?_
    rintro _ rfl _ rfl
    exact .noDeclaration
  · refine h.declaration.bind fun first => h.declarations.bind fun rest => .pure ?_
    rintro w₂ hrest w₁ ⟨s, rfl, hs⟩ _ rfl _ rfl
    simpa using StmtPhrase.Derives.declaration hs hrest

theorem succ_routine (h : StatementSpans fuel) (kind : RoutineKind) :
    Spans (Grammar.routine (fuel + 1) kind) (StmtPhrase.Derives .nearest .routine) := by
  unfold Grammar.routine
  refine (signature_spans fuel kind).bind fun header => h.block.bind fun body => .pure ?_
  rintro w₂ hbody _ ⟨left, w₁, right, brace, rfl, hname, hleft, hparameters, hright, hbrace⟩
  simpa using StmtPhrase.Derives.routine hname hleft hparameters hright (hbody brace hbrace)

theorem succ_methods (h : StatementSpans fuel) :
    Spans (Grammar.methods (fuel + 1)) (StmtPhrase.Derives .nearest .methods) := by
  unfold Grammar.methods
  refine Spans.nextIs.bind fun atBrace => Spans.atEnd.bind fun atEnd => ?_
  split
  · refine .pure ?_
    rintro _ rfl _ rfl
    exact .noMethod
  · refine (h.routine .method).bind fun first => h.methods.bind fun rest => .pure ?_
    rintro w₂ hrest w₁ hfirst _ rfl _ rfl
    simpa using StmtPhrase.Derives.method hfirst hrest

end StatementSpans

theorem statementSpans (fuel : Nat) : StatementSpans fuel := by
  induction fuel with
  | zero =>
    refine ⟨?_, ?_, ?_, ?_, fun _ => ?_, ?_⟩
    · unfold declaration; exact .throw
    · unfold statement; exact .throw
    · unfold block; exact .throw
    · unfold declarations; exact .throw
    · unfold routine; exact .throw
    · unfold methods; exact .throw
  | succ fuel ih =>
    exact ⟨ih.succ_declaration, ih.succ_statement, ih.succ_block, ih.succ_declarations,
      ih.succ_routine, ih.succ_methods⟩

/-- A program is read to the end of its tokens. -/
theorem program_spans (fuel : Nat) : SpansTo (program fuel) fun w body r =>
    StmtPhrase.Derives .nearest .declarations w body ∧ r = [] := by
  induction fuel with
  | zero => exact .throw
  | succ fuel ih =>
    unfold program
    refine SpansTo.atEnd.bind fun atEnd => ?_
    cases atEnd with
    | true =>
      refine .pure ?_
      rintro r _ ⟨rfl, hend⟩
      exact ⟨.noDeclaration, by simpa using hend.symm⟩
    | false =>
      refine SpansTo.bind (statementSpans fuel).declaration fun first => ih.bind fun rest =>
        .pure ?_
      rintro r w₂ ⟨hrest, hr⟩ w₁ ⟨s, rfl, hs⟩ _ ⟨rfl, -⟩
      exact ⟨by simpa using StmtPhrase.Derives.declaration hs hrest, by simpa using hr⟩

end Treewalk.Grammar
