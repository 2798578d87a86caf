import Mathlib.Tactic.Choose
import Treewalk.Proofs.Grammar.Completeness.Lookahead
import Treewalk.Proofs.Grammar.Parts

/-!
# What readers are made of

A reader does a few things to the state of reading only: it looks at the next token, takes it, notes
down a fault, asks for a node number, gives up, or skips to a statement boundary. A script is a
computation spelled out in these steps. Every reader has one, so what holds of all scripts holds of
all readers, and the steps can be given another meaning without writing the readers again.

## Main definitions

* `GrammarFault.isNote` — the faults after which reading goes on
* `Diagnostic.unwinds` — the diagnostics of the others
* `Script` — computations in steps, and `Script.read`, what they do to a cursor
* `Scripted` — the readings that have a script, with the tokens that it may drop

## Main results

* `expressionScripts` — the readers of expressions have scripts that drop no semicolon
* `hasScript_program` — the reader of programs has a script
-/

namespace Treewalk

/-- The faults that are noted down without abandoning what is being read. -/
def GrammarFault.isNote : GrammarFault → Bool
  | .invalidAssignmentTarget | .tooManyArguments | .tooManyParameters => true
  | _ => false

/-- The diagnostics of faults at which a declaration is abandoned. -/
def Diagnostic.unwinds : Diagnostic → Bool
  | .grammar _ cause => !cause.isNote
  | _ => true

theorem Diagnostic.unwinds_eq_false {anchor : Token} {cause : GrammarFault} (h : cause.isNote) :
    (Diagnostic.grammar anchor cause).unwinds = false := by
  rw [unwinds, h]
  rfl

theorem Diagnostic.unwinds_eq_true {anchor : Token} {cause : GrammarFault}
    (h : cause.isNote = false) : (Diagnostic.grammar anchor cause).unwinds = true := by
  rw [unwinds, h]
  rfl

namespace Grammar

variable {α β : Type}

/-- Computations in the steps of a reader. A fault is noted down, or what is being read is given up
at it, but no fault is of both kinds. -/
inductive Script : Type → Type 1
  | pure {α : Type} (a : α) : Script α
  | bind {α β : Type} (first : Script α) (next : α → Script β) : Script β
  | exhausted {α : Type} : Script α
  | fail {α : Type} (cause : GrammarFault) (h : cause.isNote = false) : Script α
  | report (anchor : Token) (cause : GrammarFault) (h : cause.isNote = true) : Script Unit
  | peek : Script Token
  | takeIf? (p : Token → Bool) : Script (Option Token)
  | nextIs (s : Symbol) : Script Bool
  | atEnd : Script Bool
  | freshId : Script NodeId
  | recover {α : Type} (script : Script α) : Script (Option α)

namespace Script

/-- What the steps do to a cursor. -/
def read : {α : Type} → Script α → Reading α
  | _, pure a => Pure.pure a
  | _, bind first next => first.read >>= fun a => (next a).read
  | _, exhausted => throw .exhausted
  | _, fail cause _ => Grammar.fail cause
  | _, report anchor cause _ => Grammar.report anchor cause
  | _, peek => Grammar.peek
  | _, takeIf? p => Grammar.takeIf? p
  | _, nextIs s => Grammar.nextIs s
  | _, atEnd => Grammar.atEnd
  | _, freshId => Grammar.freshId
  | _, recover script => Grammar.recover script.read

/-- Only tokens with the property are dropped. What is skipped up to a statement boundary may be
any. -/
def Takes (may : Token → Prop) : {α : Type} → Script α → Prop
  | _, bind first next => first.Takes may ∧ ∀ a, (next a).Takes may
  | _, takeIf? p => ∀ t, p t → may t
  | _, recover script => script.Takes may ∧ ∀ t, may t
  | _, pure _ | _, exhausted | _, fail .. | _, report .. | _, peek | _, nextIs _ | _, atEnd
  | _, freshId => True

end Script

/-- The reading has a script that drops tokens with the property only. -/
def Scripted (may : Token → Prop) (read : Reading α) : Prop :=
  ∃ script : Script α, script.Takes may ∧ script.read = read

namespace Scripted

variable {may : Token → Prop} {read : Reading α}

protected theorem pure (a : α) : Scripted may (pure a : Reading α) := ⟨.pure a, trivial, rfl⟩

protected theorem bind {f : α → Reading β} (h : Scripted may read)
    (hf : ∀ a, Scripted may (f a)) : Scripted may (read >>= f) := by
  obtain ⟨first, hfirst, rfl⟩ := h
  choose next hnext hread using hf
  refine ⟨.bind first next, ⟨hfirst, hnext⟩, ?_⟩
  simp only [Script.read, hread]

protected theorem map {g : α → β} (h : Scripted may read) : Scripted may (g <$> read) := by
  rw [map_eq_pure_bind]
  exact h.bind fun a => .pure (g a)

theorem exhausted : Scripted may (throw .exhausted : Reading α) := ⟨.exhausted, trivial, rfl⟩

theorem fail {cause : GrammarFault} (h : cause.isNote = false) :
    Scripted may (fail cause : Reading α) := ⟨.fail cause h, trivial, rfl⟩

theorem report {anchor : Token} {cause : GrammarFault} (h : cause.isNote = true) :
    Scripted may (report anchor cause) := ⟨.report anchor cause h, trivial, rfl⟩

theorem peek : Scripted may peek := ⟨.peek, trivial, rfl⟩

theorem takeIf? {p : Token → Bool} (h : ∀ t, p t → may t) : Scripted may (takeIf? p) :=
  ⟨.takeIf? p, h, rfl⟩

theorem nextIs {s : Symbol} : Scripted may (nextIs s) := ⟨.nextIs s, trivial, rfl⟩

theorem atEnd : Scripted may atEnd := ⟨.atEnd, trivial, rfl⟩

theorem freshId : Scripted may freshId := ⟨.freshId, trivial, rfl⟩

theorem recover (h : Scripted (fun _ => True) read) : Scripted (fun _ => True) (recover read) := by
  obtain ⟨script, hscript, rfl⟩ := h
  exact ⟨.recover script, ⟨hscript, fun _ => trivial⟩, rfl⟩

/-! ### Parts -/

theorem expect {s : Symbol} {place : SymbolPlace} (h : ∀ t : Token, t.isSymbol s → may t) :
    Scripted may (expect s place) :=
  (takeIf? h).bind fun o => by
    cases o with
    | none => exact fail rfl
    | some t => exact .pure t

theorem expectName {place : NamePlace} (h : ∀ t : Token, t.isIdentifier → may t) :
    Scripted may (expectName place) :=
  (takeIf? h).bind fun o => by
    cases o with
    | none => exact fail rfl
    | some t => exact .pure t

theorem noteCount {count : Nat} {cause : GrammarFault} (h : cause.isNote = true) :
    Scripted may (noteCount count cause) := by
  rw [Grammar.noteCount]
  split
  · exact peek.bind fun t => report h
  · exact .pure ()

theorem optionalUnless {s : Symbol} (h : Scripted may read) :
    Scripted may (optionalUnless s read) :=
  nextIs.bind fun b => by
    cases b with
    | true => exact .pure none
    | false => exact h.map

theorem listUnless {s : Symbol} {read : Reading (List α)} (h : Scripted may read) :
    Scripted may (listUnless s read) :=
  nextIs.bind fun b => by
    cases b with
    | true => exact .pure []
    | false => exact h

end Scripted

/-! ### Expressions -/

section Expressions

variable {may : Token → Prop}

theorem scripted_assignTo (equals : Token) (value target : Expr) :
    Scripted may (assignTo equals value target) := by
  cases target with
  | «variable» use => exact Scripted.freshId.bind fun id => .pure _
  | property object name => exact .pure _
  | _ => exact (Scripted.report rfl).bind fun _ => .pure _

/-- Tokens of a set that has no semicolon may be taken where only semicolons may not. -/
theorem may_of_kind (hmay : ∀ t : Token, t.isSymbol .semicolon = false → may t) {p : Token → Bool}
    (hp : ∀ t : Token, p t = p ⟨t.kind, "", 0⟩) (hs : p ⟨.symbol .semicolon, "", 0⟩ = false) :
    ∀ t, p t → may t :=
  fun t h => hmay t (isSymbol_eq_false hp h hs)

theorem scripted_atom? (hmay : ∀ t : Token, t.isSymbol .semicolon = false → may t) :
    Scripted may atom? := by
  refine (Scripted.takeIf? (may_of_kind hmay (fun _ => rfl) rfl)).bind fun o => ?_
  cases o with
  | none => exact .pure none
  | some t =>
    dsimp only
    split
    · exact .pure _
    · exact .pure _
    · exact .pure _
    · exact .pure _
    · refine (Scripted.expect (may_of_kind hmay (p := (·.isSymbol .dot)) (fun _ => rfl) rfl)).bind
        fun dot => ?_
      refine Scripted.bind ?_ fun method => ?_
      · exact .expectName (may_of_kind hmay (p := (·.isIdentifier)) (fun _ => rfl) rfl)
      exact Scripted.freshId.bind fun id => .pure _
    · exact Scripted.freshId.bind fun id => .pure _
    · exact Scripted.freshId.bind fun id => .pure _
    · exact .pure _

/-- The readers of expressions, at one amount of fuel. -/
structure ExpressionScripts (may : Token → Prop) (fuel : Nat) : Prop where
  expression : Scripted may (expression fuel)
  operand (level : Option Level) : Scripted may (operand fuel level)
  operators (level : Level) (left : Expr) : Scripted may (operators fuel level left)
  accesses (object : Expr) : Scripted may (accesses fuel object)
  arguments (count : Nat) : Scripted may (arguments fuel count)
  primary : Scripted may (primary fuel)

namespace ExpressionScripts

variable {fuel : Nat}

theorem succ_expression (hmay : ∀ t : Token, t.isSymbol .semicolon = false → may t)
    (ih : ExpressionScripts may fuel) : Scripted may (Grammar.expression (fuel + 1)) := by
  unfold Grammar.expression
  refine (ih.operand (some .disjunction)).bind fun left => ?_
  refine (Scripted.takeIf? (may_of_kind hmay (fun _ => rfl) rfl)).bind fun o => ?_
  cases o with
  | none => exact .pure left
  | some equals => exact ih.expression.bind fun value => scripted_assignTo equals value left

theorem succ_operand (hmay : ∀ t : Token, t.isSymbol .semicolon = false → may t)
    (ih : ExpressionScripts may fuel) (level : Option Level) :
    Scripted may (Grammar.operand (fuel + 1) level) := by
  cases level with
  | some level =>
    rw [Grammar.operand, operation_succ]
    exact (ih.operand level.tighter?).bind fun left => ih.operators level left
  | none =>
    unfold Grammar.operand Grammar.unary
    refine (Scripted.takeIf? (may_of_kind hmay (fun _ => rfl) rfl)).bind fun o => ?_
    cases o with
    | some operator => exact (ih.operand none).bind fun operand => .pure _
    | none => exact ih.primary.bind fun callee => ih.accesses callee

theorem succ_operators (hmay : ∀ t : Token, t.isSymbol .semicolon = false → may t)
    (ih : ExpressionScripts may fuel) (level : Level) (left : Expr) :
    Scripted may (Grammar.operators (fuel + 1) level left) := by
  rw [Grammar.operators_succ]
  refine (Scripted.takeIf? (may_of_kind hmay (fun _ => ?_) ?_)).bind fun o => ?_
  · cases level <;> rfl
  · cases level <;> rfl
  · cases o with
    | none => exact .pure left
    | some operator =>
      exact (ih.operand level.tighter?).bind fun right => ih.operators level _

theorem succ_accesses (hmay : ∀ t : Token, t.isSymbol .semicolon = false → may t)
    (ih : ExpressionScripts may fuel) (object : Expr) :
    Scripted may (Grammar.accesses (fuel + 1) object) := by
  rw [Grammar.accesses_succ]
  refine (Scripted.takeIf? (may_of_kind hmay (fun _ => rfl) rfl)).bind fun o => ?_
  cases o with
  | some left =>
    refine (ih.arguments 0).listUnless.bind fun values => ?_
    exact (Scripted.expect (may_of_kind hmay (fun _ => rfl) rfl)).bind fun paren => ih.accesses _
  | none =>
    refine (Scripted.takeIf? (may_of_kind hmay (fun _ => rfl) rfl)).bind fun o => ?_
    cases o with
    | some dot =>
      exact (Scripted.expectName (may_of_kind hmay (fun _ => rfl) rfl)).bind fun name =>
        ih.accesses _
    | none => exact .pure object

theorem succ_arguments (hmay : ∀ t : Token, t.isSymbol .semicolon = false → may t)
    (ih : ExpressionScripts may fuel) (count : Nat) :
    Scripted may (Grammar.arguments (fuel + 1) count) := by
  rw [Grammar.arguments_succ]
  refine (Scripted.noteCount rfl).bind fun _ => ih.expression.bind fun argument => ?_
  refine (Scripted.takeIf? (may_of_kind hmay (fun _ => rfl) rfl)).bind fun o => ?_
  cases o with
  | some comma => exact (ih.arguments (count + 1)).bind fun values => .pure _
  | none => exact .pure _

theorem succ_primary (hmay : ∀ t : Token, t.isSymbol .semicolon = false → may t)
    (ih : ExpressionScripts may fuel) : Scripted may (Grammar.primary (fuel + 1)) := by
  unfold Grammar.primary
  refine (scripted_atom? hmay).bind fun o => ?_
  cases o with
  | some e => exact .pure e
  | none =>
    refine (Scripted.takeIf? (may_of_kind hmay (fun _ => rfl) rfl)).bind fun o => ?_
    cases o with
    | some left =>
      exact ih.expression.bind fun inner =>
        (Scripted.expect (may_of_kind hmay (fun _ => rfl) rfl)).bind fun right => .pure _
    | none => exact .fail rfl

end ExpressionScripts

theorem expressionScripts (hmay : ∀ t : Token, t.isSymbol .semicolon = false → may t)
    (fuel : Nat) : ExpressionScripts may fuel := by
  induction fuel with
  | zero =>
    refine ⟨?_, fun level => ?_, fun level left => ?_, fun object => ?_, fun count => ?_, ?_⟩
    · unfold expression; exact .exhausted
    · cases level with
      | none => unfold operand unary; exact .exhausted
      | some level => unfold operand operation; exact .exhausted
    · unfold operators; exact .exhausted
    · unfold accesses; exact .exhausted
    · unfold arguments; exact .exhausted
    · unfold primary; exact .exhausted
  | succ fuel ih =>
    exact ⟨ih.succ_expression hmay, ih.succ_operand hmay, ih.succ_operators hmay,
      ih.succ_accesses hmay, ih.succ_arguments hmay, ih.succ_primary hmay⟩

/-! ### Parts of declarations -/

theorem scripted_variableInitializer (hmay : ∀ t : Token, t.isSymbol .semicolon = false → may t)
    (fuel : Nat) : Scripted may (variableInitializer fuel) :=
  (Scripted.takeIf? (may_of_kind hmay (fun _ => rfl) rfl)).bind fun o => by
    cases o with
    | some equals => exact (expressionScripts hmay fuel).expression.map
    | none => exact .pure none

theorem scripted_superclassClause (hmay : ∀ t : Token, t.isSymbol .semicolon = false → may t) :
    Scripted may superclassClause :=
  (Scripted.takeIf? (may_of_kind hmay (fun _ => rfl) rfl)).bind fun o => by
    cases o with
    | some less =>
      exact (Scripted.expectName (may_of_kind hmay (fun _ => rfl) rfl)).bind fun name =>
        Scripted.freshId.bind fun id => .pure _
    | none => exact .pure none

theorem scripted_parameters (hmay : ∀ t : Token, t.isSymbol .semicolon = false → may t)
    (fuel count : Nat) : Scripted may (parameters fuel count) := by
  induction fuel generalizing count with
  | zero => exact .exhausted
  | succ fuel ih =>
    rw [parameters_succ]
    refine (Scripted.noteCount rfl).bind fun _ => ?_
    refine (Scripted.expectName (may_of_kind hmay (fun _ => rfl) rfl)).bind fun name => ?_
    refine (Scripted.takeIf? (may_of_kind hmay (fun _ => rfl) rfl)).bind fun o => ?_
    cases o with
    | some comma => exact (ih (count + 1)).bind fun names => .pure _
    | none => exact .pure _

end Expressions

/-! ### Statements -/

/-- The reading has a script. -/
abbrev HasScript (read : Reading α) : Prop := Scripted (fun _ => True) read

namespace HasScript

theorem takeIf? {p : Token → Bool} : HasScript (takeIf? p) :=
  Scripted.takeIf? fun _ _ => trivial

theorem expect {s : Symbol} {place : SymbolPlace} : HasScript (expect s place) :=
  Scripted.expect fun _ _ => trivial

theorem expectName {place : NamePlace} : HasScript (expectName place) :=
  Scripted.expectName fun _ _ => trivial

end HasScript

section Parts

variable (fuel : Nat)

theorem hasScript_expression : HasScript (expression fuel) :=
  (expressionScripts (fun _ _ => trivial) fuel).expression

theorem hasScript_varDeclaration : HasScript (varDeclaration fuel) := by
  rw [varDeclaration_eq]
  have hinitializer : HasScript (variableInitializer fuel) :=
    scripted_variableInitializer (fun _ _ => trivial) fuel
  exact HasScript.expectName.bind fun name => hinitializer.bind fun initializer =>
    HasScript.expect.bind fun semicolon => .pure _

theorem hasScript_expressionStatement : HasScript (expressionStatement fuel) :=
  (hasScript_expression fuel).bind fun _ => HasScript.expect.bind fun _ => .pure _

theorem hasScript_printStatement : HasScript (printStatement fuel) :=
  (hasScript_expression fuel).bind fun _ => HasScript.expect.bind fun _ => .pure _

theorem hasScript_returnStatement (keyword : Token) : HasScript (returnStatement fuel keyword) := by
  rw [returnStatement_eq]
  exact (hasScript_expression fuel).optionalUnless.bind fun value =>
    HasScript.expect.bind fun semicolon => .pure _

theorem hasScript_signature (kind : RoutineKind) : HasScript (signature fuel kind) := by
  rw [signature_eq]
  have hparameters : HasScript (parameters fuel 0) :=
    scripted_parameters (fun _ _ => trivial) fuel 0
  exact HasScript.expectName.bind fun name => HasScript.expect.bind fun left =>
    hparameters.listUnless.bind fun names => HasScript.expect.bind fun right =>
    HasScript.expect.bind fun brace => .pure _

theorem hasScript_classHeader : HasScript classHeader := by
  rw [classHeader_eq]
  have hsuperclass : HasScript superclassClause :=
    scripted_superclassClause fun _ _ => trivial
  exact HasScript.expectName.bind fun name => hsuperclass.bind fun superclass =>
    HasScript.expect.bind fun left => .pure _

theorem hasScript_loopInitializer : HasScript (loopInitializer fuel) := by
  refine HasScript.takeIf?.bind fun o => ?_
  cases o with
  | some semicolon => exact .pure none
  | none =>
    refine HasScript.takeIf?.bind fun o => ?_
    cases o with
    | some t => exact (hasScript_varDeclaration fuel).map
    | none => exact (hasScript_expressionStatement fuel).map

theorem hasScript_loopClauses : HasScript (loopClauses fuel) := by
  rw [loopClauses_eq]
  have hclause {s : Symbol} : HasScript (optionalUnless s (expression fuel)) :=
    (hasScript_expression fuel).optionalUnless
  exact HasScript.expect.bind fun left => (hasScript_loopInitializer fuel).bind fun initializer =>
    hclause.bind fun condition => HasScript.expect.bind fun semicolon =>
    hclause.bind fun increment => HasScript.expect.bind fun right => .pure _

end Parts

/-- The readers of declarations and statements, at one amount of fuel. -/
structure StatementScripts (fuel : Nat) : Prop where
  declaration : HasScript (declaration fuel)
  statement : HasScript (statement fuel)
  block : HasScript (block fuel)
  declarations : HasScript (declarations fuel)
  routine (kind : RoutineKind) : HasScript (routine fuel kind)
  methods : HasScript (methods fuel)

namespace StatementScripts

variable {fuel : Nat}

theorem attempt (ih : StatementScripts fuel) : HasScript (Grammar.attempt fuel) := by
  unfold Grammar.attempt
  refine HasScript.takeIf?.bind fun o => ?_
  cases o with
  | some t =>
    exact hasScript_classHeader.bind fun header => ih.methods.bind fun methods =>
      HasScript.expect.bind fun right => .pure _
  | none =>
    refine HasScript.takeIf?.bind fun o => ?_
    cases o with
    | some t => exact (ih.routine .function).bind fun routine => .pure _
    | none =>
      refine HasScript.takeIf?.bind fun o => ?_
      cases o with
      | some t => exact hasScript_varDeclaration fuel
      | none => exact ih.statement

theorem succ_declaration (ih : StatementScripts fuel) :
    HasScript (Grammar.declaration (fuel + 1)) := by
  rw [declaration_succ]
  exact ih.attempt.recover

theorem succ_statement (ih : StatementScripts fuel) : HasScript (Grammar.statement (fuel + 1)) := by
  unfold Grammar.statement
  refine HasScript.takeIf?.bind fun o => ?_
  cases o with
  | none => exact hasScript_expressionStatement fuel
  | some t =>
    dsimp only
    split
    · exact (hasScript_loopClauses fuel).bind fun clauses => ih.statement.bind fun body => .pure _
    · refine HasScript.expect.bind fun left => (hasScript_expression fuel).bind fun condition =>
        HasScript.expect.bind fun right => ih.statement.bind fun branch =>
        HasScript.takeIf?.bind fun o => ?_
      cases o with
      | some t' => exact ih.statement.bind fun other => .pure _
      | none => exact .pure _
    · exact hasScript_printStatement fuel
    · exact hasScript_returnStatement fuel t
    · exact HasScript.expect.bind fun left => (hasScript_expression fuel).bind fun condition =>
        HasScript.expect.bind fun right => ih.statement.bind fun body => .pure _
    · exact ih.block.bind fun body => .pure _

theorem succ_block (ih : StatementScripts fuel) : HasScript (Grammar.block (fuel + 1)) := by
  unfold Grammar.block
  exact ih.declarations.bind fun body => HasScript.expect.bind fun right => .pure _

theorem succ_declarations (ih : StatementScripts fuel) :
    HasScript (Grammar.declarations (fuel + 1)) := by
  unfold Grammar.declarations
  refine Scripted.nextIs.bind fun atBrace => Scripted.atEnd.bind fun atEnd => ?_
  split
  · exact .pure []
  · exact ih.declaration.bind fun first => ih.declarations.bind fun rest => .pure _

theorem succ_routine (ih : StatementScripts fuel) (kind : RoutineKind) :
    HasScript (Grammar.routine (fuel + 1) kind) := by
  unfold Grammar.routine
  exact (hasScript_signature fuel kind).bind fun header => ih.block.bind fun body => .pure _

theorem succ_methods (ih : StatementScripts fuel) : HasScript (Grammar.methods (fuel + 1)) := by
  unfold Grammar.methods
  refine Scripted.nextIs.bind fun atBrace => Scripted.atEnd.bind fun atEnd => ?_
  split
  · exact .pure []
  · exact (ih.routine .method).bind fun first => ih.methods.bind fun rest => .pure _

end StatementScripts

theorem statementScripts (fuel : Nat) : StatementScripts fuel := by
  induction fuel with
  | zero =>
    refine ⟨?_, ?_, ?_, ?_, fun kind => ?_, ?_⟩
    · unfold declaration; exact .exhausted
    · unfold statement; exact .exhausted
    · unfold block; exact .exhausted
    · unfold declarations; exact .exhausted
    · unfold routine; exact .exhausted
    · unfold methods; exact .exhausted
  | succ fuel ih =>
    exact ⟨ih.succ_declaration, ih.succ_statement, ih.succ_block, ih.succ_declarations,
      ih.succ_routine, ih.succ_methods⟩

theorem hasScript_program (fuel : Nat) : HasScript (program fuel) := by
  induction fuel with
  | zero => exact .exhausted
  | succ fuel ih =>
    unfold program
    refine Scripted.atEnd.bind fun atEnd => ?_
    split
    · exact .pure []
    · exact (statementScripts fuel).declaration.bind fun first => ih.bind fun rest => .pure _

end Grammar

end Treewalk
