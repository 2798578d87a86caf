import Treewalk.Proofs.Grammar.Phrase
import Treewalk.Proofs.Grammar.Reader

/-!
# What readers of expressions take

Every reader of an expression that ends without a fault took the tokens of its phrase, and its
result is a tree of them. The proofs follow the readers: each `bind` of a reader is a `Spans.bind`,
and the rule of the grammar that puts the parts together is applied at its end.

An assignment is the one place where reader and rules part. The reader takes what stands before the
equals sign for an operation and looks at its tree; the rules look at its tokens.

## Main results

* `variableOnly`, `propertyLast` — the tokens of an operation whose tree is a target
* `expression_spans` — the tokens of an expression
-/

namespace Treewalk.Grammar

open ExprPhrase (Derives)

/-! ### Targets of assignments -/

theorem Level.combine_ne_variable {level : Level} {left right : Expr} {operator : Token}
    {use : Use} : level.combine left operator right ≠ .variable use := by
  cases level <;> simp [combine]

theorem Level.combine_ne_property {level : Level} {left right object : Expr}
    {operator name : Token} : level.combine left operator right ≠ .property object name := by
  cases level <;> simp [combine]

/-- How a phrase can have a variable as its tree: by being one token, or by adding nothing to what
stands before it. -/
def VariableOnly (use : Use) : (p : ExprPhrase) → List Token → p.Tree → Prop
  | .operand _, w, e | .call, w, e | .primary, w, e =>
    e = .variable use → w = [use.token] ∧ use.token.isIdentifier
  | .operators _ left, w, e | .accesses left, w, e => e = .variable use → w = [] ∧ left = e
  | .expression, _, _ | .arguments, _, _ => True

theorem variableOnly (use : Use) {p : ExprPhrase} {w : List Token} {e : p.Tree}
    (h : p.Derives w e) : VariableOnly use p w e := by
  induction h with
  | operation hleft hrest ihleft ihrest =>
    rintro rfl
    obtain ⟨rfl, rfl⟩ := ihrest rfl
    simpa using ihleft rfl
  | operator hoperator hright hrest ihright ihrest =>
    intro he
    obtain ⟨rfl, hleft⟩ := ihrest he
    exact absurd (hleft.trans he) Level.combine_ne_variable
  | call hcallee hrest ihcallee ihrest =>
    rintro rfl
    obtain ⟨rfl, rfl⟩ := ihrest rfl
    simpa using ihcallee rfl
  | emptyCall hleft hright hrest ih | fullCall hleft hvalues harity hright hrest ihvalues ih
  | property hdot hname hrest ih =>
    intro he
    exact absurd ((ih he).2.trans he) (by simp)
  | «variable» h =>
    intro he
    cases he
    exact ⟨rfl, h⟩
  | plain h ih => exact ih
  | noOperator | noAccess => exact fun _ => ⟨rfl, rfl⟩
  | _ => simp [VariableOnly]

/-- How a phrase can have a property access as its tree: by ending in it, or by adding nothing to
what stands before it. -/
def PropertyLast (object : Expr) (name : Token) : (p : ExprPhrase) → List Token → p.Tree → Prop
  | .operand _, w, e | .call, w, e => e = .property object name →
    ∃ w' dot, w = w' ++ [dot, name] ∧ dot.isSymbol .dot ∧ name.isIdentifier ∧
      Derives .call w' object
  | .accesses left, w, e => e = .property object name → w = [] ∧ left = e ∨
    ∃ w' dot, w = w' ++ [dot, name] ∧ dot.isSymbol .dot ∧ name.isIdentifier ∧
      Derives (.accesses left) w' object
  | .operators _ left, w, e => e = .property object name → w = [] ∧ left = e
  | .primary, _, e => e ≠ .property object name
  | .expression, _, _ | .arguments, _, _ => True

theorem propertyLast (object : Expr) (name : Token) {p : ExprPhrase} {w : List Token} {e : p.Tree}
    (h : p.Derives w e) : PropertyLast object name p w e := by
  induction h with
  | operation hleft hrest ihleft ihrest =>
    rintro rfl
    obtain ⟨rfl, rfl⟩ := ihrest rfl
    simpa using ihleft rfl
  | operator hoperator hright hrest ihright ihrest =>
    intro he
    obtain ⟨rfl, hleft⟩ := ihrest he
    exact absurd (hleft.trans he) Level.combine_ne_property
  | call hcallee hrest ihcallee ihrest =>
    intro he
    obtain ⟨rfl, rfl⟩ | ⟨w', dot, rfl, hdot, hname, hobject⟩ := ihrest he
    · exact absurd he ihcallee
    · exact ⟨_, dot, (List.append_assoc ..).symm, hdot, hname, .call hcallee hobject⟩
  | emptyCall hleft hright hrest ih =>
    intro he
    obtain ⟨-, h⟩ | ⟨w', dot, rfl, hdot, hname, hobject⟩ := ih he
    · exact absurd (h.trans he) (by simp)
    · exact .inr ⟨_, dot, rfl, hdot, hname, .emptyCall hleft hright hobject⟩
  | fullCall hleft hvalues harity hright hrest ihvalues ih =>
    intro he
    obtain ⟨-, h⟩ | ⟨w', dot, rfl, hdot, hname, hobject⟩ := ih he
    · exact absurd (h.trans he) (by simp)
    · exact .inr ⟨_, dot, by simp, hdot, hname, .fullCall hleft hvalues harity hright hobject⟩
  | @property dot₁ name₁ _ _ _ hdot hname hrest ih =>
    intro he
    obtain ⟨rfl, h⟩ | ⟨w', dot, rfl, hdot', hname', hobject⟩ := ih he
    · obtain ⟨rfl, rfl⟩ := Expr.property.inj (h.trans he)
      exact .inr ⟨[], dot₁, rfl, hdot, hname, .noAccess⟩
    · exact .inr ⟨_, dot, rfl, hdot', hname', .property hdot hname hobject⟩
  | plain h ih => exact ih
  | noOperator => exact fun _ => ⟨rfl, rfl⟩
  | noAccess => exact fun _ => .inl ⟨rfl, rfl⟩
  | _ => simp [PropertyLast]

/-! ### Expressions -/

theorem assignTo_spans {equals : Token} {left value : Expr} :
    Spans (assignTo equals value left) fun w₃ e => ∀ w₁ w₂,
      Derives (.operand (some .disjunction)) w₁ left → equals.isSymbol .equal →
        Derives .expression w₂ value → Derives .expression (w₁ ++ equals :: (w₂ ++ w₃)) e := by
  cases left with
  | «variable» use =>
    refine Spans.freshId.bind fun id => .pure ?_
    rintro _ rfl w₁ w₂ hleft hequals hvalue
    obtain ⟨rfl, hname⟩ := variableOnly use hleft rfl
    simpa using Derives.assignVariable hname hequals hvalue
  | property object name =>
    refine .pure fun w₁ w₂ hleft hequals hvalue => ?_
    obtain ⟨w, dot, rfl, hdot, hname, hobject⟩ := propertyLast object name hleft rfl
    simpa using Derives.assignProperty hobject hdot hname hequals hvalue
  | _ => exact Spans.report.bind fun _ => .pure fun w h => h

theorem atom?_spans : Spans atom? fun w o =>
    match o with
    | none => w = []
    | some e => Derives .primary w e := by
  refine Spans.takeIf?.bind fun o => ?_
  cases o with
  | none => exact .pure fun _ h => by simpa using h
  | some t =>
    obtain ⟨kind, lexeme, line⟩ := t
    dsimp only
    split
    · exact .pure fun _ ⟨_, h⟩ => by rw [h]; exact .literal rfl
    · exact .pure fun _ ⟨_, h⟩ => by rw [h]; exact .literal rfl
    · exact .pure fun _ ⟨_, h⟩ => by rw [h]; exact .literal rfl
    · exact .pure fun _ ⟨_, h⟩ => by rw [h]; exact .literal rfl
    · refine Spans.expect.bind fun dot => Spans.expectName.bind fun method =>
        Spans.freshId.bind fun id => .pure ?_
      rintro _ rfl _ ⟨hmethod, rfl⟩ _ ⟨hdot, rfl⟩ _ ⟨-, rfl⟩
      exact .super rfl hdot hmethod
    · refine Spans.freshId.bind fun id => .pure ?_
      rintro _ rfl _ ⟨-, rfl⟩
      exact .this rfl
    · refine Spans.freshId.bind fun id => .pure ?_
      rintro _ rfl _ ⟨-, rfl⟩
      exact .variable rfl
    · refine .pure ?_
      rintro _ ⟨h, rfl⟩
      refine @Derives.literal _ .nil ?_
      split at h <;> simp_all [literal?]

/-- The readers of expressions, at one amount of fuel. -/
structure ExpressionSpans (fuel : Nat) : Prop where
  expression : Spans (expression fuel) (Derives .expression)
  operation (level : Level) : Spans (operation fuel level) (Derives (.operand (some level)))
  operators (level : Level) (left : Expr) :
    Spans (operators fuel level left) (Derives (.operators level left))
  unary : Spans (unary fuel) (Derives (.operand none))
  accesses (object : Expr) : Spans (accesses fuel object) (Derives (.accesses object))
  arguments (count : Nat) : Spans (arguments fuel count) fun w values =>
    Derives .arguments w values ∧ count + values.length ≤ maxArity
  primary : Spans (primary fuel) (Derives .primary)

namespace ExpressionSpans

variable {fuel : Nat}

theorem operand (h : ExpressionSpans fuel) (level : Option Level) :
    Spans (Grammar.operand fuel level) (Derives (.operand level)) := by
  cases level with
  | none => exact h.unary
  | some level => exact h.operation level

theorem succ_expression (h : ExpressionSpans fuel) :
    Spans (Grammar.expression (fuel + 1)) (Derives .expression) := by
  unfold Grammar.expression
  refine (h.operation .disjunction).bind fun left => Spans.takeIf?.bind fun o => ?_
  cases o with
  | none =>
    refine .pure ?_
    rintro _ rfl w hleft
    simpa using Derives.loosest hleft
  | some equals =>
    refine h.expression.bind fun value => assignTo_spans.mono ?_
    rintro w₃ e he w₂ hvalue _ ⟨hequals, rfl⟩ w₁ hleft
    exact he w₁ w₂ hleft hequals hvalue

theorem succ_operation (h : ExpressionSpans fuel) (level : Level) :
    Spans (Grammar.operation (fuel + 1) level) (Derives (.operand (some level))) := by
  rw [operation_succ]
  exact (h.operand _).bind fun left => (h.operators level left).mono
    fun _ _ hrest _ hleft => Derives.operation hleft hrest

theorem succ_operators (h : ExpressionSpans fuel) (level : Level) (left : Expr) :
    Spans (Grammar.operators (fuel + 1) level left) (Derives (.operators level left)) := by
  rw [operators_succ]
  refine Spans.takeIf?.bind fun o => ?_
  cases o with
  | none =>
    refine .pure ?_
    rintro _ rfl
    exact .noOperator
  | some operator =>
    refine (h.operand _).bind fun right => (h.operators level _).mono ?_
    rintro w₂ e hrest w₁ hright _ ⟨hoperator, rfl⟩
    change Derives (.operators level left) (operator :: (w₁ ++ w₂)) e
    exact .operator hoperator hright hrest

theorem succ_unary (h : ExpressionSpans fuel) :
    Spans (Grammar.unary (fuel + 1)) (Derives (.operand none)) := by
  unfold Grammar.unary
  refine Spans.takeIf?.bind fun o => ?_
  cases o with
  | some operator =>
    refine h.unary.bind fun operand => .pure ?_
    rintro w hoperand _ ⟨hoperator, rfl⟩
    simpa using Derives.unary hoperator hoperand
  | none =>
    refine h.primary.bind fun callee => (h.accesses callee).mono ?_
    rintro w₂ e hrest w₁ hcallee _ rfl
    change Derives (.operand none) (w₁ ++ w₂) e
    exact .plain (.call hcallee hrest)

theorem succ_accesses (h : ExpressionSpans fuel) (object : Expr) :
    Spans (Grammar.accesses (fuel + 1) object) (Derives (.accesses object)) := by
  rw [accesses_succ]
  refine Spans.takeIf?.bind fun o => ?_
  cases o with
  | some left =>
    refine (h.arguments 0).listUnless.bind fun values => Spans.expect.bind fun right =>
      (h.accesses _).mono ?_
    rintro w₂ e hrest _ ⟨hright, rfl⟩ w₁ hvalues _ ⟨hleft, rfl⟩
    rcases hvalues with ⟨rfl, rfl⟩ | ⟨hvalues, harity⟩
    · exact .emptyCall hleft hright hrest
    · change Derives (.accesses object) (left :: (w₁ ++ right :: w₂)) e
      exact .fullCall hleft hvalues (by simpa using harity) hright hrest
  | none =>
    refine Spans.takeIf?.bind fun o => ?_
    cases o with
    | some dot =>
      refine Spans.expectName.bind fun name => (h.accesses _).mono ?_
      rintro w e hrest _ ⟨hname, rfl⟩ _ ⟨hdot, rfl⟩ _ rfl
      exact .property hdot hname hrest
    | none =>
      refine .pure ?_
      rintro _ rfl _ rfl
      exact .noAccess

theorem succ_arguments (h : ExpressionSpans fuel) (count : Nat) :
    Spans (Grammar.arguments (fuel + 1) count) fun w values =>
      Derives .arguments w values ∧ count + values.length ≤ maxArity := by
  rw [arguments_succ]
  refine Spans.noteCount.bind fun _ => h.expression.bind fun argument =>
    Spans.takeIf?.bind fun o => ?_
  cases o with
  | some comma =>
    refine (h.arguments (count + 1)).bind fun values => .pure ?_
    rintro w₂ ⟨hrest, harity⟩ _ ⟨hcomma, rfl⟩ w₁ hargument _ ⟨rfl, -⟩
    refine ⟨by simpa using Derives.argument hargument hcomma hrest, ?_⟩
    rw [List.length_cons]
    omega
  | none =>
    refine .pure ?_
    rintro _ rfl w hargument _ ⟨rfl, hcount⟩
    exact ⟨by simpa using Derives.lastArgument hargument, hcount⟩

theorem succ_primary (h : ExpressionSpans fuel) :
    Spans (Grammar.primary (fuel + 1)) (Derives .primary) := by
  unfold Grammar.primary
  refine atom?_spans.bind fun o => ?_
  cases o with
  | some e => exact .pure fun w h => by simpa using h
  | none =>
    refine Spans.takeIf?.bind fun o => ?_
    cases o with
    | some left =>
      refine h.expression.bind fun inner => Spans.expect.bind fun right => .pure ?_
      rintro _ ⟨hright, rfl⟩ w hinner _ ⟨hleft, rfl⟩ _ rfl
      simpa using Derives.group hleft hinner hright
    | none => exact Spans.fail

end ExpressionSpans

theorem expressionSpans (fuel : Nat) : ExpressionSpans fuel := by
  induction fuel with
  | zero =>
    refine ⟨?_, fun _ => ?_, fun _ _ => ?_, ?_, fun _ => ?_, fun _ => ?_, ?_⟩
    · unfold expression; exact .throw
    · unfold operation; exact .throw
    · unfold operators; exact .throw
    · unfold unary; exact .throw
    · unfold accesses; exact .throw
    · unfold arguments; exact .throw
    · unfold primary; exact .throw
  | succ fuel ih =>
    exact ⟨ih.succ_expression, ih.succ_operation, ih.succ_operators, ih.succ_unary,
      ih.succ_accesses, ih.succ_arguments, ih.succ_primary⟩

theorem expression_spans (fuel : Nat) : Spans (expression fuel) (Derives .expression) :=
  (expressionSpans fuel).expression

theorem optionalExpression_spans (fuel : Nat) (s : Symbol) :
    Spans (optionalUnless s (expression fuel)) OptionalExpression :=
  (expression_spans fuel).optionalUnless.mono fun w o h => by
    cases o with
    | none => exact h ▸ .none
    | some e => exact .some h

end Treewalk.Grammar
