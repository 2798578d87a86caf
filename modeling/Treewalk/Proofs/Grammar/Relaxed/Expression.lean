import Treewalk.Proofs.Grammar.Completeness.Lookahead
import Treewalk.Proofs.Grammar.Completeness.Noting
import Treewalk.Proofs.Grammar.Relaxed.Phrase
import Treewalk.Proofs.Tree.Relabel

/-!
# Every relaxed expression is read

The reader of a phrase takes the tokens of any phrase of its kind, gives the tree of that phrase up
to its node numbers, and notes down the faults in it. The proof is an induction on the phrase.
Readers of repetitions take as many parts as they find, so what stands behind a phrase must not
extend it.

## Main definitions

* `Relaxed.ExprPhrase.Complete` — what the reader of a phrase does with its tokens

## Main results

* `Relaxed.expression_complete` — every phrase of an expression is read
* `Relaxed.expression_notes` — the same for expressions

## Implementation notes

Sixteen units of fuel for every token are enough: between two tokens taken, an expression goes down
through the six levels, the unary operators and a primary expression.
-/

namespace Treewalk.Grammar

variable {w r : List Token}

/-! ### Single tokens -/

theorem atom?_literal {t : Token} {value : Literal} (h : literal? t.kind = some value) :
    Accepts atom? [t] r fun o => ∃ e, o = some e ∧ e = .literal value := by
  obtain ⟨kind, lexeme, line⟩ := t
  refine (Accepts.takeIf?_some ?_).bind_cons fun o ho => ?_
  · cases kind with
    | keyword k => cases k <;> simp_all [literal?]
    | _ => simp_all [literal?]
  · subst ho
    cases kind with
    | keyword k => cases k <;> first | cases h; exact .pure ⟨_, rfl, rfl⟩ | cases h
    | number | string => cases h; exact .pure ⟨_, rfl, rfl⟩
    | _ => cases h

theorem atom?_this {t : Token} (h : t.isKeyword .this) :
    Accepts atom? [t] r fun o => ∃ e, o = some e ∧ ∃ id, e = .this ⟨id, t⟩ := by
  obtain ⟨kind, lexeme, line⟩ := t
  obtain rfl : kind = .keyword .this := by simpa [Token.isKeyword] using h
  refine (Accepts.takeIf?_some rfl).bind_cons fun o ho => ?_
  subst ho
  exact Accepts.freshId.bind_nil fun id _ => .pure ⟨_, rfl, id, rfl⟩

theorem atom?_identifier {t : Token} (h : t.isIdentifier) :
    Accepts atom? [t] r fun o => ∃ e, o = some e ∧ ∃ id, e = .variable ⟨id, t⟩ := by
  obtain ⟨kind, lexeme, line⟩ := t
  obtain rfl : kind = .identifier := by simpa [Token.isIdentifier] using h
  refine (Accepts.takeIf?_some rfl).bind_cons fun o ho => ?_
  subst ho
  exact Accepts.freshId.bind_nil fun id _ => .pure ⟨_, rfl, id, rfl⟩

theorem atom?_super {t dot method : Token} (h : t.isKeyword .super) (hdot : dot.isSymbol .dot)
    (hmethod : method.isIdentifier) :
    Accepts atom? [t, dot, method] r fun o =>
      ∃ e, o = some e ∧ ∃ id, e = .super ⟨id, t⟩ method := by
  obtain ⟨kind, lexeme, line⟩ := t
  obtain rfl : kind = .keyword .super := by simpa [Token.isKeyword] using h
  refine (Accepts.takeIf?_some rfl).bind_cons fun o ho => ?_
  subst ho
  refine (Accepts.expect hdot).bind_cons fun _ _ => (Accepts.expectName hmethod).bind_cons ?_
  rintro _ rfl
  exact Accepts.freshId.bind_nil fun id _ => .pure ⟨_, rfl, id, rfl⟩

theorem atom?_none {t : Token} (h : t.isSymbol .leftParen) :
    Accepts atom? [] (t :: r) (· = none) := by
  refine (Accepts.takeIf?_none_cons ?_).bind_nil fun o ho => ?_
  · simp only [Token.isSymbol, decide_eq_true_eq] at h
    rw [h]
  · subst ho
    exact .pure rfl

theorem primary_of_atom? {fuel : Nat} {P : Expr → Prop} (hfuel : 0 < fuel)
    (h : Accepts atom? w r fun o => ∃ a, o = some a ∧ P a) : Accepts (primary fuel) w r P := by
  obtain ⟨fuel, rfl⟩ := Nat.exists_eq_succ_of_ne_zero hfuel.ne'
  unfold primary
  rw [← List.append_nil w]
  refine Accepts.bind h fun o ho => ?_
  obtain ⟨a, rfl, ha⟩ := ho
  exact .pure ha

/-! ### Behind an expression -/

theorem operators_none {fuel : Nat} {level : Level} {left : Expr} (hfuel : 0 < fuel)
    (hr : Ends level.rank r) : Accepts (operators fuel level left) [] r (· = left) := by
  obtain ⟨fuel, rfl⟩ := Nat.exists_eq_succ_of_ne_zero hfuel.ne'
  rw [operators_succ]
  refine (Accepts.takeIf?_none (hr.holds_eq_false le_rfl)).bind_nil fun o ho => ?_
  subst ho
  exact .pure rfl

theorem accesses_none {fuel : Nat} {object : Expr} (hfuel : 0 < fuel) (hr : Ends 8 r) :
    Accepts (accesses fuel object) [] r (· = object) := by
  obtain ⟨fuel, rfl⟩ := Nat.exists_eq_succ_of_ne_zero hfuel.ne'
  rw [accesses_succ]
  refine (Accepts.takeIf?_none (hr.isSymbol_eq_false le_rfl)).bind_nil fun o ho => ?_
  subst ho
  refine (Accepts.takeIf?_none (hr.isSymbol_eq_false le_rfl)).bind_nil fun o ho => ?_
  subst ho
  exact .pure rfl

/-! ### Targets -/

theorem isTarget_relabel (f : Relabeling) (e : Expr) : (e.relabel f).isTarget = e.isTarget := by
  cases e <;> rfl

/-- What is no target stays as it is. -/
theorem assignTo_notes {equals : Token} {value left : Expr} (h : left.isTarget = false) :
    Notes (assignTo equals value left) [] r {.grammar equals .invalidAssignmentTarget}
      (· = left) := by
  have hreport : assignTo equals value left =
      (do report equals .invalidAssignmentTarget; return left) := by
    cases left <;> first | rfl | cases h
  rw [hreport]
  exact (Notes.report rfl).bind_pure fun _ _ => rfl

/-! ### Too many of something -/

theorem excess_nil (count : Nat) (cause : GrammarFault) : excess count cause [] = 0 := by
  rw [excess, List.drop_nil]
  rfl

/-- The first one is beyond the limit if enough stand before it. -/
theorem excess_cons (count : Nat) (cause : GrammarFault) (t : Token) (rest : List Token) :
    excess count cause (t :: rest) =
      (if maxArity ≤ count then {.grammar t cause} else 0) + excess (count + 1) cause rest := by
  by_cases h : maxArity ≤ count
  · rw [if_pos h, excess, excess, Nat.sub_eq_zero_of_le h,
      Nat.sub_eq_zero_of_le (h.trans (Nat.le_succ count)), List.drop_zero, List.drop_zero,
      ← Multiset.cons_coe, Multiset.map_cons, Multiset.singleton_add]
  · have hsub : maxArity - count = maxArity - (count + 1) + 1 := by omega
    rw [if_neg h, zero_add, excess, excess, hsub, List.drop_succ_cons]

namespace Relaxed

/-! ### In front of a phrase -/

/-- What the first token of a phrase is. The phrases behind another one may be empty. -/
def ExprPhrase.StartsWith : ExprPhrase → Token → Prop
  | primary, t => startsPrimary t
  | expression, t | operand _, t | arguments, t => startsExpression t
  | operators .., _ | accesses _, _ => True

/-- Whether a phrase may be empty. -/
def ExprPhrase.IsTail : ExprPhrase → Prop
  | operators .. | accesses _ => True
  | _ => False

theorem ExprDerives.exists_head {p : ExprPhrase} {e : p.Tree} {F : Multiset Diagnostic}
    (h : ExprDerives p w e F) (hp : ¬ p.IsTail) : ∃ t w', w = t :: w' ∧ p.StartsWith t := by
  induction h with
  | assignVariable hleft hequals hvalue ih | assignProperty hleft hequals hvalue ih
  | assignOther hleft htarget hequals hvalue ih | operation hleft hrest ih =>
    obtain ⟨t, w', rfl, ht⟩ := ih id
    exact ⟨t, _, rfl, ht⟩
  | loosest h ih => exact ih id
  | noOperator | operator | noAccess | emptyCall | fullCall | property => exact absurd trivial hp
  | unary hoperator =>
    exact ⟨_, _, rfl, by simp [ExprPhrase.StartsWith, startsExpression, hoperator]⟩
  | call hcallee hrest ih =>
    obtain ⟨t, w', rfl, ht⟩ := ih id
    exact ⟨t, _, rfl, by
      simp only [ExprPhrase.StartsWith] at ht
      simp [ExprPhrase.StartsWith, startsExpression, ht]⟩
  | lastArgument h ih => exact ih id
  | argument h hcomma hrest ih =>
    obtain ⟨t, w', heq, ht⟩ := ih id
    obtain ⟨rfl, rfl⟩ := List.cons.inj heq
    exact ⟨_, _, rfl, ht⟩
  | literal h => exact ⟨_, _, rfl, startsPrimary_of_literal h⟩
  | this h => exact ⟨_, _, rfl, of_isKeyword (p := startsPrimary) (fun _ => rfl) h rfl⟩
  | «variable» h => exact ⟨_, _, rfl, of_isIdentifier (p := startsPrimary) (fun _ => rfl) h rfl⟩
  | super h => exact ⟨_, _, rfl, of_isKeyword (p := startsPrimary) (fun _ => rfl) h rfl⟩
  | group hleft => exact ⟨_, _, rfl, of_isSymbol (p := startsPrimary) (fun _ => rfl) hleft rfl⟩

theorem ExprDerives.length_pos {p : ExprPhrase} {e : p.Tree} {F : Multiset Diagnostic}
    (h : ExprDerives p w e F) (hp : ¬ p.IsTail) : 0 < w.length := by
  obtain ⟨t, w', rfl, -⟩ := h.exists_head hp
  exact Nat.succ_pos _

theorem ExprDerives.ends_operators {level : Level} {left e : Expr} {F : Multiset Diagnostic}
    (h : ExprDerives (.operators level left) w e F) (hr : Ends level.rank r) :
    Ends (level.rank + 1) (w ++ r) := by
  cases h with
  | noOperator => exact hr.mono (Nat.le_succ _)
  | operator hoperator hright hrest =>
    exact .cons (by rw [(holds_iff_reach _ _).1 hoperator]; exact Nat.lt_succ_self _)

/-! ### Phrases -/

/-- What the reader of a phrase does with its tokens. -/
def ExprPhrase.Complete :
    (p : ExprPhrase) → List Token → p.Tree → Multiset Diagnostic → Prop
  | expression, w, e, F => ∀ fuel r, 16 * w.length + 10 ≤ fuel → Ends 1 r →
    Notes (Grammar.expression fuel) w r F fun a => a.eraseIds = e.eraseIds
  | operand level, w, e, F => ∀ fuel r, 16 * w.length + 11 ≤ fuel + operandRank level →
    Ends (operandRank level) r →
    Notes (Grammar.operand fuel level) w r F fun a => a.eraseIds = e.eraseIds
  | operators level left, w, e, F => ∀ fuel r left', 16 * w.length + 1 ≤ fuel →
    Ends level.rank r → left'.eraseIds = left.eraseIds →
    Notes (Grammar.operators fuel level left') w r F fun a => a.eraseIds = e.eraseIds
  | accesses object, w, e, F => ∀ fuel r object', 16 * w.length + 1 ≤ fuel → Ends 8 r →
    object'.eraseIds = object.eraseIds →
    Notes (Grammar.accesses fuel object') w r F fun a => a.eraseIds = e.eraseIds
  | arguments, w, values, F => ∀ fuel count r, 16 * w.length + 11 ≤ fuel → Ends 1 r →
    (∀ t ∈ r.head?, t.isSymbol .comma = false) →
    Notes (Grammar.arguments fuel count) w r
      (F + excess count .tooManyArguments (values.map Prod.fst)) fun as =>
        as.map Expr.eraseIds = values.map (·.2.eraseIds)
  | primary, w, e, F => ∀ fuel r, 16 * w.length + 1 ≤ fuel →
    Notes (Grammar.primary fuel) w r F fun a => a.eraseIds = e.eraseIds

namespace Complete

variable {F F₁ F₂ : Multiset Diagnostic}

/-- An assignment, in terms of what becomes of what is read to the left of the equals sign. -/
theorem assignment {equals : Token} {w₁ w₂ : List Token} {left value : Expr}
    {F₃ : Multiset Diagnostic} {Q : Expr → Prop} {fuel : Nat}
    (ihleft : ExprPhrase.Complete (.operand (some .disjunction)) w₁ left F₁)
    (hequals : equals.isSymbol .equal) (ihvalue : ExprPhrase.Complete .expression w₂ value F₂)
    (hassign : ∀ left' value', left'.eraseIds = left.eraseIds → value'.eraseIds = value.eraseIds →
      Notes (assignTo equals value' left') [] r F₃ Q)
    (hfuel : 16 * (w₁ ++ equals :: w₂).length + 10 ≤ fuel) (hr : Ends 1 r) :
    Notes (Grammar.expression fuel) (w₁ ++ equals :: w₂) r (F₁ + F₂ + F₃) Q := by
  rw [List.length_append, List.length_cons] at hfuel
  obtain ⟨fuel, rfl⟩ := Nat.exists_eq_succ_of_ne_zero (n := fuel) (by omega)
  have hends : Ends 2 (equals :: w₂ ++ r) := .cons (by rw [reach_of_isSymbol hequals]; decide)
  unfold Grammar.expression
  rw [add_assoc]
  refine (ihleft fuel _ ?_ hends).bind fun left' hleft => ?_
  · change _ ≤ fuel + 2
    omega
  · refine (Accepts.takeIf?_some hequals).bind_cons_notes fun o ho => ?_
    subst ho
    rw [← List.append_nil w₂]
    exact (ihvalue fuel r (by omega) hr).bind fun value' => hassign left' value' hleft

theorem assignVariable {equals : Token} {use : Use} {id : NodeId} {w₁ w₂ : List Token}
    {value : Expr}
    (ihleft : ExprPhrase.Complete (.operand (some .disjunction)) w₁ (.variable use) F₁)
    (hequals : equals.isSymbol .equal) (ihvalue : ExprPhrase.Complete .expression w₂ value F₂) :
    ExprPhrase.Complete .expression (w₁ ++ equals :: w₂) (.assign ⟨id, use.token⟩ value)
      (F₁ + F₂) := by
  intro fuel r hfuel hr
  rw [← add_zero (F₁ + F₂)]
  refine assignment ihleft hequals ihvalue (fun left' value' hleft hvalue => ?_) hfuel hr
  cases left' with
  | «variable» use' =>
    have htoken : use'.token = use.token := by
      simpa [Expr.eraseIds, Expr.relabel, Use.relabel, Relabeling.eraseIds] using hleft
    exact Notes.bind_pure (Accepts.freshId.notes) fun id _ => by
      simp_all [Expr.eraseIds, Expr.relabel, Use.relabel, Relabeling.eraseIds]
  | _ => simp [Expr.eraseIds, Expr.relabel] at hleft

theorem assignProperty {name equals : Token} {w₁ w₂ : List Token} {object value : Expr}
    (ihleft : ExprPhrase.Complete (.operand (some .disjunction)) w₁ (.property object name) F₁)
    (hequals : equals.isSymbol .equal) (ihvalue : ExprPhrase.Complete .expression w₂ value F₂) :
    ExprPhrase.Complete .expression (w₁ ++ equals :: w₂) (.setProperty object name value)
      (F₁ + F₂) := by
  intro fuel r hfuel hr
  rw [← add_zero (F₁ + F₂)]
  refine assignment ihleft hequals ihvalue (fun left' value' hleft hvalue => ?_) hfuel hr
  cases left' with
  | property object' name' => exact .pure (by simp_all [Expr.eraseIds, Expr.relabel])
  | _ => simp [Expr.eraseIds, Expr.relabel] at hleft

theorem assignOther {equals : Token} {w₁ w₂ : List Token} {left value : Expr}
    (ihleft : ExprPhrase.Complete (.operand (some .disjunction)) w₁ left F₁)
    (htarget : left.isTarget = false) (hequals : equals.isSymbol .equal)
    (ihvalue : ExprPhrase.Complete .expression w₂ value F₂) :
    ExprPhrase.Complete .expression (w₁ ++ equals :: w₂) left
      (F₁ + F₂ + {.grammar equals .invalidAssignmentTarget}) := by
  intro fuel r hfuel hr
  refine assignment ihleft hequals ihvalue (fun left' value' hleft hvalue => ?_) hfuel hr
  have htarget' : left'.isTarget = false := by
    rw [← isTarget_relabel .eraseIds]
    change left'.eraseIds.isTarget = false
    rw [hleft]
    exact (isTarget_relabel _ _).trans htarget
  exact (assignTo_notes htarget').mono fun a ha => ha ▸ hleft

theorem loosest {e : Expr} (ih : ExprPhrase.Complete (.operand (some .disjunction)) w e F) :
    ExprPhrase.Complete .expression w e F := by
  intro fuel r hfuel hr
  obtain ⟨fuel, rfl⟩ := Nat.exists_eq_succ_of_ne_zero (n := fuel) (by omega)
  unfold Grammar.expression
  rw [← List.append_nil w]
  refine (ih fuel _ ?_ (hr.mono (by decide))).bind_accepts fun a ha => ?_
  · change _ ≤ fuel + 2
    omega
  · refine (Accepts.takeIf?_none (hr.isSymbol_eq_false le_rfl)).bind_nil fun o ho => ?_
    subst ho
    exact .pure ha

theorem operation {level : Level} {w₁ w₂ : List Token} {left e : Expr}
    (hleft : ExprDerives (.operand level.tighter?) w₁ left F₁)
    (hrest : ExprDerives (.operators level left) w₂ e F₂)
    (ihleft : ExprPhrase.Complete (.operand level.tighter?) w₁ left F₁)
    (ihrest : ExprPhrase.Complete (.operators level left) w₂ e F₂) :
    ExprPhrase.Complete (.operand (some level)) (w₁ ++ w₂) e (F₁ + F₂) := by
  intro fuel r hfuel hr
  have hpos := hleft.length_pos id
  have hrank := operandRank_tighter? level
  have hle := operandRank_le level.tighter?
  rw [List.length_append] at hfuel
  obtain ⟨fuel, rfl⟩ := Nat.exists_eq_succ_of_ne_zero (n := fuel) (by omega)
  rw [Grammar.operand, operation_succ]
  refine (ihleft fuel _ (by omega) ?_).bind fun a ha => ihrest fuel r a (by omega) hr ha
  rw [hrank]
  exact hrest.ends_operators hr

theorem noOperator {level : Level} {left : Expr} :
    ExprPhrase.Complete (.operators level left) [] left 0 :=
  fun fuel r left' hfuel hr hleft =>
    ((operators_none (by omega) hr).mono fun a ha => ha ▸ hleft).notes

theorem operator {level : Level} {operator : Token} {w₁ w₂ : List Token} {left right e : Expr}
    (hoperator : level.holds operator)
    (hrest : ExprDerives (.operators level (level.combine left operator right)) w₂ e F₂)
    (ihright : ExprPhrase.Complete (.operand level.tighter?) w₁ right F₁)
    (ihrest : ExprPhrase.Complete (.operators level (level.combine left operator right)) w₂ e F₂) :
    ExprPhrase.Complete (.operators level left) (operator :: (w₁ ++ w₂)) e (F₁ + F₂) := by
  intro fuel r left' hfuel hr hleft
  have hrank := operandRank_tighter? level
  have htwo := two_le_operandRank (some level)
  rw [List.length_cons, List.length_append] at hfuel
  obtain ⟨fuel, rfl⟩ := Nat.exists_eq_succ_of_ne_zero (n := fuel) (by omega)
  rw [operators_succ]
  refine (Accepts.takeIf?_some hoperator).bind_cons_notes fun o ho => ?_
  subst ho
  refine (ihright fuel _ (by omega) ?_).bind fun a ha => ihrest fuel r _ (by omega) hr ?_
  · rw [hrank]
    exact hrest.ends_operators hr
  · simp only [Expr.eraseIds, Level.relabel_combine] at hleft ha ⊢
    rw [hleft, ha]

theorem unary {operator : Token} {operand : Expr} (hoperator : isUnaryOperator operator)
    (ih : ExprPhrase.Complete (.operand none) w operand F) :
    ExprPhrase.Complete (.operand none) (operator :: w) (.unary operator operand) F := by
  intro fuel r hfuel hr
  change _ ≤ fuel + 8 at hfuel
  rw [List.length_cons] at hfuel
  obtain ⟨fuel, rfl⟩ := Nat.exists_eq_succ_of_ne_zero (n := fuel) (by omega)
  unfold Grammar.operand Grammar.unary
  refine (Accepts.takeIf?_some hoperator).bind_cons_notes fun o ho => ?_
  subst ho
  refine (ih fuel r ?_ hr).bind_pure fun a ha => ?_
  · change _ ≤ fuel + 8
    omega
  · simp_all [Expr.eraseIds, Expr.relabel]

theorem call {w₁ w₂ : List Token} {callee e : Expr} (hcallee : ExprDerives .primary w₁ callee F₁)
    (ihcallee : ExprPhrase.Complete .primary w₁ callee F₁)
    (ihrest : ExprPhrase.Complete (.accesses callee) w₂ e F₂) :
    ExprPhrase.Complete (.operand none) (w₁ ++ w₂) e (F₁ + F₂) := by
  intro fuel r hfuel hr
  obtain ⟨t, w₁, rfl, ht⟩ := hcallee.exists_head id
  change _ ≤ fuel + 8 at hfuel
  rw [List.length_append, List.length_cons] at hfuel
  obtain ⟨fuel, rfl⟩ := Nat.exists_eq_succ_of_ne_zero (n := fuel) (by omega)
  unfold Grammar.operand Grammar.unary
  refine (Accepts.takeIf?_none_cons (isUnaryOperator_eq_false ht)).bind_nil_notes fun o ho => ?_
  subst ho
  refine (ihcallee fuel _ ?_).bind fun a ha => ihrest fuel r a (by omega) hr ha
  rw [List.length_cons]
  omega

theorem noAccess {object : Expr} : ExprPhrase.Complete (.accesses object) [] object 0 :=
  fun fuel r object' hfuel hr hobject =>
    ((accesses_none (by omega) hr).mono fun a ha => ha ▸ hobject).notes

theorem property {dot name : Token} {object e : Expr} (hdot : dot.isSymbol .dot)
    (hname : name.isIdentifier)
    (ih : ExprPhrase.Complete (.accesses (.property object name)) w e F) :
    ExprPhrase.Complete (.accesses object) (dot :: name :: w) e F := by
  intro fuel r object' hfuel hr hobject
  rw [List.length_cons, List.length_cons] at hfuel
  obtain ⟨fuel, rfl⟩ := Nat.exists_eq_succ_of_ne_zero (n := fuel) (by omega)
  rw [accesses_succ]
  refine (Accepts.takeIf?_none_cons ?_).bind_nil_notes fun o ho => ?_
  · exact isSymbol_eq_false (p := (·.isSymbol .dot)) (fun _ => rfl) hdot rfl
  · subst ho
    refine (Accepts.takeIf?_some hdot).bind_cons_notes fun o ho => ?_
    subst ho
    refine (Accepts.expectName hname).bind_cons_notes fun a ha => ?_
    subst ha
    exact ih fuel r _ (by omega) hr (by simp_all [Expr.eraseIds, Expr.relabel])

/-- A call, in terms of what is read between the parentheses. -/
theorem accesses_call {left right : Token} {w₂ : List Token} {object e : Expr}
    {values : List Expr} {fuel : Nat} {object' : Expr} (w₁ : List Token)
    (hleft : left.isSymbol .leftParen)
    (hvalues : Notes (listUnless .rightParen (Grammar.arguments fuel 0)) w₁ (right :: w₂ ++ r) F₁
      fun as => as.map Expr.eraseIds = values.map Expr.eraseIds)
    (hright : right.isSymbol .rightParen)
    (ih : ExprPhrase.Complete (.accesses (.call object right values)) w₂ e F₂)
    (hfuel : 16 * w₂.length + 1 ≤ fuel) (hr : Ends 8 r)
    (hobject : object'.eraseIds = object.eraseIds) :
    Notes (Grammar.accesses (fuel + 1) object') (left :: (w₁ ++ right :: w₂)) r (F₁ + F₂) fun a =>
      a.eraseIds = e.eraseIds := by
  rw [accesses_succ]
  refine (Accepts.takeIf?_some hleft).bind_cons_notes fun o ho => ?_
  subst ho
  refine hvalues.bind fun as has => (Accepts.expect hright).bind_cons_notes ?_
  rintro _ rfl
  refine ih fuel r _ hfuel hr ?_
  simp only [Expr.eraseIds, Expr.relabel, Expr.relabelAll_eq_map] at hobject has ⊢
  rw [hobject]
  exact congrArg (Expr.call _ _) has

theorem emptyCall {left right : Token} {object e : Expr} (hleft : left.isSymbol .leftParen)
    (hright : right.isSymbol .rightParen)
    (ih : ExprPhrase.Complete (.accesses (.call object right [])) w e F) :
    ExprPhrase.Complete (.accesses object) (left :: right :: w) e F := by
  intro fuel r object' hfuel hr hobject
  rw [List.length_cons, List.length_cons] at hfuel
  obtain ⟨fuel, rfl⟩ := Nat.exists_eq_succ_of_ne_zero (n := fuel) (by omega)
  rw [← zero_add F]
  refine accesses_call [] hleft ?_ hright ih (by omega) hr hobject
  exact ((Accepts.listUnless_nil hright rfl).mono fun as has => has ▸ rfl).notes

theorem fullCall {left right : Token} {w₁ w₂ : List Token} {object e : Expr}
    {values : List (Token × Expr)} (hleft : left.isSymbol .leftParen)
    (hvalues : ExprDerives .arguments w₁ values F₁) (hright : right.isSymbol .rightParen)
    (ihvalues : ExprPhrase.Complete .arguments w₁ values F₁)
    (ih : ExprPhrase.Complete (.accesses (.call object right (values.map Prod.snd))) w₂ e F₂) :
    ExprPhrase.Complete (.accesses object) (left :: (w₁ ++ right :: w₂)) e
      (F₁ + excess 0 .tooManyArguments (values.map Prod.fst) + F₂) := by
  intro fuel r object' hfuel hr hobject
  rw [List.length_cons, List.length_append, List.length_cons] at hfuel
  obtain ⟨fuel, rfl⟩ := Nat.exists_eq_succ_of_ne_zero (n := fuel) (by omega)
  have hends : Ends 1 (right :: w₂ ++ r) := .cons (by rw [reach_of_isSymbol hright]; decide)
  have hread := ihvalues fuel 0 (right :: w₂ ++ r) (by omega) hends fun t ht => by
    obtain rfl : right = t := by simpa using ht
    exact isSymbol_eq_false (p := (·.isSymbol .rightParen)) (fun _ => rfl) hright rfl
  refine accesses_call _ hleft ((Notes.listUnless_of ?_ hread).mono fun as has => ?_) hright ih
    (by omega) hr hobject
  · obtain ⟨t, w, rfl, ht⟩ := hvalues.exists_head id
    simpa using isSymbol_eq_false (p := startsExpression) (fun _ => rfl) ht rfl
  · rw [has, List.map_map]
    rfl

theorem lastArgument {t : Token} {e : Expr} (ih : ExprPhrase.Complete .expression (t :: w) e F) :
    ExprPhrase.Complete .arguments (t :: w) [(t, e)] F := by
  intro fuel count r hfuel hr hcomma
  obtain ⟨fuel, rfl⟩ := Nat.exists_eq_succ_of_ne_zero (n := fuel) (by omega)
  rw [arguments_succ, List.map_singleton, excess_cons, excess_nil, add_zero, add_comm F]
  refine (Notes.noteCount rfl).bind_nil fun _ _ => ?_
  rw [← List.append_nil (t :: w)]
  refine (ih fuel r (by omega) hr).bind_accepts fun a ha => ?_
  refine (Accepts.takeIf?_none hcomma).bind_nil fun o ho => ?_
  subst ho
  exact .pure (by simpa using ha)

theorem argument {t comma : Token} {w₁ w₂ : List Token} {e : Expr} {values : List (Token × Expr)}
    (hcomma : comma.isSymbol .comma) (ih : ExprPhrase.Complete .expression (t :: w₁) e F₁)
    (ihrest : ExprPhrase.Complete .arguments w₂ values F₂) :
    ExprPhrase.Complete .arguments (t :: w₁ ++ comma :: w₂) ((t, e) :: values) (F₁ + F₂) := by
  intro fuel count r hfuel hr hnext
  simp only [List.length_append, List.length_cons] at hfuel
  obtain ⟨fuel, rfl⟩ := Nat.exists_eq_succ_of_ne_zero (n := fuel) (by omega)
  have hends : Ends 1 (comma :: w₂ ++ r) := .cons (by rw [reach_of_isSymbol hcomma]; decide)
  have hfaults (G H : Multiset Diagnostic) : F₁ + F₂ + (G + H) = G + (F₁ + (F₂ + H)) := by
    rw [add_left_comm, add_assoc]
  rw [arguments_succ, List.map_cons, excess_cons, hfaults]
  refine (Notes.noteCount rfl).bind_nil fun _ _ => ?_
  refine (ih fuel _ (by rw [List.length_cons]; omega) hends).bind fun a ha => ?_
  refine (Accepts.takeIf?_some hcomma).bind_cons_notes fun o ho => ?_
  subst ho
  refine (ihrest fuel (count + 1) r (by omega) hr hnext).bind_pure fun as has => ?_
  rw [List.map_cons, List.map_cons, ha, has]

theorem literal {t : Token} {value : Literal} (h : literal? t.kind = some value) :
    ExprPhrase.Complete .primary [t] (.literal value) 0 :=
  fun fuel r hfuel => (primary_of_atom? (by omega) ((atom?_literal h).mono
    fun o ⟨e, ho, he⟩ => ⟨e, ho, he ▸ rfl⟩)).notes

theorem this {t : Token} {id : NodeId} (h : t.isKeyword .this) :
    ExprPhrase.Complete .primary [t] (.this ⟨id, t⟩) 0 :=
  fun fuel r hfuel => (primary_of_atom? (by omega) ((atom?_this h).mono
    fun o ⟨e, ho, _, he⟩ => ⟨e, ho, he ▸ rfl⟩)).notes

theorem identifier {t : Token} {id : NodeId} (h : t.isIdentifier) :
    ExprPhrase.Complete .primary [t] (.variable ⟨id, t⟩) 0 :=
  fun fuel r hfuel => (primary_of_atom? (by omega) ((atom?_identifier h).mono
    fun o ⟨e, ho, _, he⟩ => ⟨e, ho, he ▸ rfl⟩)).notes

theorem super {t dot method : Token} {id : NodeId} (h : t.isKeyword .super)
    (hdot : dot.isSymbol .dot) (hmethod : method.isIdentifier) :
    ExprPhrase.Complete .primary [t, dot, method] (.super ⟨id, t⟩ method) 0 :=
  fun fuel r hfuel => (primary_of_atom? (by omega) ((atom?_super h hdot hmethod).mono
    fun o ⟨e, ho, _, he⟩ => ⟨e, ho, he ▸ rfl⟩)).notes

theorem group {left right : Token} {inner : Expr} (hleft : left.isSymbol .leftParen)
    (hright : right.isSymbol .rightParen) (ih : ExprPhrase.Complete .expression w inner F) :
    ExprPhrase.Complete .primary (left :: (w ++ [right])) (.group inner) F := by
  intro fuel r hfuel
  rw [List.length_cons, List.length_append, List.length_singleton] at hfuel
  obtain ⟨fuel, rfl⟩ := Nat.exists_eq_succ_of_ne_zero (n := fuel) (by omega)
  have hends : Ends 1 ([right] ++ r) := .cons (by rw [reach_of_isSymbol hright]; decide)
  unfold Grammar.primary
  refine (atom?_none hleft).bind_nil_notes fun o ho => ?_
  subst ho
  refine (Accepts.takeIf?_some hleft).bind_cons_notes fun o ho => ?_
  subst ho
  refine (ih fuel _ (by omega) hends).bind_accepts fun a ha => (Accepts.expect hright).bind_pure ?_
  rintro _ rfl
  simp_all [Expr.eraseIds, Expr.relabel]

end Complete

/-- The reader of a phrase takes any phrase of its kind, gives its tree up to node numbers, and
notes down the faults in it. -/
theorem expression_complete {p : ExprPhrase} {e : p.Tree} {F : Multiset Diagnostic}
    (h : ExprDerives p w e F) : p.Complete w e F := by
  induction h with
  | assignVariable hleft hequals hvalue ihleft ihvalue =>
    exact Complete.assignVariable ihleft hequals ihvalue
  | assignProperty hleft hequals hvalue ihleft ihvalue =>
    exact Complete.assignProperty ihleft hequals ihvalue
  | assignOther hleft htarget hequals hvalue ihleft ihvalue =>
    exact Complete.assignOther ihleft htarget hequals ihvalue
  | loosest h ih => exact Complete.loosest ih
  | operation hleft hrest ihleft ihrest => exact Complete.operation hleft hrest ihleft ihrest
  | noOperator => exact Complete.noOperator
  | operator hoperator hright hrest ihright ihrest =>
    exact Complete.operator hoperator hrest ihright ihrest
  | unary hoperator hoperand ih => exact Complete.unary hoperator ih
  | call hcallee hrest ihcallee ihrest => exact Complete.call hcallee ihcallee ihrest
  | noAccess => exact Complete.noAccess
  | emptyCall hleft hright hrest ih => exact Complete.emptyCall hleft hright ih
  | fullCall hleft hvalues hright hrest ihvalues ih =>
    exact Complete.fullCall hleft hvalues hright ihvalues ih
  | property hdot hname hrest ih => exact Complete.property hdot hname ih
  | lastArgument h ih => exact Complete.lastArgument ih
  | argument h hcomma hrest ih ihrest => exact Complete.argument hcomma ih ihrest
  | literal h => exact Complete.literal h
  | this h => exact Complete.this h
  | «variable» h => exact Complete.identifier h
  | group hleft hinner hright ih => exact Complete.group hleft hright ih
  | super h hdot hmethod => exact Complete.super h hdot hmethod

theorem expression_notes {fuel : Nat} {e : Expr} {F : Multiset Diagnostic}
    (h : ExprDerives .expression w e F) (hfuel : 16 * w.length + 10 ≤ fuel) (hr : Ends 1 r) :
    Notes (expression fuel) w r F fun a => a.eraseIds = e.eraseIds :=
  expression_complete h fuel r hfuel hr

end Relaxed

end Treewalk.Grammar
