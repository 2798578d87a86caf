import Mathlib
import Treewalk.Proofs.Grammar.Lines

/-!
# Loops written out

A loop `for ( I C ; N ) B` is short for `{ I while ( C ) { B N ; } }`, without the braces that are
not needed. In the tree it makes no difference which of them stands in the text. Nothing around the
loop does either: what is written out ends where the loop ends, and an `else` behind it cannot
belong to an `if` in it unless it could before.

The loop is found by going down the phrase of the program, with one case for each rule. Which tokens
belong to its parts is settled by the reader, which takes the same ones each time.

## Main definitions

* `LoopParts` — the parts of a loop, with `IsFor` and `IsWhile` for the two ways to write it
* `LoopAt` — a loop that stands in a phrase, and can be replaced there

## Main results

* `StmtPhrase.Derives.loopAt` — where a `for` stands, there is a loop that can be replaced
* `LoopParts.unique` — what stands there can be read as a loop in one way only
* `parse_for_eq_while` — a program in which a loop is written out has the same trees
-/

namespace Treewalk.Grammar

variable {w u v r r' before after : List Token} {t : Token}

/-! ### The parts of a loop -/

/-- The parts of a loop. The initializer ends in a semicolon, or is one. -/
@[ext]
structure LoopParts where
  initializer : List Token
  condition : List Token
  increment : List Token
  body : List Token

namespace LoopParts

/-- The tokens are `for ( I C ; N ) B`. -/
inductive IsFor (parts : LoopParts) : List Token → Prop
  | mk {t left semicolon right : Token} (h : t.isKeyword .for) (hleft : left.isSymbol .leftParen)
      (hsemicolon : semicolon.isSymbol .semicolon) (hright : right.isSymbol .rightParen) :
      IsFor parts (t :: left :: (parts.initializer ++ (parts.condition ++
        semicolon :: (parts.increment ++ right :: parts.body))))

/-- The tokens are `C`, or `true` if there is no `C`. -/
inductive IsCondition (parts : LoopParts) : List Token → Prop
  | given (h : parts.condition ≠ []) : IsCondition parts parts.condition
  | always {t : Token} (h : parts.condition = []) (ht : t.isKeyword .true) : IsCondition parts [t]

/-- The tokens are `{ B N ; }`, or `B` if there is no `N`. -/
inductive IsBody (parts : LoopParts) : List Token → Prop
  | alone (h : parts.increment = []) : IsBody parts parts.body
  | braces {left semicolon right : Token} (h : parts.increment ≠ [])
      (hleft : left.isSymbol .leftBrace) (hsemicolon : semicolon.isSymbol .semicolon)
      (hright : right.isSymbol .rightBrace) :
      IsBody parts (left :: (parts.body ++ (parts.increment ++ [semicolon]) ++ [right]))

/-- The tokens are `while ( C ) { B N ; }`, with what the two above say about `C` and `N`. -/
inductive IsLoop (parts : LoopParts) : List Token → Prop
  | mk {t left right : Token} {w₁ w₂ : List Token} (h : t.isKeyword .while)
      (hleft : left.isSymbol .leftParen) (hcondition : parts.IsCondition w₁)
      (hright : right.isSymbol .rightParen) (hbody : parts.IsBody w₂) :
      IsLoop parts (t :: left :: (w₁ ++ right :: w₂))

/-- The tokens are `{ I while ( C ) { B N ; } }`, or the loop alone if `I` is just a semicolon. -/
inductive IsWhile (parts : LoopParts) : List Token → Prop
  | alone {semicolon : Token} {w : List Token} (h : parts.initializer = [semicolon])
      (hloop : parts.IsLoop w) : IsWhile parts w
  | braces {left right : Token} {w : List Token} (h : ∀ t, parts.initializer ≠ [t])
      (hleft : left.isSymbol .leftBrace) (hloop : parts.IsLoop w)
      (hright : right.isSymbol .rightBrace) :
      IsWhile parts (left :: (parts.initializer ++ w ++ [right]))

/-- The parts are phrases of the grammar. -/
structure Derives (parts : LoopParts) (isOpen : Bool) (clauses : LoopClauses) (body : Stmt) :
    Prop where
  initializer : LoopInitializer parts.initializer clauses.initializer
  condition : OptionalExpression parts.condition clauses.condition
  increment : OptionalExpression parts.increment clauses.increment
  body : (StmtPhrase.statement isOpen).Derives .nearest parts.body body

/-- The parts are phrases of the grammar, and the body does not go on with the tokens behind it. -/
def Fits (parts : LoopParts) (rest : List Token) : Prop :=
  ∃ isOpen clauses body, parts.Derives isOpen clauses body ∧ (isOpen → NoElse rest)

end LoopParts

/-! ### Expressions -/

theorem ExprPhrase.Derives.ne_nil {e : Expr} (h : ExprPhrase.expression.Derives w e) : w ≠ [] :=
  List.ne_nil_of_length_pos (h.relaxed.length_pos id)

theorem ExprPhrase.Derives.operand_of_primary {e : Expr} (h : ExprPhrase.primary.Derives w e) :
    (ExprPhrase.operand none).Derives w e := by
  have hcall := ExprPhrase.Derives.call h .noAccess
  rw [List.append_nil] at hcall
  exact .plain hcall

/-- A unary expression is an expression, in which no binary operator occurs. -/
theorem ExprPhrase.Derives.of_operand {e : Expr} (h : (ExprPhrase.operand none).Derives w e) :
    ExprPhrase.expression.Derives w e := by
  have hloosen (level : Level) (h : (ExprPhrase.operand level.tighter?).Derives w e) :
      (ExprPhrase.operand (some level)).Derives w e := by
    have hoperation := ExprPhrase.Derives.operation h .noOperator
    rwa [List.append_nil] at hoperation
  have hterm := hloosen .term (hloosen .factor h)
  have hequality := hloosen .equality (hloosen .comparison hterm)
  exact .loosest (hloosen .disjunction (hloosen .conjunction hequality))

/-- A primary expression is an expression, in which none of the operators occurs. -/
theorem ExprPhrase.Derives.of_primary {e : Expr} (h : ExprPhrase.primary.Derives w e) :
    ExprPhrase.expression.Derives w e := h.operand_of_primary.of_operand

/-! ### Initializers -/

namespace LoopInitializer

theorem eq_singleton (h : LoopInitializer w Option.none) : ∃ semicolon, w = [semicolon] := by
  cases h
  exact ⟨_, rfl⟩

theorem declaration {s : Stmt} (h : LoopInitializer w (Option.some s)) :
    StmtPhrase.declaration.Derives .nearest w s := by
  cases h with
  | «variable» h => exact .variable h
  | expression h => exact .statement (.expression h)

theorem ne_singleton {s : Stmt} (h : LoopInitializer w (Option.some s)) (t : Token) :
    w ≠ [t] := by
  cases h with
  | «variable» h => cases h <;> simp
  | expression h =>
    obtain ⟨hvalue, -⟩ := h
    intro heq
    exact hvalue.ne_nil (List.append_eq_singleton_iff.1 heq |>.elim And.left fun h => nomatch h.2)

end LoopInitializer

/-! ### Writing out -/

/-- Two declarations in braces are a statement. -/
theorem StmtPhrase.Derives.pair {rule : ElseRule} {left right : Token} {s s' : Stmt}
    (hleft : left.isSymbol .leftBrace) (h : StmtPhrase.declaration.Derives rule w s)
    (h' : StmtPhrase.declaration.Derives rule v s') (hright : right.isSymbol .rightBrace) :
    (StmtPhrase.statement false).Derives rule (left :: (w ++ v ++ [right])) (.block [s, s']) := by
  have hboth := StmtPhrase.Derives.declaration h (.declaration h' .noDeclaration)
  rw [List.append_nil] at hboth
  exact .braces (.block hleft hboth hright)

/-- The tokens are a phrase. A statement may be less open. -/
def StmtPhrase.Covers : (p : StmtPhrase) → List Token → p.Tree → Prop
  | .statement isOpen, w, s =>
    ∃ isOpen' ≤ isOpen, (StmtPhrase.statement isOpen').Derives .nearest w s
  | .declaration, w, s => StmtPhrase.declaration.Derives .nearest w s
  | .declarations, w, ss => StmtPhrase.declarations.Derives .nearest w ss
  | .block, w, ss => StmtPhrase.block.Derives .nearest w ss
  | .routine, w, target => StmtPhrase.routine.Derives .nearest w target
  | .methods, w, rs => StmtPhrase.methods.Derives .nearest w rs

/-- What is repeated: the body of a loop, and behind it the increment. -/
def repeated (increment : Option Expr) (body : Stmt) : Stmt :=
  match increment with
  | some increment => .block [body, .expression increment]
  | none => body

namespace LoopParts

variable {parts : LoopParts} {isOpen : Bool} {clauses : LoopClauses} {body : Stmt}

theorem IsCondition.derives {o : Option Expr} (h : parts.IsCondition w)
    (ho : OptionalExpression parts.condition o) :
    ExprPhrase.expression.Derives w (o.getD (.literal (.boolean true))) := by
  obtain ⟨initializer, condition, increment, body⟩ := parts
  cases h with
  | given h =>
    cases ho with
    | none => exact absurd rfl h
    | some he => exact he
  | @always t h ht =>
    cases ho with
    | none => exact .of_primary (.literal (by rw [of_decide_eq_true ht]; rfl))
    | some he => exact absurd h he.ne_nil

theorem IsBody.covers {o : Option Expr} (h : parts.IsBody w)
    (ho : OptionalExpression parts.increment o)
    (hbody : (StmtPhrase.statement isOpen).Derives .nearest parts.body body) :
    (StmtPhrase.statement isOpen).Covers w (repeated o body) := by
  obtain ⟨initializer, condition, increment, words⟩ := parts
  cases h with
  | alone h =>
    cases ho with
    | none => exact ⟨isOpen, le_rfl, hbody⟩
    | some he => exact absurd h he.ne_nil
  | @braces left semicolon right h hleft hsemicolon hright =>
    cases ho with
    | none => exact absurd rfl h
    | some he =>
      have hincrement : StmtPhrase.declaration.Derives .nearest (increment ++ [semicolon]) _ :=
        .statement (.expression (.mk he hsemicolon))
      exact ⟨false, Bool.false_le _, .pair hleft (.statement hbody) hincrement hright⟩

theorem IsLoop.covers (h : parts.IsLoop w) (hparts : parts.Derives isOpen clauses body) :
    (StmtPhrase.statement isOpen).Covers w
      (.while (clauses.condition.getD (.literal (.boolean true)))
        (repeated clauses.increment body)) := by
  obtain ⟨h, hleft, hcondition, hright, hbody⟩ := h
  obtain ⟨isOpen', hle, hbody⟩ := hbody.covers hparts.increment hparts.body
  exact ⟨isOpen', hle, .while h hleft (hcondition.derives hparts.condition) hright hbody⟩

/-- What is written out is the text of the same tree. -/
theorem IsWhile.covers (h : parts.IsWhile w) (hparts : parts.Derives isOpen clauses body) :
    (StmtPhrase.statement isOpen).Covers w (loopOf clauses body) := by
  have hinitializer := hparts.initializer
  obtain ⟨initializer, condition, increment⟩ := clauses
  cases h with
  | alone h hloop =>
    rw [h] at hinitializer
    cases initializer with
    | none => exact hloop.covers hparts
    | some s => exact absurd rfl (hinitializer.ne_singleton _)
  | braces h hleft hloop hright =>
    obtain ⟨isOpen', hle, hloop⟩ := hloop.covers hparts
    cases initializer with
    | none =>
      obtain ⟨t, ht⟩ := hinitializer.eq_singleton
      exact absurd ht (h t)
    | some s =>
      exact ⟨false, Bool.false_le _, .pair hleft hinitializer.declaration (.statement hloop) hright⟩

/-- All tokens of a loop that is written out are tokens of the loop, symbols or keywords. -/
theorem IsWhile.forall_mem {P : Token → Prop} (h : parts.IsWhile w)
    (hsymbol : ∀ {t s}, t.isSymbol s → P t) (hkeyword : ∀ {t k}, t.isKeyword k → P t)
    (hfor : parts.IsFor v) (hv : ∀ t ∈ v, P t) : ∀ t ∈ w, P t := by
  obtain ⟨hinitializer, hcondition, hincrement, hbody⟩ :
      (∀ t ∈ parts.initializer, P t) ∧ (∀ t ∈ parts.condition, P t) ∧
        (∀ t ∈ parts.increment, P t) ∧ ∀ t ∈ parts.body, P t := by
    obtain ⟨-, -, -, -⟩ := hfor
    simp only [List.forall_mem_cons, List.forall_mem_append] at hv
    exact ⟨hv.2.2.1, hv.2.2.2.1, hv.2.2.2.2.2.1, hv.2.2.2.2.2.2.2⟩
  have hcondition' {v : List Token} (h : parts.IsCondition v) : ∀ t ∈ v, P t := by
    cases h with
    | given => exact hcondition
    | always _ ht => exact List.forall_mem_singleton.2 (hkeyword ht)
  have hbody' {v : List Token} (h : parts.IsBody v) : ∀ t ∈ v, P t := by
    cases h with
    | alone => exact hbody
    | braces _ hleft hsemicolon hright =>
      simp only [List.forall_mem_cons, List.forall_mem_append]
      exact ⟨hsymbol hleft, ⟨hbody, hincrement, hsymbol hsemicolon, nofun⟩, hsymbol hright, nofun⟩
  have hloop {v : List Token} (h : parts.IsLoop v) : ∀ t ∈ v, P t := by
    obtain ⟨h, hleft, hc, hright, hb⟩ := h
    simp only [List.forall_mem_cons, List.forall_mem_append]
    exact ⟨hkeyword h, hsymbol hleft, hcondition' hc, hsymbol hright, hbody' hb⟩
  cases h with
  | alone _ hl => exact hloop hl
  | braces _ hleft hl hright =>
    simp only [List.forall_mem_cons, List.forall_mem_append]
    exact ⟨hsymbol hleft, ⟨hinitializer, hloop hl⟩, hsymbol hright, nofun⟩

end LoopParts

/-! ### One way to read a loop -/

/-- The tokens that a reader takes depend on what is ahead alone. -/
theorem Accepts.unique {α : Type} {read : Reading α} {P P' : α → Prop} (h : Accepts read w r P)
    (h' : Accepts read v r' P') (heq : w ++ r = v ++ r') : w = v ∧ r = r' := by
  obtain ⟨_, _, hrun, -⟩ := h ⟨w ++ r, default, 0, []⟩ rfl
  obtain ⟨_, _, hrun', -⟩ := h' ⟨w ++ r, default, 0, []⟩ heq
  rw [hrun] at hrun'
  injection hrun' with _ hcursor
  obtain rfl : r = r' := congrArg Cursor.ahead hcursor
  exact ⟨List.append_cancel_right heq, rfl⟩

theorem LoopInitializer.unique {o o' : Option Stmt} (h : LoopInitializer w o)
    (h' : LoopInitializer v o') (heq : w ++ r = v ++ r') : w = v ∧ r = r' := by
  have haccepts {w r : List Token} {o : Option Stmt} (h : LoopInitializer w o) {fuel : Nat}
      (hfuel : 16 * w.length ≤ fuel) :
      Accepts (loopInitializer fuel) w r fun a => a.map Stmt.eraseIds = o.map Stmt.eraseIds :=
    notes_zero_iff.1 (Relaxed.loopInitializer_notes h.relaxed (by omega))
  exact (haccepts h (Nat.mul_le_mul_left 16 (Nat.le_add_right _ v.length))).unique
    (haccepts h' (Nat.mul_le_mul_left 16 (Nat.le_add_left _ w.length))) heq

/-- In front of a symbol that neither begins an expression nor goes on with one. -/
theorem OptionalExpression.unique {s : Symbol} {t t' : Token} {o o' : Option Expr}
    (hs : startsExpression ⟨.symbol s, "", 0⟩ = false) (hreach : reach ⟨.symbol s, "", 0⟩ = 0)
    (h : OptionalExpression w o) (h' : OptionalExpression v o') (ht : t.isSymbol s)
    (ht' : t'.isSymbol s) (heq : w ++ t :: r = v ++ t' :: r') : w = v ∧ r = r' := by
  have haccepts {w r : List Token} {t : Token} {o : Option Expr} (h : OptionalExpression w o)
      (ht : t.isSymbol s) {fuel : Nat} (hfuel : 16 * w.length + 10 ≤ fuel) :
      Accepts (optionalUnless s (expression fuel)) w (t :: r) fun a =>
        a.map Expr.eraseIds = o.map Expr.eraseIds :=
    notes_zero_iff.1 (Relaxed.optionalExpression_notes h.relaxed ht hs hreach hfuel)
  have hle : 16 * w.length + 10 ≤ 16 * (w.length + v.length) + 10 := by omega
  have hle' : 16 * v.length + 10 ≤ 16 * (w.length + v.length) + 10 := by omega
  obtain ⟨rfl, hr⟩ := (haccepts h ht hle).unique (haccepts h' ht' hle') heq
  exact ⟨rfl, (List.cons.inj hr).2⟩

theorem statement_unique {isOpen isOpen' : Bool} {s s' : Stmt}
    (h : (StmtPhrase.statement isOpen).Derives .nearest w s)
    (h' : (StmtPhrase.statement isOpen').Derives .nearest v s') (hr : isOpen → NoElse r)
    (hr' : isOpen' → NoElse r') (heq : w ++ r = v ++ r') : w = v ∧ r = r' := by
  have hread := statement_complete h (32 * (w.length + v.length)) r (by omega) hr
  have hread' := statement_complete h' (32 * (w.length + v.length)) r' (by omega) hr'
  exact hread.unique hread' heq

/-- Two loops that stand in the same place have the same parts. -/
theorem LoopParts.unique {parts parts' : LoopParts} (hw : parts.IsFor w) (hv : parts'.IsFor v)
    (h : parts.Fits r) (h' : parts'.Fits r') (heq : w ++ r = v ++ r') :
    parts = parts' ∧ w = v ∧ r = r' := by
  obtain ⟨isOpen, clauses, s, hparts, hr⟩ := h
  obtain ⟨isOpen', clauses', s', hparts', hr'⟩ := h'
  obtain ⟨hinitializer, hcondition, hincrement, hbody, rfl⟩ :
      parts.initializer = parts'.initializer ∧ parts.condition = parts'.condition ∧
        parts.increment = parts'.increment ∧ parts.body = parts'.body ∧ r = r' := by
    obtain ⟨-, -, hsemicolon, hright⟩ := hw
    obtain ⟨-, -, hsemicolon', hright'⟩ := hv
    simp only [List.cons_append, List.append_assoc, List.cons.injEq] at heq
    obtain ⟨hinitializer, heq⟩ := hparts.initializer.unique hparts'.initializer heq.2.2
    obtain ⟨hcondition, heq⟩ :=
      hparts.condition.unique rfl rfl hparts'.condition hsemicolon hsemicolon' heq
    obtain ⟨hincrement, heq⟩ :=
      hparts.increment.unique rfl rfl hparts'.increment hright hright' heq
    obtain ⟨hbody, heq⟩ := statement_unique hparts.body hparts'.body hr hr' heq
    exact ⟨hinitializer, hcondition, hincrement, hbody, heq⟩
  exact ⟨LoopParts.ext hinitializer hcondition hincrement hbody, List.append_cancel_right heq, rfl⟩

/-! ### Where no `for` stands -/

/-- None of the tokens is a `for`. -/
def NoFor (w : List Token) : Prop := ∀ t ∈ w, t.isKeyword .for = false

theorem NoFor.nil : NoFor [] := nofun

@[simp] theorem noFor_nil : NoFor [] ↔ True := iff_true_intro .nil

@[simp] theorem noFor_cons : NoFor (t :: w) ↔ t.isKeyword .for = false ∧ NoFor w :=
  List.forall_mem_cons

@[simp] theorem noFor_append : NoFor (w ++ v) ↔ NoFor w ∧ NoFor v := List.forall_mem_append

theorem not_for_of_isSymbol {s : Symbol} (h : t.isSymbol s) : t.isKeyword .for = false :=
  isKeyword_eq_false (p := (·.isSymbol s)) (fun _ => rfl) h rfl

theorem not_for_of_isIdentifier (h : t.isIdentifier) : t.isKeyword .for = false :=
  isKeyword_eq_false (p := Token.isIdentifier) (fun _ => rfl) h rfl

theorem not_for_of_isKeyword {k : Keyword} (h : t.isKeyword k) (hk : k ≠ .for) :
    t.isKeyword .for = false :=
  isKeyword_eq_false (p := (·.isKeyword k)) (fun _ => rfl) h
    (decide_eq_false fun hkind => hk (Kind.keyword.inj hkind).symm)

theorem ExprPhrase.Derives.noFor {p : ExprPhrase} {e : p.Tree} (h : p.Derives w e) : NoFor w := by
  induction h with
  | noOperator | noAccess => exact .nil
  | loosest h ih | plain h ih | lastArgument h ih => exact ih
  | operation hleft hrest ih ih' | call hleft hrest ih ih' => exact noFor_append.2 ⟨ih, ih'⟩
  | assignVariable hname hequals hvalue ih =>
    simp [not_for_of_isIdentifier hname, not_for_of_isSymbol hequals, ih]
  | assignProperty hobject hdot hname hequals hvalue ih ih' =>
    simp [not_for_of_isSymbol hdot, not_for_of_isIdentifier hname, not_for_of_isSymbol hequals, ih,
      ih']
  | @operator level operator _ _ _ _ _ hoperator hright hrest ih ih' =>
    have hfor : operator.isKeyword .for = false :=
      isKeyword_eq_false (p := level.holds) (fun _ => rfl) hoperator (by cases level <;> rfl)
    simp [hfor, ih, ih']
  | @unary operator _ _ hoperator hoperand ih =>
    have hfor : operator.isKeyword .for = false :=
      isKeyword_eq_false (fun _ => rfl) hoperator rfl
    simp [hfor, ih]
  | emptyCall hleft hright hrest ih =>
    simp [not_for_of_isSymbol hleft, not_for_of_isSymbol hright, ih]
  | fullCall hleft hvalues harity hright hrest ih ih' =>
    simp [not_for_of_isSymbol hleft, not_for_of_isSymbol hright, ih, ih']
  | property hdot hname hrest ih =>
    simp [not_for_of_isSymbol hdot, not_for_of_isIdentifier hname, ih]
  | argument h hcomma hrest ih ih' => simp [not_for_of_isSymbol hcomma, ih, ih']
  | @literal t _ h =>
    have hfor : t.isKeyword .for = false :=
      isKeyword_eq_false (fun _ => rfl) (startsPrimary_of_literal h) rfl
    simp [hfor]
  | this h => simp [not_for_of_isKeyword h]
  | «variable» h => simp [not_for_of_isIdentifier h]
  | group hleft hinner hright ih =>
    simp [not_for_of_isSymbol hleft, not_for_of_isSymbol hright, ih]
  | super h hdot hmethod =>
    simp [not_for_of_isKeyword h, not_for_of_isSymbol hdot, not_for_of_isIdentifier hmethod]

theorem OptionalExpression.noFor {o : Option Expr} (h : OptionalExpression w o) : NoFor w := by
  cases h with
  | none => exact .nil
  | some h => exact h.noFor

theorem VariableDeclaration.noFor {s : Stmt} (h : VariableDeclaration w s) : NoFor w := by
  cases h with
  | plain hvar hname hsemicolon =>
    simp [not_for_of_isKeyword hvar, not_for_of_isIdentifier hname, not_for_of_isSymbol hsemicolon]
  | initialized hvar hname hequals hvalue hsemicolon =>
    simp [not_for_of_isKeyword hvar, not_for_of_isIdentifier hname, not_for_of_isSymbol hequals,
      hvalue.noFor, not_for_of_isSymbol hsemicolon]

theorem ExpressionStatement.noFor {s : Stmt} (h : ExpressionStatement w s) : NoFor w := by
  obtain ⟨hvalue, hsemicolon⟩ := h
  simp [hvalue.noFor, not_for_of_isSymbol hsemicolon]

theorem LoopInitializer.noFor {o : Option Stmt} (h : LoopInitializer w o) : NoFor w := by
  cases h with
  | none h => simp [not_for_of_isSymbol h]
  | «variable» h => exact h.noFor
  | expression h => exact h.noFor

theorem LoopHeader.noFor {clauses : LoopClauses} (h : LoopHeader w clauses) : NoFor w := by
  obtain ⟨hinitializer, hcondition, hsemicolon, hincrement⟩ := h
  simp [hinitializer.noFor, hcondition.noFor, not_for_of_isSymbol hsemicolon, hincrement.noFor]

theorem ParameterList.noFor {names : List Token} (h : ParameterList w names) : NoFor w := by
  cases h with
  | empty => exact .nil
  | names h harity =>
    clear harity
    induction h with
    | last h => simp [not_for_of_isIdentifier h]
    | cons h hcomma hrest ih => simp [not_for_of_isIdentifier h, not_for_of_isSymbol hcomma, ih]

theorem SuperclassClause.noFor {o : Option Use} (h : SuperclassClause w o) : NoFor w := by
  cases h with
  | none => exact .nil
  | some hless hname => simp [not_for_of_isSymbol hless, not_for_of_isIdentifier hname]

/-! ### Where a `for` stands -/

/-- A token of two lists, one behind the other, is in the first one or in the second one. -/
theorem append_eq_append_cons (h : w ++ v = before ++ t :: after) :
    (∃ a, w = before ++ t :: a ∧ after = a ++ v) ∨ ∃ b, before = w ++ b ∧ v = b ++ t :: after := by
  obtain ⟨b, hb, hv⟩ | ⟨c, hw, hc⟩ := List.append_eq_append_iff.1 h
  · exact .inr ⟨b, hb, hv⟩
  · cases c with
    | nil => exact .inr ⟨[], by simpa using hw.symm, hc.symm⟩
    | cons t' a =>
      obtain ⟨rfl, rfl⟩ := List.cons.inj hc
      exact .inl ⟨a, hw, rfl⟩

theorem NoFor.ne (h : NoFor w) (ht : t.isKeyword .for) : w ≠ before ++ t :: after := by
  rintro rfl
  have hfor := h t (by simp)
  rw [ht] at hfor
  cases hfor

theorem NoFor.drop_left (hu : NoFor u) (ht : t.isKeyword .for) (h : v = before ++ t :: after)
    (hv : v = u ++ w) : ∃ b, before = u ++ b ∧ w = b ++ t :: after := by
  obtain ⟨a, rfl, -⟩ | h := append_eq_append_cons (hv.symm.trans h)
  · exact absurd rfl (hu.ne ht)
  · exact h

theorem NoFor.drop_right (hv : NoFor v) (ht : t.isKeyword .for)
    (h : w ++ v = before ++ t :: after) : ∃ a, w = before ++ t :: a ∧ after = a ++ v := by
  obtain h | ⟨b, -, rfl⟩ := append_eq_append_cons h
  · exact h
  · exact absurd rfl (hv.ne ht)

/-- What stands before the body of a loop or the branch of an `if`. -/
theorem NoFor.header {t left right : Token} {k : Keyword} (h : t.isKeyword k) (hk : k ≠ .for)
    (hleft : left.isSymbol .leftParen) (hw : NoFor w) (hright : right.isSymbol .rightParen) :
    NoFor (t :: left :: (w ++ [right])) := by
  simp [not_for_of_isKeyword h hk, not_for_of_isSymbol hleft, hw, not_for_of_isSymbol hright]

/-- The loop at the tokens `ahead`, behind the tokens `before` of a phrase, in front of the tokens
`r` behind the phrase. If another statement with the same tree, which is as closed, stands in its
place, this is again a phrase with the same tree. -/
inductive LoopAt (r : List Token) (p : StmtPhrase) (tree : p.Tree) (before ahead : List Token) :
    Prop
  | mk {parts : LoopParts} {isOpen : Bool} {clauses : LoopClauses} {body : Stmt}
      {w rest : List Token} (hahead : ahead = w ++ rest) (hfor : parts.IsFor w)
      (hparts : parts.Derives isOpen clauses body) (hrest : isOpen → NoElse (rest ++ r))
      (hreplace : ∀ w', (StmtPhrase.statement isOpen).Covers w' (loopOf clauses body) →
        p.Covers (before ++ (w' ++ rest)) tree)

section Parts

variable {p p' : StmtPhrase} {tree : p.Tree} {tree' : p'.Tree}

/-- A loop in a part of a phrase, between the tokens `u` and `v`, is a loop in the phrase. -/
theorem LoopAt.within (u v : List Token) (h : LoopAt (v ++ r) p tree before (t :: after))
    (hp : ∀ w, p.Covers w tree → p'.Covers (u ++ (w ++ v)) tree') :
    LoopAt r p' tree' (u ++ before) (t :: (after ++ v)) := by
  obtain ⟨hahead, hfor, hparts, hrest, hreplace⟩ := h
  rw [← List.append_assoc] at hrest
  refine .mk (by rw [← List.cons_append, hahead, List.append_assoc]) hfor hparts hrest ?_
  intro w' hw'
  have hwhole := hp _ (hreplace w' hw')
  simpa only [List.append_assoc] using hwhole

/-- A loop in the last part of a phrase is a loop in the phrase. -/
theorem LoopAt.behind (u : List Token) (h : LoopAt r p tree before (t :: after))
    (hp : ∀ w, p.Covers w tree → p'.Covers (u ++ w) tree') :
    LoopAt r p' tree' (u ++ before) (t :: after) := by
  have hwithin := LoopAt.within (r := r) u [] h fun w hw => (List.append_nil w).symm ▸ hp w hw
  rwa [List.append_nil] at hwithin

end Parts

/-- The tokens can stand behind a phrase, so that the reader does not take them for a part of it. -/
def StmtPhrase.Precedes : StmtPhrase → List Token → Prop
  | .statement isOpen, r => isOpen → NoElse r
  | .declaration, r | .declarations, r => NoElse r
  | .block, _ | .routine, _ | .methods, _ => True

/-- Where a `for` stands in a phrase, there is a loop that can be replaced. -/
theorem StmtPhrase.Derives.loopAt {p : StmtPhrase} {tree : p.Tree} (h : p.Derives .nearest w tree)
    (ht : t.isKeyword .for) (hr : p.Precedes r) (hw : w = before ++ t :: after) :
    LoopAt r p tree before (t :: after) := by
  induction h generalizing r before after with
  | noDeclaration | noMethod => exact (NoFor.nil.ne ht hw).elim
  | «variable» h => exact (h.noFor.ne ht hw).elim
  | expression h => exact (h.noFor.ne ht hw).elim
  | print h hvalue hsemicolon =>
    refine (NoFor.ne ?_ ht hw).elim
    simp [not_for_of_isKeyword h, hvalue.noFor, not_for_of_isSymbol hsemicolon]
  | «return» h hvalue hsemicolon =>
    refine (NoFor.ne ?_ ht hw).elim
    simp [not_for_of_isKeyword h, hvalue.noFor, not_for_of_isSymbol hsemicolon]
  | @declaration w₁ w₂ _ _ h hrest ih ihrest =>
    obtain ⟨a, hw₁, rfl⟩ | ⟨b, rfl, hw₂⟩ := append_eq_append_cons hw
    · refine (ih (hrest.noElse hr) hw₁).within [] w₂ fun w hw => ?_
      have hboth := StmtPhrase.Derives.declaration hw hrest
      exact hboth
    · exact (ihrest hr hw₂).behind w₁ fun w hw => StmtPhrase.Derives.declaration h hw
  | @«class» t₀ name left right w₁ w₂ _ _ h hname hsuperclass hleft hmethods hright ih =>
    have hu : NoFor (t₀ :: name :: (w₁ ++ [left])) := by
      simp [not_for_of_isKeyword h, not_for_of_isIdentifier hname, hsuperclass.noFor,
        not_for_of_isSymbol hleft]
    have hv : NoFor [right] := by simp [not_for_of_isSymbol hright]
    obtain ⟨b, rfl, hw'⟩ := hu.drop_left (w := w₂ ++ [right]) ht hw (by simp)
    obtain ⟨a, hw₂, rfl⟩ := hv.drop_right ht hw'
    refine (ih trivial hw₂).within _ [right] fun w hw => ?_
    have hclass := StmtPhrase.Derives.class h hname hsuperclass hleft hw hright
    simpa [StmtPhrase.Covers] using hclass
  | @function t₀ _ _ h hroutine ih =>
    have hu : NoFor [t₀] := by simp [not_for_of_isKeyword h]
    obtain ⟨b, rfl, hw'⟩ := hu.drop_left ht hw rfl
    exact (ih trivial hw').behind [t₀] fun w hw => StmtPhrase.Derives.function h hw
  | statement h ih =>
    refine (ih (fun _ => hr) hw).behind [] fun w hw => ?_
    obtain ⟨_, -, hw⟩ := hw
    exact StmtPhrase.Derives.statement hw
  | @method w₁ w₂ _ _ h hrest ih ihrest =>
    obtain ⟨a, hw₁, rfl⟩ | ⟨b, rfl, hw₂⟩ := append_eq_append_cons hw
    · refine (ih trivial hw₁).within [] w₂ fun w hw => ?_
      have hboth := StmtPhrase.Derives.method hw hrest
      exact hboth
    · exact (ihrest trivial hw₂).behind w₁ fun w hw => StmtPhrase.Derives.method h hw
  | @routine name left right w₁ w₂ _ _ hname hleft hparameters hright hbody ih =>
    have hu : NoFor (name :: left :: (w₁ ++ [right])) := by
      simp [not_for_of_isIdentifier hname, not_for_of_isSymbol hleft, hparameters.noFor,
        not_for_of_isSymbol hright]
    obtain ⟨b, rfl, hw₂⟩ := hu.drop_left (w := w₂) ht hw (by simp)
    refine (ih trivial hw₂).behind _ fun w hw => ?_
    have hroutine := StmtPhrase.Derives.routine hname hleft hparameters hright hw
    simpa [StmtPhrase.Covers] using hroutine
  | @block left right _ _ hleft hbody hright ih =>
    have hu : NoFor [left] := by simp [not_for_of_isSymbol hleft]
    have hv : NoFor [right] := by simp [not_for_of_isSymbol hright]
    obtain ⟨b, rfl, hw'⟩ := hu.drop_left ht hw rfl
    obtain ⟨a, hw'', rfl⟩ := hv.drop_right ht hw'
    exact (ih (.of_isSymbol hright) hw'').within [left] [right] fun w hw =>
      StmtPhrase.Derives.block hleft hw hright
  | braces h ih =>
    exact (ih trivial hw).behind [] fun w hw => ⟨false, le_rfl, .braces hw⟩
  | @«while» isOpen t₀ left right w₁ w₂ _ _ h hleft hcondition hright hbody ih =>
    have hu := NoFor.header h nofun hleft hcondition.noFor hright
    obtain ⟨b, rfl, hw₂⟩ := hu.drop_left (w := w₂) ht hw (by simp)
    refine (ih hr hw₂).behind _ fun w hw => ?_
    obtain ⟨isOpen', hle, hw⟩ := hw
    have hloop := StmtPhrase.Derives.while h hleft hcondition hright hw
    exact ⟨isOpen', hle, by simpa using hloop⟩
  | @«for» isOpen t₀ left right w₁ w₂ clauses body h hleft hclauses hright hbody ih =>
    cases before with
    | nil =>
      -- this is the loop itself
      obtain ⟨rfl, rfl⟩ := List.cons.inj hw
      obtain @⟨_, v₁, v₂, v₃, _, hinitializer, hcondition, hsemicolon, hincrement⟩ := hclauses
      have hparts : LoopParts.Derives ⟨v₁, v₂, v₃, w₂⟩ isOpen clauses body :=
        ⟨hinitializer, hcondition, hincrement, hbody⟩
      have hfor : LoopParts.IsFor ⟨v₁, v₂, v₃, w₂⟩ _ := .mk h hleft hsemicolon hright
      refine .mk (List.append_nil _).symm ?_ hparts hr fun w' hw' => ?_
      · simpa using hfor
      · simpa using hw'
    | cons _ before =>
      obtain ⟨rfl, hw'⟩ := List.cons.inj hw
      have hu : NoFor (left :: (w₁ ++ [right])) := by
        simp [not_for_of_isSymbol hleft, hclauses.noFor, not_for_of_isSymbol hright]
      obtain ⟨b, rfl, hw₂⟩ := hu.drop_left (w := w₂) ht hw' (by simp)
      refine (ih hr hw₂).behind (t₀ :: (left :: (w₁ ++ [right]))) fun w hw => ?_
      obtain ⟨isOpen', hle, hw⟩ := hw
      have hloop := StmtPhrase.Derives.for h hleft hclauses hright hw
      exact ⟨isOpen', hle, by simpa using hloop⟩
  | @ifThen isOpen t₀ left right w₁ w₂ _ _ h hleft hcondition hright hbranch ih =>
    have hu := NoFor.header h nofun hleft hcondition.noFor hright
    obtain ⟨b, rfl, hw₂⟩ := hu.drop_left (w := w₂) ht hw (by simp)
    refine (ih (fun _ => hr rfl) hw₂).behind _ fun w hw => ?_
    obtain ⟨isOpen', -, hw⟩ := hw
    have hif := StmtPhrase.Derives.ifThen h hleft hcondition hright hw
    exact ⟨true, le_rfl, by simpa using hif⟩
  | @ifElse isOpen isOpen' t₀ left right t' w₁ w₂ w₃ _ _ _ h hleft hcondition hright hbranch
      hnearest h' hother ih ihother =>
    have hu := NoFor.header h nofun hleft hcondition.noFor hright
    have hu' : NoFor [t'] := by simp [not_for_of_isKeyword h']
    obtain ⟨b, rfl, hw'⟩ := hu.drop_left (w := w₂ ++ t' :: w₃) ht hw (by simp)
    obtain rfl : isOpen = false := hnearest rfl
    obtain ⟨a, hw₂, rfl⟩ | ⟨b, rfl, hw₃⟩ := append_eq_append_cons hw'
    · refine (ih nofun hw₂).within _ (t' :: w₃) fun w hw => ?_
      obtain ⟨_, hle, hw⟩ := hw
      have hif := StmtPhrase.Derives.ifElse h hleft hcondition hright hw
        (fun _ => Bool.eq_false_of_le_false hle) h' hother
      exact ⟨isOpen', le_rfl, by simpa using hif⟩
    · obtain ⟨b, rfl, hw₃'⟩ := hu'.drop_left ht hw₃ rfl
      rw [← List.append_assoc, ← List.append_assoc]
      refine (ihother hr hw₃').behind _ fun w hw => ?_
      obtain ⟨isOpen'', hle, hw⟩ := hw
      have hif := StmtPhrase.Derives.ifElse h hleft hcondition hright hbranch (fun _ => rfl) h' hw
      exact ⟨isOpen'', hle, by simpa using hif⟩

/-! ### Token lists -/

theorem not_isEnd_of_isSymbol {s : Symbol} (h : t.isSymbol s) : t.isEnd = false := by
  rw [Token.isEnd, of_decide_eq_true h]
  rfl

theorem not_isEnd_of_isKeyword {k : Keyword} (h : t.isKeyword k) : t.isEnd = false := by
  rw [Token.isEnd, of_decide_eq_true h]
  rfl

section Tokens

variable (tokens : List Token)

/-- Behind the tokens that are read stands an end of input, if anything. -/
theorem isEnd_of_mem_head? (h : t ∈ (tokens.dropWhile (!·.isEnd)).head?) : t.isEnd := by
  rw [← List.find?_eq_head?_dropWhile_not] at h
  exact List.find?_some h

theorem noElse_dropWhile : NoElse (tokens.dropWhile (!·.isEnd)) := fun _ ht =>
  isKeyword_eq_false (p := Token.isEnd) (fun _ => rfl) (isEnd_of_mem_head? tokens ht) rfl

theorem takeWhile_append_dropWhile (h : ∀ t ∈ w, t.isEnd = false) :
    (w ++ tokens.dropWhile (!·.isEnd)).takeWhile (!·.isEnd) = w := by
  rw [List.takeWhile_append_of_pos fun t ht => by simp [h t ht]]
  cases hdrop : tokens.dropWhile (!·.isEnd) with
  | nil => simp
  | cons t rest =>
    have hend := isEnd_of_mem_head? tokens (t := t) (by simp [hdrop])
    simp [hend]

end Tokens

/-- Where a `for` stands in a program, there is a loop that can be written out. -/
theorem exists_loop {firstId : NodeId} {program : List Stmt}
    (hparse : (parse (before ++ t :: after) firstId).result = .ok program)
    (hbefore : ∀ t ∈ before, t.isEnd = false) (ht : t.isKeyword .for) :
    ∃ (parts : LoopParts) (w rest : List Token), t :: after = w ++ rest ∧ parts.IsFor w ∧
      parts.Fits rest ∧ ∀ w', parts.IsWhile w' → ∀ firstId',
        ∃ program', (parse (before ++ (w' ++ rest)) firstId').result = .ok program' ∧
          program'.map Stmt.eraseIds = program.map Stmt.eraseIds := by
  have hread : (before ++ t :: after).takeWhile (!·.isEnd) =
      before ++ t :: after.takeWhile (!·.isEnd) := by
    rw [List.takeWhile_append_of_pos fun t ht => by simp [hbefore t ht],
      List.takeWhile_cons_of_pos (by simp [not_isEnd_of_isKeyword ht])]
  have hmem : ∀ t' ∈ t :: after.takeWhile (!·.isEnd), t'.isEnd = false := by
    refine List.forall_mem_cons.2 ⟨not_isEnd_of_isKeyword ht, fun t' ht' => ?_⟩
    simpa using List.mem_takeWhile_imp ht'
  have hderives := derives_of_parse hparse
  rw [hread] at hderives
  obtain @⟨parts, isOpen, clauses, body, w, rest, hahead, hfor, hparts, hrest, hreplace⟩ :=
    hderives.loopAt ht (noElse_dropWhile after) rfl
  rw [hahead, List.forall_mem_append] at hmem
  refine ⟨parts, w, rest ++ after.dropWhile (!·.isEnd), ?_, hfor, ⟨_, _, _, hparts, hrest⟩, ?_⟩
  · rw [← List.append_assoc, ← hahead, List.cons_append, List.takeWhile_append_dropWhile]
  · intro w' hw' firstId'
    have hderives' := hreplace w' (hw'.covers hparts)
    have hmem' := hw'.forall_mem not_isEnd_of_isSymbol not_isEnd_of_isKeyword hfor hmem.1
    have hend : ∀ t ∈ before ++ (w' ++ rest), t.isEnd = false :=
      List.forall_mem_append.2 ⟨hbefore, List.forall_mem_append.2 ⟨hmem', hmem.2⟩⟩
    rw [StmtPhrase.Covers, ← takeWhile_append_dropWhile after hend, List.append_assoc,
      List.append_assoc] at hderives'
    exact parse_of_derives firstId' hderives'

/-- **A loop is short for what it is written out as.** Wherever a `for` stands in a program without
faults, before the end of input, it begins just one loop `for ( I C ; N ) B`, whose body does not go
on with an `else` behind it. And with the tokens `{ I while ( C ) { B N ; } }` in the place of those
of the loop, spelled in any way and on any lines, this is a program without faults again. It has the
same trees up to node numbers; with all tokens on any lines, up to node numbers and lines. The
condition is `true` if there is no `C`; the inner braces are left out if there is no `N`, and the
outer ones if `I` is just a semicolon, which is left out too. -/
theorem parse_for_eq_while (before after : List Token) (t : Token) (firstId : NodeId)
    {program : List Stmt} (hparse : (parse (before ++ t :: after) firstId).result = .ok program)
    (hbefore : ∀ t ∈ before, t.isEnd = false) (ht : t.isKeyword .for) :
    (∃! parts : LoopParts, ∃ w rest, t :: after = w ++ rest ∧ parts.IsFor w ∧ parts.Fits rest) ∧
    ∀ parts : LoopParts, ∀ w rest, t :: after = w ++ rest → parts.IsFor w → parts.Fits rest →
      ∀ w', parts.IsWhile w' → ∀ tokens firstId', SameText (before ++ (w' ++ rest)) tokens →
        ∃ program', (parse tokens firstId').result = .ok program' ∧
          program'.map Stmt.unlined = program.map Stmt.unlined ∧
          (tokens = before ++ (w' ++ rest) →
            program'.map Stmt.eraseIds = program.map Stmt.eraseIds) := by
  obtain ⟨loop, v, rest, hv, hfor, hfits, hwrite⟩ := exists_loop hparse hbefore ht
  refine ⟨⟨loop, ⟨v, rest, hv, hfor, hfits⟩, ?_⟩, ?_⟩
  · rintro parts ⟨w, rest', hw, hfor', hfits'⟩
    exact (LoopParts.unique hfor' hfor hfits' hfits (hw.symm.trans hv)).1
  · intro parts w rest' hw hfor' hfits' w' hw' tokens firstId' htokens
    obtain ⟨rfl, rfl, rfl⟩ := LoopParts.unique hfor' hfor hfits' hfits (hw.symm.trans hv)
    obtain ⟨program₁, hparse₁, hsame₁⟩ := hwrite w' hw' firstId'
    obtain ⟨program', hparse', hsame'⟩ := parse_relined hparse₁ htokens firstId'
    refine ⟨program', hparse', hsame'.trans (map_unlined_of_eraseIds hsame₁), ?_⟩
    rintro rfl
    rw [hparse₁] at hparse'
    cases hparse'
    exact hsame₁

def symbolToken (s : Symbol) : Token := ⟨.symbol s, s.spelling, 1⟩

def keywordToken (k : Keyword) : Token := ⟨.keyword k, k.spelling, 1⟩

def nameToken (name : String) : Token := ⟨.identifier, name, 1⟩

/-- The parts of `for (var i = b; c; d) e;`. -/
def countingParts : LoopParts where
  initializer := [keywordToken .var, nameToken "i", symbolToken .equal, nameToken "b",
    symbolToken .semicolon]
  condition := [nameToken "c"]
  increment := [nameToken "d"]
  body := [nameToken "e", symbolToken .semicolon]

/-- The tokens of `(var i = b; c; d) e;`. -/
def countingTokens : List Token :=
  symbolToken .leftParen :: (countingParts.initializer ++ (countingParts.condition ++
    symbolToken .semicolon :: (countingParts.increment ++
      symbolToken .rightParen :: countingParts.body)))

/-- The tokens of `{ var i = b; while (c) { e; d; } }`. -/
def countingWhile : List Token :=
  symbolToken .leftBrace :: (countingParts.initializer ++ keywordToken .while ::
    symbolToken .leftParen :: (countingParts.condition ++ symbolToken .rightParen ::
      symbolToken .leftBrace :: (countingParts.body ++ (countingParts.increment ++
        [symbolToken .semicolon]) ++ [symbolToken .rightBrace])) ++ [symbolToken .rightBrace])

/-- The tokens of `if (a)`. -/
def ifTokens : List Token :=
  [keywordToken .if, symbolToken .leftParen, nameToken "a", symbolToken .rightParen]

/-- The tokens of `else f;`. -/
def elseTokens : List Token := [keywordToken .else, nameToken "f", symbolToken .semicolon]

theorem parse_counting :
    parse (ifTokens ++ keywordToken .for :: (countingTokens ++ elseTokens)) 0 =
      ⟨[.if (.variable ⟨0, nameToken "a"⟩)
        (.block [.var (nameToken "i") (some (.variable ⟨1, nameToken "b"⟩)),
          .while (.variable ⟨2, nameToken "c"⟩)
            (.block [.expression (.variable ⟨4, nameToken "e"⟩),
              .expression (.variable ⟨3, nameToken "d"⟩)])])
        (some (.expression (.variable ⟨5, nameToken "f"⟩)))], [], 6, true⟩ := by
  cbv

/-- The loop of `if (a) for (var i = b; c; d) e; else f;` is written out. -/
theorem parse_for_eq_while_counting : ∃ program program',
    (parse (ifTokens ++ keywordToken .for :: (countingTokens ++ elseTokens)) 0).result =
      .ok program ∧
    (parse (ifTokens ++ (countingWhile ++ elseTokens)) 5).result = .ok program' ∧
    program'.map Stmt.eraseIds = program.map Stmt.eraseIds := by
  have hname (name : String) : ExprPhrase.expression.Derives [nameToken name]
      (.variable ⟨0, nameToken name⟩) := .of_primary (.variable rfl)
  have hparts : countingParts.Derives false
      ⟨some (.var (nameToken "i") (some (.variable ⟨0, nameToken "b"⟩))),
        some (.variable ⟨0, nameToken "c"⟩), some (.variable ⟨0, nameToken "d"⟩)⟩
      (.expression (.variable ⟨0, nameToken "e"⟩)) :=
    { initializer := .variable (.initialized rfl rfl rfl (hname "b") rfl)
      condition := .some (hname "c")
      increment := .some (hname "d")
      body := .expression (.mk (hname "e") rfl) }
  have hfor : countingParts.IsFor (keywordToken .for :: countingTokens) := .mk rfl rfl rfl rfl
  have hwhile : countingParts.IsWhile countingWhile :=
    .braces (fun _ => by simp [countingParts]) rfl
      (.mk rfl rfl (.given nofun) rfl (.braces nofun rfl rfl rfl)) rfl
  obtain ⟨program, hprogram⟩ : ∃ program,
      (parse (ifTokens ++ keywordToken .for :: (countingTokens ++ elseTokens)) 0).result =
        .ok program := ⟨_, by rw [parse_counting]; rfl⟩
  obtain ⟨-, hall⟩ := parse_for_eq_while ifTokens (countingTokens ++ elseTokens)
    (keywordToken .for) 0 hprogram (by decide) rfl
  obtain ⟨program', hparse, -, hsame⟩ := hall countingParts _ elseTokens rfl hfor
    ⟨false, _, _, hparts, nofun⟩ countingWhile hwhile _ 5 rfl
  exact ⟨program, program', hprogram, hparse, hsame rfl⟩

end Treewalk.Grammar
