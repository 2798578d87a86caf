import Mathlib.Data.List.TakeWhile
import Treewalk.Proofs.Grammar.Acceptance

/-!
# Lines are not looked at

Readers look at the kind of a token alone, and take over what they keep of it into the tree. So the
same tokens on other lines are read as well, and give the same tree up to lines.

## Main definitions

* `SameText` — the same tokens, on any lines

## Main results

* `StmtPhrase.Derives.relined` — the same tokens on other lines are a phrase of the same kind
* `parse_relined` — they are read to the same trees up to node numbers and lines
-/

namespace Treewalk

/-! ### Tokens on other lines -/

namespace Token

variable {t t' : Token}

theorem kind_eq_of_unlined (h : t'.unlined = t.unlined) : t'.kind = t.kind := by
  have hkind : t'.unlined.kind = t.unlined.kind := congrArg Token.kind h
  exact hkind

/-- What is told by the kind of a token is so on other lines. -/
theorem eq_of_unlined (h : t'.unlined = t.unlined) {p : Token → Bool}
    (hp : ∀ t : Token, p t = p ⟨t.kind, "", 0⟩) : p t' = p t := by
  rw [hp t', hp t, kind_eq_of_unlined h]

theorem isSymbol_of_unlined (h : t'.unlined = t.unlined) {s : Symbol} (ht : t.isSymbol s) :
    t'.isSymbol s := by
  rwa [eq_of_unlined h (p := (·.isSymbol s)) fun _ => rfl]

theorem isKeyword_of_unlined (h : t'.unlined = t.unlined) {k : Keyword} (ht : t.isKeyword k) :
    t'.isKeyword k := by
  rwa [eq_of_unlined h (p := (·.isKeyword k)) fun _ => rfl]

theorem isIdentifier_of_unlined (h : t'.unlined = t.unlined) (ht : t.isIdentifier) :
    t'.isIdentifier := by
  rwa [eq_of_unlined h (p := Token.isIdentifier) fun _ => rfl]

end Token

namespace Grammar

/-- The same tokens, on any lines. -/
def SameText (w v : List Token) : Prop := v.map Token.unlined = w.map Token.unlined

namespace SameText

variable {t : Token} {w w₁ w₂ v : List Token}

theorem of_nil (h : SameText [] v) : v = [] := List.map_eq_nil_iff.1 h

theorem of_cons (h : SameText (t :: w) v) :
    ∃ t' v', v = t' :: v' ∧ t'.unlined = t.unlined ∧ SameText w v' :=
  List.map_eq_cons_iff.1 h

theorem of_singleton (h : SameText [t] v) : ∃ t', v = [t'] ∧ t'.unlined = t.unlined := by
  obtain ⟨t', v', rfl, ht, hv⟩ := h.of_cons
  obtain rfl := hv.of_nil
  exact ⟨t', rfl, ht⟩

theorem of_append (h : SameText (w₁ ++ w₂) v) :
    ∃ v₁ v₂, v = v₁ ++ v₂ ∧ SameText w₁ v₁ ∧ SameText w₂ v₂ := by
  rw [SameText, List.map_append] at h
  exact List.map_eq_append_iff.1 h

/-- Without a token at the end. -/
theorem of_concat (h : SameText (w ++ [t]) v) :
    ∃ v' t', v = v' ++ [t'] ∧ SameText w v' ∧ t'.unlined = t.unlined := by
  obtain ⟨v₁, v₂, rfl, h₁, h₂⟩ := h.of_append
  obtain ⟨t', rfl, ht⟩ := h₂.of_singleton
  exact ⟨v₁, t', rfl, h₁, ht⟩

theorem takeWhile (h : SameText w v) {p : Token → Bool}
    (hp : ∀ t : Token, p t = p ⟨t.kind, "", 0⟩) : SameText (w.takeWhile p) (v.takeWhile p) := by
  have hunlined : p ∘ Token.unlined = p :=
    funext fun t => (hp t.unlined).trans (hp t).symm
  have htake (w : List Token) :
      (w.takeWhile p).map Token.unlined = (w.map Token.unlined).takeWhile p := by
    rw [List.takeWhile_map, hunlined]
  rw [SameText, htake, htake, h]

end SameText

/-! ### Expressions -/

variable {w v : List Token}

theorem length_eq_of_unlined {es es' : List Expr}
    (h : es'.map Expr.unlined = es.map Expr.unlined) : es'.length = es.length := by
  rw [← List.length_map Expr.unlined, h, List.length_map]

theorem unlined_call {callee callee' : Expr} {paren paren' : Token} {values values' : List Expr}
    (hcallee : callee'.unlined = callee.unlined) (hparen : paren'.unlined = paren.unlined)
    (hvalues : values'.map Expr.unlined = values.map Expr.unlined) :
    (Expr.call callee' paren' values').unlined = (Expr.call callee paren values).unlined := by
  simp only [Expr.unlined, Expr.relabel, Expr.relabelAll_eq_map] at hcallee hvalues ⊢
  rw [hcallee]
  exact congrArg₂ (Expr.call _) hparen hvalues

theorem unlined_combine {level : Level} {left left' right right' : Expr} {t t' : Token}
    (hleft : left'.unlined = left.unlined) (ht : t'.unlined = t.unlined)
    (hright : right'.unlined = right.unlined) :
    (level.combine left' t' right').unlined = (level.combine left t right).unlined := by
  rw [Expr.unlined, Expr.unlined, Level.relabel_combine, Level.relabel_combine]
  exact congr (congrArg₂ level.combine hleft ht) hright

/-- The tokens are a phrase of the same kind, with the same tree up to lines. What is built behind
an operand or an object can be built behind another one that is the same up to lines. -/
def ExprPhrase.ReadsAs (v : List Token) : (p : ExprPhrase) → p.Tree → Prop
  | .operators level left, e => ∀ left' : Expr, left'.unlined = left.unlined →
    ∃ e', (ExprPhrase.operators level left').Derives v e' ∧ e'.unlined = e.unlined
  | .accesses object, e => ∀ object' : Expr, object'.unlined = object.unlined →
    ∃ e', (ExprPhrase.accesses object').Derives v e' ∧ e'.unlined = e.unlined
  | .arguments, es => ∃ es', ExprPhrase.arguments.Derives v es' ∧
    es'.map Expr.unlined = es.map Expr.unlined
  | .expression, e => ∃ e', ExprPhrase.expression.Derives v e' ∧ e'.unlined = e.unlined
  | .operand level, e => ∃ e', (ExprPhrase.operand level).Derives v e' ∧ e'.unlined = e.unlined
  | .call, e => ∃ e', ExprPhrase.call.Derives v e' ∧ e'.unlined = e.unlined
  | .primary, e => ∃ e', ExprPhrase.primary.Derives v e' ∧ e'.unlined = e.unlined

theorem ExprPhrase.Derives.readsAs {p : ExprPhrase} {e : p.Tree} (h : p.Derives w e)
    (hv : SameText w v) : p.ReadsAs v e := by
  induction h generalizing v with
  | assignVariable hname hequals hvalue ih =>
    obtain ⟨name, _, rfl, hn, hv⟩ := hv.of_cons
    obtain ⟨equals, _, rfl, he, hv⟩ := hv.of_cons
    obtain ⟨value, hvalue', hsame⟩ := ih hv
    refine ⟨.assign ⟨0, name⟩ value, .assignVariable (Token.isIdentifier_of_unlined hn hname)
      (Token.isSymbol_of_unlined he hequals) hvalue', ?_⟩
    exact congrArg₂ (fun t => Expr.assign ⟨0, t⟩) hn hsame
  | assignProperty hobject hdot hname hequals hvalue ihobject ihvalue =>
    obtain ⟨v₁, _, rfl, hv₁, hv⟩ := hv.of_append
    obtain ⟨dot, _, rfl, hd, hv⟩ := hv.of_cons
    obtain ⟨name, _, rfl, hn, hv⟩ := hv.of_cons
    obtain ⟨equals, _, rfl, he, hv⟩ := hv.of_cons
    obtain ⟨object, hobject', ho⟩ := ihobject hv₁
    obtain ⟨value, hvalue', hsame⟩ := ihvalue hv
    have hset := congr (congrArg₂ Expr.setProperty ho hn) hsame
    exact ⟨.setProperty object name value, .assignProperty hobject'
      (Token.isSymbol_of_unlined hd hdot) (Token.isIdentifier_of_unlined hn hname)
      (Token.isSymbol_of_unlined he hequals) hvalue', hset⟩
  | loosest h ih =>
    obtain ⟨e, h', he⟩ := ih hv
    exact ⟨e, .loosest h', he⟩
  | operation hleft hrest ihleft ihrest =>
    obtain ⟨v₁, v₂, rfl, hv₁, hv₂⟩ := hv.of_append
    obtain ⟨left, hleft', hl⟩ := ihleft hv₁
    obtain ⟨e, hrest', he⟩ := ihrest hv₂ left hl
    exact ⟨e, .operation hleft' hrest', he⟩
  | noOperator =>
    obtain rfl := hv.of_nil
    exact fun left hl => ⟨left, .noOperator, hl⟩
  | operator hoperator hright hrest ihright ihrest =>
    intro left hl
    obtain ⟨operator, _, rfl, ho, hv⟩ := hv.of_cons
    obtain ⟨v₁, v₂, rfl, hv₁, hv₂⟩ := hv.of_append
    obtain ⟨right, hright', hr⟩ := ihright hv₁
    obtain ⟨e, hrest', he⟩ := ihrest hv₂ _ (unlined_combine hl ho hr)
    rw [← Token.eq_of_unlined ho (p := Level.holds _) fun _ => rfl] at hoperator
    exact ⟨e, .operator hoperator hright' hrest', he⟩
  | unary hoperator hoperand ih =>
    obtain ⟨operator, _, rfl, ho, hv⟩ := hv.of_cons
    obtain ⟨operand, hoperand', hsame⟩ := ih hv
    rw [← Token.eq_of_unlined ho (p := isUnaryOperator) fun _ => rfl] at hoperator
    exact ⟨.unary operator operand, .unary hoperator hoperand', congrArg₂ Expr.unary ho hsame⟩
  | plain h ih =>
    obtain ⟨e, h', he⟩ := ih hv
    exact ⟨e, .plain h', he⟩
  | call hcallee hrest ihcallee ihrest =>
    obtain ⟨v₁, v₂, rfl, hv₁, hv₂⟩ := hv.of_append
    obtain ⟨callee, hcallee', hc⟩ := ihcallee hv₁
    obtain ⟨e, hrest', he⟩ := ihrest hv₂ callee hc
    exact ⟨e, .call hcallee' hrest', he⟩
  | noAccess =>
    obtain rfl := hv.of_nil
    exact fun object ho => ⟨object, .noAccess, ho⟩
  | emptyCall hleft hright hrest ih =>
    intro object ho
    obtain ⟨left, _, rfl, hl, hv⟩ := hv.of_cons
    obtain ⟨right, _, rfl, hr, hv⟩ := hv.of_cons
    obtain ⟨e, hrest', he⟩ := ih hv _ (unlined_call ho hr rfl)
    exact ⟨e, .emptyCall (Token.isSymbol_of_unlined hl hleft)
      (Token.isSymbol_of_unlined hr hright) hrest', he⟩
  | fullCall hleft hvalues harity hright hrest ihvalues ihrest =>
    intro object ho
    obtain ⟨left, _, rfl, hl, hv⟩ := hv.of_cons
    obtain ⟨v₁, _, rfl, hv₁, hv⟩ := hv.of_append
    obtain ⟨right, _, rfl, hr, hv⟩ := hv.of_cons
    obtain ⟨values, hvalues', hsame⟩ := ihvalues hv₁
    obtain ⟨e, hrest', he⟩ := ihrest hv _ (unlined_call ho hr hsame)
    exact ⟨e, .fullCall (Token.isSymbol_of_unlined hl hleft) hvalues'
      ((length_eq_of_unlined hsame).trans_le harity) (Token.isSymbol_of_unlined hr hright) hrest',
      he⟩
  | property hdot hname hrest ih =>
    intro object ho
    obtain ⟨dot, _, rfl, hd, hv⟩ := hv.of_cons
    obtain ⟨name, _, rfl, hn, hv⟩ := hv.of_cons
    obtain ⟨e, hrest', he⟩ := ih hv (.property object name) (congrArg₂ Expr.property ho hn)
    exact ⟨e, .property (Token.isSymbol_of_unlined hd hdot)
      (Token.isIdentifier_of_unlined hn hname) hrest', he⟩
  | lastArgument h ih =>
    obtain ⟨e, h', he⟩ := ih hv
    exact ⟨[e], .lastArgument h', congrArg (fun e => [e]) he⟩
  | argument h hcomma hrest ih ihrest =>
    obtain ⟨v₁, _, rfl, hv₁, hv⟩ := hv.of_append
    obtain ⟨comma, _, rfl, hc, hv⟩ := hv.of_cons
    obtain ⟨e, h', he⟩ := ih hv₁
    obtain ⟨values, hrest', hsame⟩ := ihrest hv
    exact ⟨e :: values, .argument h' (Token.isSymbol_of_unlined hc hcomma) hrest',
      congrArg₂ List.cons he hsame⟩
  | literal h =>
    obtain ⟨t, rfl, ht⟩ := hv.of_singleton
    rw [← Token.kind_eq_of_unlined ht] at h
    exact ⟨_, .literal h, rfl⟩
  | this h =>
    obtain ⟨t, rfl, ht⟩ := hv.of_singleton
    exact ⟨.this ⟨0, t⟩, .this (Token.isKeyword_of_unlined ht h),
      congrArg (fun t => Expr.this ⟨0, t⟩) ht⟩
  | «variable» h =>
    obtain ⟨t, rfl, ht⟩ := hv.of_singleton
    exact ⟨.variable ⟨0, t⟩, .variable (Token.isIdentifier_of_unlined ht h),
      congrArg (fun t => Expr.variable ⟨0, t⟩) ht⟩
  | group hleft hinner hright ih =>
    obtain ⟨left, _, rfl, hl, hv⟩ := hv.of_cons
    obtain ⟨v', right, rfl, hv, hr⟩ := hv.of_concat
    obtain ⟨inner, hinner', hi⟩ := ih hv
    exact ⟨.group inner, .group (Token.isSymbol_of_unlined hl hleft) hinner'
      (Token.isSymbol_of_unlined hr hright), congrArg Expr.group hi⟩
  | super h hdot hmethod =>
    obtain ⟨t, _, rfl, ht, hv⟩ := hv.of_cons
    obtain ⟨dot, _, rfl, hd, hv⟩ := hv.of_cons
    obtain ⟨method, rfl, hm⟩ := hv.of_singleton
    exact ⟨.super ⟨0, t⟩ method, .super (Token.isKeyword_of_unlined ht h)
      (Token.isSymbol_of_unlined hd hdot) (Token.isIdentifier_of_unlined hm hmethod),
      congrArg₂ (fun t => Expr.super ⟨0, t⟩) ht hm⟩

theorem ExprPhrase.Derives.relined {e : Expr} (h : ExprPhrase.expression.Derives w e)
    (hv : SameText w v) : ∃ e', ExprPhrase.expression.Derives v e' ∧ e'.unlined = e.unlined :=
  h.readsAs hv

theorem OptionalExpression.relined {o : Option Expr} (h : OptionalExpression w o)
    (hv : SameText w v) :
    ∃ o', OptionalExpression v o' ∧ o'.map Expr.unlined = o.map Expr.unlined := by
  cases h with
  | none =>
    obtain rfl := hv.of_nil
    exact ⟨Option.none, .none, rfl⟩
  | some h =>
    obtain ⟨e, h', he⟩ := h.relined hv
    exact ⟨Option.some e, .some h', congrArg Option.some he⟩

/-! ### Parts of statements without statements inside -/

theorem VariableDeclaration.relined {s : Stmt} (h : VariableDeclaration w s) (hv : SameText w v) :
    ∃ s', VariableDeclaration v s' ∧ s'.unlined = s.unlined := by
  cases h with
  | plain hvar hname hsemicolon =>
    obtain ⟨var, _, rfl, hr, hv⟩ := hv.of_cons
    obtain ⟨name, _, rfl, hn, hv⟩ := hv.of_cons
    obtain ⟨semicolon, rfl, hs⟩ := hv.of_singleton
    exact ⟨.var name none, .plain (Token.isKeyword_of_unlined hr hvar)
      (Token.isIdentifier_of_unlined hn hname) (Token.isSymbol_of_unlined hs hsemicolon),
      congrArg (Stmt.var · none) hn⟩
  | initialized hvar hname hequals hvalue hsemicolon =>
    obtain ⟨var, _, rfl, hr, hv⟩ := hv.of_cons
    obtain ⟨name, _, rfl, hn, hv⟩ := hv.of_cons
    obtain ⟨equals, _, rfl, he, hv⟩ := hv.of_cons
    obtain ⟨v', semicolon, rfl, hv, hs⟩ := hv.of_concat
    obtain ⟨value, hvalue', hsame⟩ := hvalue.relined hv
    exact ⟨.var name (some value), .initialized (Token.isKeyword_of_unlined hr hvar)
      (Token.isIdentifier_of_unlined hn hname) (Token.isSymbol_of_unlined he hequals) hvalue'
      (Token.isSymbol_of_unlined hs hsemicolon),
      congrArg₂ (fun t e => Stmt.var t (some e)) hn hsame⟩

theorem ExpressionStatement.relined {s : Stmt} (h : ExpressionStatement w s) (hv : SameText w v) :
    ∃ s', ExpressionStatement v s' ∧ s'.unlined = s.unlined := by
  obtain ⟨hvalue, hsemicolon⟩ := h
  obtain ⟨v', semicolon, rfl, hv, hs⟩ := hv.of_concat
  obtain ⟨value, hvalue', hsame⟩ := hvalue.relined hv
  exact ⟨.expression value, .mk hvalue' (Token.isSymbol_of_unlined hs hsemicolon),
    congrArg Stmt.expression hsame⟩

theorem LoopInitializer.relined {o : Option Stmt} (h : LoopInitializer w o) (hv : SameText w v) :
    ∃ o', LoopInitializer v o' ∧ o'.map Stmt.unlined = o.map Stmt.unlined := by
  cases h with
  | none h =>
    obtain ⟨semicolon, rfl, hs⟩ := hv.of_singleton
    exact ⟨Option.none, .none (Token.isSymbol_of_unlined hs h), rfl⟩
  | «variable» h =>
    obtain ⟨s, h', hs⟩ := h.relined hv
    exact ⟨some s, .variable h', congrArg some hs⟩
  | expression h =>
    obtain ⟨s, h', hs⟩ := h.relined hv
    exact ⟨some s, .expression h', congrArg some hs⟩

theorem LoopHeader.relined {clauses : LoopClauses} (h : LoopHeader w clauses)
    (hv : SameText w v) :
    ∃ clauses', LoopHeader v clauses' ∧ clauses'.relabel .unlined = clauses.relabel .unlined := by
  obtain ⟨hinitializer, hcondition, hsemicolon, hincrement⟩ := h
  obtain ⟨_, _, rfl, hv, hv₃⟩ := hv.of_append
  obtain ⟨v₁, v₂, rfl, hv₁, hv₂⟩ := hv.of_append
  obtain ⟨semicolon, v₃, rfl, hs, hv₃⟩ := hv₃.of_cons
  obtain ⟨initializer, hinitializer', hi⟩ := hinitializer.relined hv₁
  obtain ⟨condition, hcondition', hc⟩ := hcondition.relined hv₂
  obtain ⟨increment, hincrement', hn⟩ := hincrement.relined hv₃
  have hclauses := congr (congrArg₂ LoopClauses.mk hi hc) hn
  exact ⟨⟨initializer, condition, increment⟩, .mk hinitializer' hcondition'
    (Token.isSymbol_of_unlined hs hsemicolon) hincrement', hclauses⟩

theorem ParameterNames.relined {names : List Token} (h : ParameterNames w names)
    (hv : SameText w v) : ∃ names', ParameterNames v names' ∧ SameText names names' := by
  induction h generalizing v with
  | last h =>
    obtain ⟨name, rfl, hn⟩ := hv.of_singleton
    exact ⟨[name], .last (Token.isIdentifier_of_unlined hn h), congrArg (fun t => [t]) hn⟩
  | cons h hcomma hrest ih =>
    obtain ⟨name, _, rfl, hn, hv⟩ := hv.of_cons
    obtain ⟨comma, _, rfl, hc, hv⟩ := hv.of_cons
    obtain ⟨names, hrest', hsame⟩ := ih hv
    exact ⟨name :: names, .cons (Token.isIdentifier_of_unlined hn h)
      (Token.isSymbol_of_unlined hc hcomma) hrest', congrArg₂ List.cons hn hsame⟩

theorem ParameterList.relined {names : List Token} (h : ParameterList w names)
    (hv : SameText w v) : ∃ names', ParameterList v names' ∧ SameText names names' := by
  cases h with
  | empty =>
    obtain rfl := hv.of_nil
    exact ⟨[], .empty, rfl⟩
  | names h harity =>
    obtain ⟨names', h', hsame⟩ := h.relined hv
    have hlength : names'.length = names.length := by simpa using congrArg List.length hsame
    exact ⟨names', .names h' (hlength.trans_le harity), hsame⟩

theorem SuperclassClause.relined {o : Option Use} (h : SuperclassClause w o)
    (hv : SameText w v) : ∃ o', SuperclassClause v o' ∧
      o'.map (·.relabel .unlined) = o.map (·.relabel .unlined) := by
  cases h with
  | none =>
    obtain rfl := hv.of_nil
    exact ⟨Option.none, .none, rfl⟩
  | some hless hname =>
    obtain ⟨less, _, rfl, hl, hv⟩ := hv.of_cons
    obtain ⟨name, rfl, hn⟩ := hv.of_singleton
    exact ⟨Option.some ⟨0, name⟩, .some (Token.isSymbol_of_unlined hl hless)
      (Token.isIdentifier_of_unlined hn hname), congrArg (fun t => Option.some (Use.mk 0 t)) hn⟩

/-! ### Statements -/

/-- The tokens are a phrase of the same kind, with the same tree up to lines. -/
def StmtPhrase.ReadsAs (rule : ElseRule) (v : List Token) : (p : StmtPhrase) → p.Tree → Prop
  | .declaration, s => ∃ s', StmtPhrase.declaration.Derives rule v s' ∧ s'.unlined = s.unlined
  | .statement isOpen, s =>
    ∃ s', (StmtPhrase.statement isOpen).Derives rule v s' ∧ s'.unlined = s.unlined
  | .declarations, ss => ∃ ss', StmtPhrase.declarations.Derives rule v ss' ∧
    ss'.map Stmt.unlined = ss.map Stmt.unlined
  | .block, ss => ∃ ss', StmtPhrase.block.Derives rule v ss' ∧
    ss'.map Stmt.unlined = ss.map Stmt.unlined
  | .routine, r => ∃ r', StmtPhrase.routine.Derives rule v r' ∧ r'.unlined = r.unlined
  | .methods, rs => ∃ rs', StmtPhrase.methods.Derives rule v rs' ∧
    rs'.map Routine.unlined = rs.map Routine.unlined

/-- The same tokens on other lines are a phrase of the same kind, with the same tree up to lines. -/
theorem StmtPhrase.Derives.relined {rule : ElseRule} {p : StmtPhrase} {tree : p.Tree}
    (h : p.Derives rule w tree) (hv : SameText w v) : p.ReadsAs rule v tree := by
  induction h generalizing v with
  | noDeclaration =>
    obtain rfl := hv.of_nil
    exact ⟨[], .noDeclaration, rfl⟩
  | declaration h hrest ih ihrest =>
    obtain ⟨v₁, v₂, rfl, hv₁, hv₂⟩ := hv.of_append
    obtain ⟨s, h', hs⟩ := ih hv₁
    obtain ⟨rest, hrest', hsame⟩ := ihrest hv₂
    exact ⟨s :: rest, .declaration h' hrest', congrArg₂ List.cons hs hsame⟩
  | «class» h hname hsuperclass hleft hmethods hright ih =>
    obtain ⟨t, _, rfl, ht, hv⟩ := hv.of_cons
    obtain ⟨name, _, rfl, hn, hv⟩ := hv.of_cons
    obtain ⟨v₁, _, rfl, hv₁, hv⟩ := hv.of_append
    obtain ⟨left, _, rfl, hl, hv⟩ := hv.of_cons
    obtain ⟨v₂, right, rfl, hv₂, hr⟩ := hv.of_concat
    obtain ⟨superclass, hsuperclass', hs⟩ := hsuperclass.relined hv₁
    obtain ⟨methods, hmethods', hm⟩ := ih hv₂
    refine ⟨.class name superclass methods, .class (Token.isKeyword_of_unlined ht h)
      (Token.isIdentifier_of_unlined hn hname) hsuperclass' (Token.isSymbol_of_unlined hl hleft)
      hmethods' (Token.isSymbol_of_unlined hr hright), ?_⟩
    simp only [Stmt.unlined, Stmt.relabel, Routine.relabelAll_eq_map]
    exact congr (congrArg₂ Stmt.class hn hs) hm
  | function h hroutine ih =>
    obtain ⟨t, _, rfl, ht, hv⟩ := hv.of_cons
    obtain ⟨routine, hroutine', hr⟩ := ih hv
    exact ⟨.function routine, .function (Token.isKeyword_of_unlined ht h) hroutine',
      congrArg Stmt.function hr⟩
  | «variable» h =>
    obtain ⟨s, h', hs⟩ := h.relined hv
    exact ⟨s, .variable h', hs⟩
  | statement h ih =>
    obtain ⟨s, h', hs⟩ := ih hv
    exact ⟨s, .statement h', hs⟩
  | noMethod =>
    obtain rfl := hv.of_nil
    exact ⟨[], .noMethod, rfl⟩
  | method h hrest ih ihrest =>
    obtain ⟨v₁, v₂, rfl, hv₁, hv₂⟩ := hv.of_append
    obtain ⟨method, h', hm⟩ := ih hv₁
    obtain ⟨rest, hrest', hsame⟩ := ihrest hv₂
    exact ⟨method :: rest, .method h' hrest', congrArg₂ List.cons hm hsame⟩
  | routine hname hleft hparameters hright hbody ih =>
    obtain ⟨name, _, rfl, hn, hv⟩ := hv.of_cons
    obtain ⟨left, _, rfl, hl, hv⟩ := hv.of_cons
    obtain ⟨v₁, _, rfl, hv₁, hv⟩ := hv.of_append
    obtain ⟨right, _, rfl, hr, hv⟩ := hv.of_cons
    obtain ⟨parameters, hparameters', hp⟩ := hparameters.relined hv₁
    obtain ⟨body, hbody', hb⟩ := ih hv
    refine ⟨⟨name, parameters, body⟩, .routine (Token.isIdentifier_of_unlined hn hname)
      (Token.isSymbol_of_unlined hl hleft) hparameters' (Token.isSymbol_of_unlined hr hright)
      hbody', ?_⟩
    simp only [Routine.unlined, Routine.relabel, Stmt.relabelAll_eq_map]
    exact congr (congrArg₂ Routine.mk hn hp) hb
  | block hleft hbody hright ih =>
    obtain ⟨left, _, rfl, hl, hv⟩ := hv.of_cons
    obtain ⟨v', right, rfl, hv, hr⟩ := hv.of_concat
    obtain ⟨body, hbody', hb⟩ := ih hv
    exact ⟨body, .block (Token.isSymbol_of_unlined hl hleft) hbody'
      (Token.isSymbol_of_unlined hr hright), hb⟩
  | braces h ih =>
    obtain ⟨body, h', hb⟩ := ih hv
    refine ⟨.block body, .braces h', ?_⟩
    simp only [Stmt.unlined, Stmt.relabel, Stmt.relabelAll_eq_map]
    exact congrArg Stmt.block hb
  | expression h =>
    obtain ⟨s, h', hs⟩ := h.relined hv
    exact ⟨s, .expression h', hs⟩
  | print h hvalue hsemicolon =>
    obtain ⟨t, _, rfl, ht, hv⟩ := hv.of_cons
    obtain ⟨v', semicolon, rfl, hv, hs⟩ := hv.of_concat
    obtain ⟨value, hvalue', hsame⟩ := hvalue.relined hv
    exact ⟨.print value, .print (Token.isKeyword_of_unlined ht h) hvalue'
      (Token.isSymbol_of_unlined hs hsemicolon), congrArg Stmt.print hsame⟩
  | «return» h hvalue hsemicolon =>
    obtain ⟨t, _, rfl, ht, hv⟩ := hv.of_cons
    obtain ⟨v', semicolon, rfl, hv, hs⟩ := hv.of_concat
    obtain ⟨value, hvalue', hsame⟩ := hvalue.relined hv
    exact ⟨.return t value, .return (Token.isKeyword_of_unlined ht h) hvalue'
      (Token.isSymbol_of_unlined hs hsemicolon), congrArg₂ Stmt.return ht hsame⟩
  | «while» h hleft hcondition hright hbody ih =>
    obtain ⟨t, _, rfl, ht, hv⟩ := hv.of_cons
    obtain ⟨left, _, rfl, hl, hv⟩ := hv.of_cons
    obtain ⟨v₁, _, rfl, hv₁, hv⟩ := hv.of_append
    obtain ⟨right, _, rfl, hr, hv⟩ := hv.of_cons
    obtain ⟨condition, hcondition', hc⟩ := hcondition.relined hv₁
    obtain ⟨body, hbody', hb⟩ := ih hv
    exact ⟨.while condition body, .while (Token.isKeyword_of_unlined ht h)
      (Token.isSymbol_of_unlined hl hleft) hcondition' (Token.isSymbol_of_unlined hr hright)
      hbody', congrArg₂ Stmt.while hc hb⟩
  | «for» h hleft hclauses hright hbody ih =>
    obtain ⟨t, _, rfl, ht, hv⟩ := hv.of_cons
    obtain ⟨left, _, rfl, hl, hv⟩ := hv.of_cons
    obtain ⟨v₁, _, rfl, hv₁, hv⟩ := hv.of_append
    obtain ⟨right, _, rfl, hr, hv⟩ := hv.of_cons
    obtain ⟨clauses, hclauses', hc⟩ := hclauses.relined hv₁
    obtain ⟨body, hbody', hb⟩ := ih hv
    refine ⟨loopOf clauses body, .for (Token.isKeyword_of_unlined ht h)
      (Token.isSymbol_of_unlined hl hleft) hclauses' (Token.isSymbol_of_unlined hr hright)
      hbody', ?_⟩
    rw [Stmt.unlined, Stmt.unlined, relabel_loopOf, relabel_loopOf]
    exact congrArg₂ loopOf hc hb
  | ifThen h hleft hcondition hright hbranch ih =>
    obtain ⟨t, _, rfl, ht, hv⟩ := hv.of_cons
    obtain ⟨left, _, rfl, hl, hv⟩ := hv.of_cons
    obtain ⟨v₁, _, rfl, hv₁, hv⟩ := hv.of_append
    obtain ⟨right, _, rfl, hr, hv⟩ := hv.of_cons
    obtain ⟨condition, hcondition', hc⟩ := hcondition.relined hv₁
    obtain ⟨branch, hbranch', hb⟩ := ih hv
    exact ⟨.if condition branch none, .ifThen (Token.isKeyword_of_unlined ht h)
      (Token.isSymbol_of_unlined hl hleft) hcondition' (Token.isSymbol_of_unlined hr hright)
      hbranch', congrArg₂ (Stmt.if · · none) hc hb⟩
  | ifElse h hleft hcondition hright hbranch hnearest h' hother ih ihother =>
    obtain ⟨t, _, rfl, ht, hv⟩ := hv.of_cons
    obtain ⟨left, _, rfl, hl, hv⟩ := hv.of_cons
    obtain ⟨v₁, _, rfl, hv₁, hv⟩ := hv.of_append
    obtain ⟨right, _, rfl, hr, hv⟩ := hv.of_cons
    obtain ⟨v₂, _, rfl, hv₂, hv⟩ := hv.of_append
    obtain ⟨t', v₃, rfl, ht', hv₃⟩ := hv.of_cons
    obtain ⟨condition, hcondition', hc⟩ := hcondition.relined hv₁
    obtain ⟨branch, hbranch', hb⟩ := ih hv₂
    obtain ⟨other, hother', ho⟩ := ihother hv₃
    have hif := congr (congrArg₂ (fun c b o => Stmt.if c b (some o)) hc hb) ho
    exact ⟨.if condition branch (some other), .ifElse (Token.isKeyword_of_unlined ht h)
      (Token.isSymbol_of_unlined hl hleft) hcondition' (Token.isSymbol_of_unlined hr hright)
      hbranch' hnearest (Token.isKeyword_of_unlined ht' h') hother', hif⟩

/-! ### Token lists -/

/-- The same tokens on other lines are read as well, and give the same trees up to node numbers and
lines. -/
theorem parse_relined {tokens tokens' : List Token} {body : List Stmt} {firstId : NodeId}
    (h : (parse tokens firstId).result = .ok body) (htokens : SameText tokens tokens')
    (firstId' : NodeId) :
    ∃ body', (parse tokens' firstId').result = .ok body' ∧
      body'.map Stmt.unlined = body.map Stmt.unlined := by
  have htake : SameText (tokens.takeWhile (!·.isEnd)) (tokens'.takeWhile (!·.isEnd)) :=
    htokens.takeWhile fun _ => rfl
  obtain ⟨body₁, hbody₁, hsame⟩ := (derives_of_parse h).relined htake
  obtain ⟨body', hparse, hbody'⟩ := parse_of_derives firstId' hbody₁
  exact ⟨body', hparse, (map_unlined_of_eraseIds hbody').trans hsame⟩

end Grammar

end Treewalk
