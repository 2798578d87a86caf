import Treewalk.Proofs.Grammar.Phrase
import Treewalk.Proofs.Scope.Sites

/-!
# The text of a twin program

Whatever is the tree of some tokens, its twins are the trees of tokens that correspond to these one
by one: they are of the same kind, some lines further down, and spelled the same, except for
identifiers of the old name.

## Main definitions

* `TokenTwin` — two tokens that correspond to each other

## Main results

* `StmtPhrase.Derives.twins` — the tokens of a twin program
-/

namespace Treewalk

variable {r : Edit}

/-- The second token is the first one, some lines further down, and maybe spelled in the new way. -/
structure TokenTwin (r : Edit) (t t' : Token) : Prop where
  kind_eq : t'.kind = t.kind
  line_eq : t'.line = t.line + r.lines
  lexeme_eq : t'.lexeme = t.lexeme ∨ t.isIdentifier ∧ t.lexeme = r.old ∧ t'.lexeme = r.new

namespace TokenTwin

variable {t t' : Token}

theorem down (r : Edit) (t : Token) : TokenTwin r t (t.down r.lines) := ⟨rfl, rfl, .inl rfl⟩

theorem isIdentifier (h : TokenTwin r t t') (ht : t.isIdentifier) : t'.isIdentifier := by
  rwa [Token.isIdentifier, h.kind_eq]

theorem isKeyword (h : TokenTwin r t t') {k : Keyword} (ht : t.isKeyword k) : t'.isKeyword k := by
  rwa [Token.isKeyword, h.kind_eq]

end TokenTwin

/-- Two lists of tokens that correspond to each other. -/
abbrev TokensTwin (r : Edit) : List Token → List Token → Prop := List.Forall₂ (TokenTwin r)

theorem tokensTwin_append {w₁ w₁' w₂ w₂' : List Token} (h : TokensTwin r w₁ w₁')
    (h' : TokensTwin r w₂ w₂') : TokensTwin r (w₁ ++ w₂) (w₁' ++ w₂') :=
  List.rel_append h h'

theorem exists_tokenTwin {w w' : List Token} (h : TokensTwin r w w') {t' : Token} (ht' : t' ∈ w') :
    ∃ t ∈ w, TokenTwin r t t' := by
  induction h with
  | nil => cases ht'
  | cons hfirst _ ih =>
    obtain rfl | ht' := List.mem_cons.1 ht'
    · exact ⟨_, .head _, hfirst⟩
    · obtain ⟨t, ht, htwin⟩ := ih ht'
      exact ⟨t, .tail _ ht, htwin⟩

theorem Respelling.Spells.lexeme_eq {b : Bool} {t t' : Token}
    (h : r.Spells b t.lexeme t'.lexeme) (ht : t.lexeme = r.old → t.isIdentifier) :
    t'.lexeme = t.lexeme ∨ t.isIdentifier ∧ t.lexeme = r.old ∧ t'.lexeme = r.new := by
  rw [h.1, spell]
  split
  · next hold => exact .inr ⟨ht hold.2, hold.2, rfl⟩
  · exact .inl rfl

theorem DeclaresTwins.tokenTwin {marks : List Bool} {name name' : Token}
    (h : DeclaresTwins r marks name name') (hname : name.isIdentifier) : TokenTwin r name name' :=
  ⟨h.kind_eq, h.line_eq, h.spells.lexeme_eq fun _ => hname⟩

theorem Paired.tokenTwin {kind : OccurrenceKind} {site : Site} {marks : List Bool}
    {use use' : Use} (h : Paired r kind site marks use use')
    (hname : use.token.lexeme = r.old → use.token.isIdentifier) :
    TokenTwin r use.token use'.token :=
  ⟨h.kind_eq, h.line_eq, h.spells.lexeme_eq hname⟩

theorem Expr.TwinAll.length_eq {U : UseRelation} {site : Site} {marks : List Bool}
    {es es' : List Expr} (h : Expr.TwinAll r U site marks es es') : es'.length = es.length := by
  induction es generalizing es' with
  | nil =>
    cases h
    rfl
  | cons e es ih =>
    cases h with
    | cons _ hrest => exact congrArg (· + 1) (ih hrest)

namespace Grammar

variable {site : Site} {marks : List Bool} {w : List Token}

/-! ### Expressions -/

/-- A tree that is the text of corresponding tokens. The twin of what is built behind an operand or
an object is built behind a twin of this operand or object. -/
def ExprPhrase.HasTwins (r : Edit) (site : Site) (marks : List Bool) (w : List Token) :
    (p : ExprPhrase) → p.Tree → Prop
  | .operators level left, e => ∀ e', Expr.Twin r (Paired r) site marks e e' →
    ∃ left' w', Expr.Twin r (Paired r) site marks left left' ∧ TokensTwin r w w' ∧
      (ExprPhrase.operators level left').Derives w' e'
  | .accesses left, e => ∀ e', Expr.Twin r (Paired r) site marks e e' →
    ∃ left' w', Expr.Twin r (Paired r) site marks left left' ∧ TokensTwin r w w' ∧
      (ExprPhrase.accesses left').Derives w' e'
  | .arguments, es => ∀ es', Expr.TwinAll r (Paired r) site marks es es' →
    ∃ w', TokensTwin r w w' ∧ ExprPhrase.arguments.Derives w' es'
  | .expression, e => ∀ e', Expr.Twin r (Paired r) site marks e e' →
    ∃ w', TokensTwin r w w' ∧ ExprPhrase.expression.Derives w' e'
  | .operand level, e => ∀ e', Expr.Twin r (Paired r) site marks e e' →
    ∃ w', TokensTwin r w w' ∧ (ExprPhrase.operand level).Derives w' e'
  | .call, e => ∀ e', Expr.Twin r (Paired r) site marks e e' →
    ∃ w', TokensTwin r w w' ∧ ExprPhrase.call.Derives w' e'
  | .primary, e => ∀ e', Expr.Twin r (Paired r) site marks e e' →
    ∃ w', TokensTwin r w w' ∧ ExprPhrase.primary.Derives w' e'

theorem Level.twin_combine {level : Level} {left right e' : Expr} {operator : Token}
    (h : Expr.Twin r (Paired r) site marks (level.combine left operator right) e') :
    ∃ left' right', Expr.Twin r (Paired r) site marks left left' ∧
      Expr.Twin r (Paired r) site marks right right' ∧
      e' = level.combine left' (operator.down r.lines) right' := by
  cases level <;> cases h <;> exact ⟨_, _, ‹_›, ‹_›, rfl⟩

theorem ExprPhrase.Derives.twins (hr : r.Fair) {p : ExprPhrase} {e : p.Tree} (h : p.Derives w e) :
    p.HasTwins r site marks w e := by
  induction h with
  | assignVariable hname hequals hvalue ih =>
    intro e' he
    cases he with
    | assign huse hv =>
      obtain ⟨w', hw', hvalue'⟩ := ih _ hv
      have htoken := huse.tokenTwin fun _ => hname
      exact ⟨_, .cons htoken (.cons (.down r _) hw'),
        .assignVariable (htoken.isIdentifier hname) hequals hvalue'⟩
  | assignProperty hobject hdot hname hequals hvalue ih ih' =>
    intro e' he
    cases he with
    | setProperty ho hv =>
      obtain ⟨w₁', hw₁', hobject'⟩ := ih _ ho
      obtain ⟨w₂', hw₂', hvalue'⟩ := ih' _ hv
      exact ⟨_, tokensTwin_append hw₁' (.cons (.down r _) (.cons (.down r _)
        (.cons (.down r _) hw₂'))), .assignProperty hobject' hdot hname hequals hvalue'⟩
  | loosest h ih =>
    intro e' he
    obtain ⟨w', hw', h'⟩ := ih _ he
    exact ⟨w', hw', .loosest h'⟩
  | operation hleft hrest ih ih' =>
    intro e' he
    obtain ⟨left', w₂', htwin, hw₂', hrest'⟩ := ih' _ he
    obtain ⟨w₁', hw₁', hleft'⟩ := ih _ htwin
    exact ⟨_, tokensTwin_append hw₁' hw₂', .operation hleft' hrest'⟩
  | noOperator => exact fun e' he => ⟨e', [], he, .nil, .noOperator⟩
  | operator hoperator hright hrest ih ih' =>
    intro e' he
    obtain ⟨combined, w₂', htwin, hw₂', hrest'⟩ := ih' _ he
    obtain ⟨left', right', hl, hr', rfl⟩ := Level.twin_combine htwin
    obtain ⟨w₁', hw₁', hright'⟩ := ih _ hr'
    exact ⟨left', _, hl, .cons (.down r _) (tokensTwin_append hw₁' hw₂'),
      .operator hoperator hright' hrest'⟩
  | unary hoperator hoperand ih =>
    intro e' he
    cases he with
    | unary h =>
      obtain ⟨w', hw', hoperand'⟩ := ih _ h
      exact ⟨_, .cons (.down r _) hw', .unary hoperator hoperand'⟩
  | plain h ih =>
    intro e' he
    obtain ⟨w', hw', h'⟩ := ih _ he
    exact ⟨w', hw', .plain h'⟩
  | call hcallee hrest ih ih' =>
    intro e' he
    obtain ⟨callee', w₂', htwin, hw₂', hrest'⟩ := ih' _ he
    obtain ⟨w₁', hw₁', hcallee'⟩ := ih _ htwin
    exact ⟨_, tokensTwin_append hw₁' hw₂', .call hcallee' hrest'⟩
  | noAccess => exact fun e' he => ⟨e', [], he, .nil, .noAccess⟩
  | emptyCall hleft hright hrest ih =>
    intro e' he
    obtain ⟨object', w', htwin, hw', hrest'⟩ := ih _ he
    cases htwin with
    | call hcallee harguments =>
      cases harguments
      exact ⟨_, _, hcallee, .cons (.down r _) (.cons (.down r _) hw'),
        .emptyCall hleft hright hrest'⟩
  | fullCall hleft hvalues harity hright hrest ih ih' =>
    intro e' he
    obtain ⟨object', w₂', htwin, hw₂', hrest'⟩ := ih' _ he
    cases htwin with
    | call hcallee harguments =>
      obtain ⟨w₁', hw₁', hvalues'⟩ := ih _ harguments
      have harity' := harguments.length_eq.trans_le harity
      exact ⟨_, _, hcallee, .cons (.down r _) (tokensTwin_append hw₁' (.cons (.down r _) hw₂')),
        .fullCall hleft hvalues' harity' hright hrest'⟩
  | property hdot hname hrest ih =>
    intro e' he
    obtain ⟨object', w', htwin, hw', hrest'⟩ := ih _ he
    cases htwin with
    | property hobject =>
      exact ⟨_, _, hobject, .cons (.down r _) (.cons (.down r _) hw'),
        .property hdot hname hrest'⟩
  | lastArgument h ih =>
    intro es' hes
    cases hes with
    | cons he hrest =>
      cases hrest
      obtain ⟨w', hw', h'⟩ := ih _ he
      exact ⟨w', hw', .lastArgument h'⟩
  | argument h hcomma hrest ih ih' =>
    intro es' hes
    cases hes with
    | cons he hes =>
      obtain ⟨w₁', hw₁', h'⟩ := ih _ he
      obtain ⟨w₂', hw₂', hrest'⟩ := ih' _ hes
      exact ⟨_, tokensTwin_append hw₁' (.cons (.down r _) hw₂'), .argument h' hcomma hrest'⟩
  | @literal t value h =>
    intro e' he
    cases he
    exact ⟨_, .cons (.down r t) .nil, .literal h⟩
  | this h =>
    intro e' he
    cases he with
    | this huse =>
      have htoken := huse.tokenTwin fun hold =>
        absurd (hold.symm.trans (huse.names.this_eq rfl)) hr.old_ne_this
      exact ⟨_, .cons htoken .nil, .this (htoken.isKeyword h)⟩
  | «variable» h =>
    intro e' he
    cases he with
    | «variable» huse =>
      have htoken := huse.tokenTwin fun _ => h
      exact ⟨_, .cons htoken .nil, .variable (htoken.isIdentifier h)⟩
  | group hleft hinner hright ih =>
    intro e' he
    cases he with
    | group h =>
      obtain ⟨w', hw', hinner'⟩ := ih _ h
      exact ⟨_, .cons (.down r _) (tokensTwin_append hw' (.cons (.down r _) .nil)),
        .group hleft hinner' hright⟩
  | super h hdot hmethod =>
    intro e' he
    cases he with
    | super huse =>
      have htoken := huse.tokenTwin fun hold =>
        absurd (hold.symm.trans (huse.names.super_eq rfl)) hr.old_ne_super
      exact ⟨_, .cons htoken (.cons (.down r _) (.cons (.down r _) .nil)),
        .super (htoken.isKeyword h) hdot hmethod⟩

theorem OptionalExpression.twins (hr : r.Fair) {o o' : Option Expr} (h : OptionalExpression w o)
    (ho : Option.Rel (Expr.Twin r (Paired r) site marks) o o') :
    ∃ w', TokensTwin r w w' ∧ OptionalExpression w' o' := by
  cases h with
  | none =>
    cases ho
    exact ⟨[], .nil, .none⟩
  | some h =>
    cases ho with
    | some he =>
      obtain ⟨w', hw', h'⟩ := h.twins hr _ he
      exact ⟨w', hw', .some h'⟩

/-! ### Statements -/

theorem VariableDeclaration.twins (hr : r.Fair) {s s' : Stmt} (h : VariableDeclaration w s)
    (hs : Stmt.Twin r (Paired r) site marks s s') :
    ∃ w', TokensTwin r w w' ∧ VariableDeclaration w' s' := by
  cases h with
  | plain hvar hname hsemicolon =>
    cases hs with
    | declaration hdeclares =>
      have htoken := hdeclares.tokenTwin hname
      exact ⟨_, .cons (.down r _) (.cons htoken (.cons (.down r _) .nil)),
        .plain hvar (htoken.isIdentifier hname) hsemicolon⟩
  | initialized hvar hname hequals hvalue hsemicolon =>
    cases hs with
    | definition hdeclares hv =>
      have htoken := hdeclares.tokenTwin hname
      obtain ⟨w', hw', hvalue'⟩ := hvalue.twins hr _ hv
      exact ⟨_, .cons (.down r _) (.cons htoken (.cons (.down r _)
        (tokensTwin_append hw' (.cons (.down r _) .nil)))),
        .initialized hvar (htoken.isIdentifier hname) hequals hvalue' hsemicolon⟩

theorem ExpressionStatement.twins (hr : r.Fair) {s s' : Stmt} (h : ExpressionStatement w s)
    (hs : Stmt.Twin r (Paired r) site marks s s') :
    ∃ w', TokensTwin r w w' ∧ ExpressionStatement w' s' := by
  cases h with
  | mk hvalue hsemicolon =>
    cases hs with
    | expression hv =>
      obtain ⟨w', hw', hvalue'⟩ := hvalue.twins hr _ hv
      exact ⟨_, tokensTwin_append hw' (.cons (.down r _) .nil), .mk hvalue' hsemicolon⟩

theorem LoopInitializer.twins (hr : r.Fair) {o o' : Option Stmt} (h : LoopInitializer w o)
    (ho : Option.Rel (Stmt.Twin r (Paired r) site marks) o o') :
    ∃ w', TokensTwin r w w' ∧ LoopInitializer w' o' := by
  cases h with
  | none h =>
    cases ho
    exact ⟨_, .cons (.down r _) .nil, .none h⟩
  | «variable» h =>
    cases ho with
    | some hs =>
      obtain ⟨w', hw', h'⟩ := h.twins hr hs
      exact ⟨w', hw', .variable h'⟩
  | expression h =>
    cases ho with
    | some hs =>
      obtain ⟨w', hw', h'⟩ := h.twins hr hs
      exact ⟨w', hw', .expression h'⟩

theorem ParameterNames.twins {names names' : List Token} (h : ParameterNames w names)
    (hnames : List.Forall₂ (DeclaresTwins r marks) names names') :
    ∃ w', TokensTwin r w w' ∧ ParameterNames w' names' := by
  induction h generalizing names' with
  | last h =>
    obtain _ | ⟨hname, hrest⟩ := hnames
    cases hrest
    have htoken := hname.tokenTwin h
    exact ⟨_, .cons htoken .nil, .last (htoken.isIdentifier h)⟩
  | cons h hcomma hrest ih =>
    obtain _ | ⟨hname, hnames⟩ := hnames
    have htoken := hname.tokenTwin h
    obtain ⟨w', hw', hrest'⟩ := ih hnames
    exact ⟨_, .cons htoken (.cons (.down r _) hw'), .cons (htoken.isIdentifier h) hcomma hrest'⟩

theorem ParameterList.twins {names names' : List Token} (h : ParameterList w names)
    (hnames : List.Forall₂ (DeclaresTwins r marks) names names') :
    ∃ w', TokensTwin r w w' ∧ ParameterList w' names' := by
  cases h with
  | empty =>
    cases hnames
    exact ⟨[], .nil, .empty⟩
  | names h harity =>
    obtain ⟨w', hw', h'⟩ := h.twins hnames
    exact ⟨w', hw', .names h' (hnames.length_eq ▸ harity)⟩

theorem SuperclassClause.twins {superclass superclass' : Option Use} {name : Token}
    (h : SuperclassClause w superclass)
    (hclause : SuperclassTwin (Paired r) site marks name superclass superclass') :
    ∃ w', TokensTwin r w w' ∧ SuperclassClause w' superclass' := by
  cases h with
  | none =>
    cases hclause
    exact ⟨[], .nil, .none⟩
  | some hless hname =>
    cases hclause with
    | some huse hne =>
      have htoken := huse.tokenTwin fun _ => hname
      exact ⟨_, .cons (.down r _) (.cons htoken .nil), .some hless (htoken.isIdentifier hname)⟩

/-- The clauses of two `for` loops are twins, each at its place. -/
structure ClausesTwin (r : Edit) (clauses clauses' : LoopClauses) : Prop where
  initializer : ∃ site marks, Option.Rel (Stmt.Twin r (Paired r) site marks) clauses.initializer
    clauses'.initializer
  condition : ∃ site marks, Option.Rel (Expr.Twin r (Paired r) site marks) clauses.condition
    clauses'.condition
  increment : ∃ site marks, Option.Rel (Expr.Twin r (Paired r) site marks) clauses.increment
    clauses'.increment

/-- A missing condition stays missing: the literal that stands for it is its own twin. -/
theorem twin_getD {condition : Option Expr} {e' : Expr}
    (h : Expr.Twin r (Paired r) site marks (condition.getD (.literal (.boolean true))) e') :
    ∃ condition' : Option Expr, e' = condition'.getD (.literal (.boolean true)) ∧
      Option.Rel (Expr.Twin r (Paired r) site marks) condition condition' := by
  cases condition with
  | none =>
    cases h
    exact ⟨none, rfl, .none⟩
  | some condition => exact ⟨some e', rfl, .some h⟩

/-- A twin of a loop without an initializer. -/
theorem twin_whileOf {condition increment : Option Expr} {body s' : Stmt}
    (h : Stmt.Twin r (Paired r) site marks (loopOf ⟨none, condition, increment⟩ body) s') :
    ∃ condition' increment' body', s' = loopOf ⟨none, condition', increment'⟩ body' ∧
      (∃ site marks, Option.Rel (Expr.Twin r (Paired r) site marks) condition condition') ∧
      (∃ site marks, Option.Rel (Expr.Twin r (Paired r) site marks) increment increment') ∧
      ∃ site marks, Stmt.Twin r (Paired r) site marks body body' := by
  cases increment with
  | none =>
    cases h with
    | «while» hcondition htwin hb =>
      obtain ⟨condition', rfl, hcondition'⟩ := twin_getD hcondition
      exact ⟨condition', none, _, rfl, ⟨_, _, hcondition'⟩, ⟨site, marks, .none⟩, _, _, htwin⟩
  | some increment =>
    cases h with
    | «while» hcondition htwin hb =>
      obtain ⟨condition', rfl, hcondition'⟩ := twin_getD hcondition
      cases htwin with
      | block mark hmark hall =>
        obtain _ | ⟨hfirst, _ | ⟨hsecond, hnil⟩⟩ := hall
        cases hnil
        cases hsecond with
        | expression he =>
          exact ⟨condition', some _, _, rfl, ⟨_, _, hcondition'⟩, ⟨_, _, .some he⟩, _, _, hfirst⟩

/-- A twin of a loop is the loop of twins of its clauses and its body. -/
theorem twin_loopOf {clauses : LoopClauses} {body s' : Stmt}
    (h : Stmt.Twin r (Paired r) site marks (loopOf clauses body) s') :
    ∃ clauses' body', s' = loopOf clauses' body' ∧ ClausesTwin r clauses clauses' ∧
      ∃ site marks, Stmt.Twin r (Paired r) site marks body body' := by
  obtain ⟨initializer, condition, increment⟩ := clauses
  cases initializer with
  | none =>
    obtain ⟨condition', increment', body', rfl, hcondition, hincrement, hbody⟩ := twin_whileOf h
    exact ⟨⟨none, condition', increment'⟩, body', rfl,
      ⟨⟨site, marks, .none⟩, hcondition, hincrement⟩, hbody⟩
  | some initializer =>
    cases h with
    | block mark hmark hall =>
      obtain _ | ⟨hfirst, _ | ⟨hloop, hnil⟩⟩ := hall
      cases hnil
      obtain ⟨condition', increment', body', rfl, hcondition, hincrement, hbody⟩ :=
        twin_whileOf hloop
      exact ⟨⟨some _, condition', increment'⟩, body', rfl,
        ⟨⟨_, _, .some hfirst⟩, hcondition, hincrement⟩, hbody⟩

theorem LoopHeader.twins (hr : r.Fair) {clauses clauses' : LoopClauses} (h : LoopHeader w clauses)
    (hclauses : ClausesTwin r clauses clauses') :
    ∃ w', TokensTwin r w w' ∧ LoopHeader w' clauses' := by
  obtain ⟨⟨_, _, hinitializer⟩, ⟨_, _, hcondition⟩, ⟨_, _, hincrement⟩⟩ := hclauses
  cases h with
  | mk hinit hcond hsemicolon hincr =>
    obtain ⟨w₁', hw₁', h₁⟩ := hinit.twins hr hinitializer
    obtain ⟨w₂', hw₂', h₂⟩ := hcond.twins hr hcondition
    obtain ⟨w₃', hw₃', h₃⟩ := hincr.twins hr hincrement
    exact ⟨_, tokensTwin_append (tokensTwin_append hw₁' hw₂') (.cons (.down r _) hw₃'),
      .mk h₁ h₂ hsemicolon h₃⟩

/-- A tree whose twins, at whatever places, are the text of corresponding tokens. -/
def StmtPhrase.HasTwins (r : Edit) (rule : ElseRule) (w : List Token) :
    (p : StmtPhrase) → p.Tree → Prop
  | .declaration, s => ∀ site marks s', Stmt.Twin r (Paired r) site marks s s' →
    ∃ w', TokensTwin r w w' ∧ StmtPhrase.declaration.Derives rule w' s'
  | .statement isOpen, s => ∀ site marks s', Stmt.Twin r (Paired r) site marks s s' →
    ∃ w', TokensTwin r w w' ∧ (StmtPhrase.statement isOpen).Derives rule w' s'
  | .declarations, ss => ∀ site marks ss', Stmt.TwinAll r (Paired r) site marks ss ss' →
    ∃ w', TokensTwin r w w' ∧ StmtPhrase.declarations.Derives rule w' ss'
  | .block, ss => ∀ site marks ss', Stmt.TwinAll r (Paired r) site marks ss ss' →
    ∃ w', TokensTwin r w w' ∧ StmtPhrase.block.Derives rule w' ss'
  | .routine, f => ∀ site marks context f', Routine.Twin r (Paired r) site marks context f f' →
    ∃ w', TokensTwin r w w' ∧ StmtPhrase.routine.Derives rule w' f'
  | .methods, fs => ∀ site marks fs', MethodsTwin r (Paired r) site marks fs fs' →
    ∃ w', TokensTwin r w w' ∧ StmtPhrase.methods.Derives rule w' fs'

theorem StmtPhrase.Derives.twins (hr : r.Fair) {rule : ElseRule} {p : StmtPhrase} {tree : p.Tree}
    (h : p.Derives rule w tree) : p.HasTwins r rule w tree := by
  induction h with
  | noDeclaration =>
    intro site marks ss' hss
    cases hss
    exact ⟨[], .nil, .noDeclaration⟩
  | declaration h hrest ih ih' =>
    intro site marks ss' hss
    cases hss with
    | cons hs hss =>
      obtain ⟨w₁', hw₁', h₁⟩ := ih _ _ _ hs
      obtain ⟨w₂', hw₂', h₂⟩ := ih' _ _ _ hss
      exact ⟨_, tokensTwin_append hw₁' hw₂', .declaration h₁ h₂⟩
  | «class» h hname hsuperclass hleft hmethods hright ih =>
    intro site marks s' hs
    cases hs with
    | «class» hdeclares hclause htwins =>
      obtain ⟨w₁', hw₁', h₁⟩ := hsuperclass.twins hclause
      obtain ⟨w₂', hw₂', h₂⟩ := ih _ _ _ htwins
      exact ⟨_, .cons (.down r _) (.cons (.down r _) (tokensTwin_append hw₁' (.cons (.down r _)
        (tokensTwin_append hw₂' (.cons (.down r _) .nil))))), .class h hname h₁ hleft h₂ hright⟩
  | function h hroutine ih =>
    intro site marks s' hs
    cases hs with
    | function hdeclares htwin =>
      obtain ⟨w', hw', h'⟩ := ih _ _ _ _ htwin
      exact ⟨_, .cons (.down r _) hw', .function h h'⟩
  | «variable» h =>
    intro site marks s' hs
    obtain ⟨w', hw', h'⟩ := h.twins hr hs
    exact ⟨w', hw', .variable h'⟩
  | statement h ih =>
    intro site marks s' hs
    obtain ⟨w', hw', h'⟩ := ih _ _ _ hs
    exact ⟨w', hw', .statement h'⟩
  | noMethod =>
    intro site marks fs' hfs
    cases hfs
    exact ⟨[], .nil, .noMethod⟩
  | method h hrest ih ih' =>
    intro site marks fs' hfs
    cases hfs with
    | cons hf hfs =>
      obtain ⟨w₁', hw₁', h₁⟩ := ih _ _ _ _ hf
      obtain ⟨w₂', hw₂', h₂⟩ := ih' _ _ _ hfs
      exact ⟨_, tokensTwin_append hw₁' hw₂', .method h₁ h₂⟩
  | routine hname hleft hparameters hright hbody ih =>
    intro site marks context f' hf
    cases hf with
    | mk mark hmark hnames hss =>
      obtain ⟨w₁', hw₁', h₁⟩ := hparameters.twins hnames
      obtain ⟨w₂', hw₂', h₂⟩ := ih _ _ _ hss
      exact ⟨_, .cons (.down r _) (.cons (.down r _) (tokensTwin_append hw₁'
        (.cons (.down r _) hw₂'))), .routine hname hleft h₁ hright h₂⟩
  | block hleft hbody hright ih =>
    intro site marks ss' hss
    obtain ⟨w', hw', h'⟩ := ih _ _ _ hss
    exact ⟨_, .cons (.down r _) (tokensTwin_append hw' (.cons (.down r _) .nil)),
      .block hleft h' hright⟩
  | braces h ih =>
    intro site marks s' hs
    cases hs with
    | block mark hmark hss =>
      obtain ⟨w', hw', h'⟩ := ih _ _ _ hss
      exact ⟨w', hw', .braces h'⟩
  | expression h =>
    intro site marks s' hs
    obtain ⟨w', hw', h'⟩ := h.twins hr hs
    exact ⟨w', hw', .expression h'⟩
  | print h hvalue hsemicolon =>
    intro site marks s' hs
    cases hs with
    | print hv =>
      obtain ⟨w', hw', hvalue'⟩ := hvalue.twins hr _ hv
      exact ⟨_, .cons (.down r _) (tokensTwin_append hw' (.cons (.down r _) .nil)),
        .print h hvalue' hsemicolon⟩
  | «return» h hvalue hsemicolon =>
    intro site marks s' hs
    cases hvalue with
    | none =>
      cases hs
      exact ⟨_, .cons (.down r _) (tokensTwin_append .nil (.cons (.down r _) .nil)),
        .return h .none hsemicolon⟩
    | some hvalue =>
      cases hs with
      | returnValue hv =>
        obtain ⟨w', hw', hvalue'⟩ := hvalue.twins hr _ hv
        exact ⟨_, .cons (.down r _) (tokensTwin_append hw' (.cons (.down r _) .nil)),
          .return h (.some hvalue') hsemicolon⟩
  | «while» h hleft hcondition hright hbody ih =>
    intro site marks s' hs
    cases hs with
    | «while» hc hb _ =>
      obtain ⟨w₁', hw₁', h₁⟩ := hcondition.twins hr _ hc
      obtain ⟨w₂', hw₂', h₂⟩ := ih _ _ _ hb
      exact ⟨_, .cons (.down r _) (.cons (.down r _) (tokensTwin_append hw₁'
        (.cons (.down r _) hw₂'))), .while h hleft h₁ hright h₂⟩
  | «for» h hleft hclauses hright hbody ih =>
    intro site marks s' hs
    obtain ⟨clauses', body', rfl, htwins, _, _, hb⟩ := twin_loopOf hs
    obtain ⟨w₁', hw₁', h₁⟩ := hclauses.twins hr htwins
    obtain ⟨w₂', hw₂', h₂⟩ := ih _ _ _ hb
    exact ⟨_, .cons (.down r _) (.cons (.down r _) (tokensTwin_append hw₁'
      (.cons (.down r _) hw₂'))), .for h hleft h₁ hright h₂⟩
  | ifThen h hleft hcondition hright hbranch ih =>
    intro site marks s' hs
    cases hs with
    | ifThen hc hb _ =>
      obtain ⟨w₁', hw₁', h₁⟩ := hcondition.twins hr _ hc
      obtain ⟨w₂', hw₂', h₂⟩ := ih _ _ _ hb
      exact ⟨_, .cons (.down r _) (.cons (.down r _) (tokensTwin_append hw₁'
        (.cons (.down r _) hw₂'))), .ifThen h hleft h₁ hright h₂⟩
  | ifElse h hleft hcondition hright hbranch hnearest h' hother ih ih' =>
    intro site marks s' hs
    cases hs with
    | ifElse hc hb _ ho _ =>
      obtain ⟨w₁', hw₁', h₁⟩ := hcondition.twins hr _ hc
      obtain ⟨w₂', hw₂', h₂⟩ := ih _ _ _ hb
      obtain ⟨w₃', hw₃', h₃⟩ := ih' _ _ _ ho
      exact ⟨_, .cons (.down r _) (.cons (.down r _) (tokensTwin_append hw₁' (.cons (.down r _)
        (tokensTwin_append hw₂' (.cons (.down r _) hw₃'))))),
        .ifElse h hleft h₁ hright h₂ hnearest h' h₃⟩

/-- The tokens of a twin program. -/
theorem derives_twin (hr : r.Fair) {program program' : List Stmt}
    (h : StmtPhrase.declarations.Derives .nearest w program)
    (htwin : Stmt.TwinAll r (Paired r) .top [] program program') :
    ∃ w', TokensTwin r w w' ∧ StmtPhrase.declarations.Derives .nearest w' program' :=
  h.twins hr _ _ _ htwin

/-- If no name is replaced, the tokens of a twin program are those of the program, further down. -/
theorem tokensTwin_eq {w w' : List Token} (hold : r.old = r.new) (h : TokensTwin r w w') :
    w' = w.map (·.down r.lines) := by
  induction h with
  | nil => rfl
  | @cons t t' rest rest' ht hrest ih =>
    obtain ⟨kind, lexeme, line⟩ := t'
    obtain ⟨rfl, rfl, hlexeme⟩ := ht
    obtain rfl : lexeme = t.lexeme := by
      obtain h | ⟨-, h, h'⟩ := hlexeme
      · exact h
      · exact h'.trans (hold.symm.trans h.symm)
    rw [ih]
    rfl

end Grammar

end Treewalk
