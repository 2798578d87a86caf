import Treewalk.Proofs.Grammar.Phrase
import Treewalk.Proofs.Lexing.Munch
import Treewalk.Proofs.Tree.Each
import Treewalk.Proofs.Tree.Relabel

/-!
# The spelling of a tree

Every token of the tree of a program is of a kind that belongs where it stands, and its text is one
that spells this kind. So the text of a token tells its kind, and the kind of a symbol or a keyword
tells its text. A tree by itself may have any tokens, but that of a program takes them from a source
text.

## Main definitions

* `Token.Spells` — a token with a property, whose text spells its kind
* `Expr.Spelled`, `Stmt.Spelled` — the tokens of a tree

## Main results

* `Token.Spells.unlined_eq` — tokens with the same text
* `Grammar.StmtPhrase.Derives.spelled` — the tokens of the tree of a phrase
-/

namespace Treewalk

open Grammar

/-- The token has a property, and its text is one that spells its kind. -/
structure Token.Spells (p : Token → Bool) (t : Token) : Prop where
  holds : p t
  lexeme : Lexeme t.kind t.lexeme.toList

/-! ### The texts of tokens -/

section Texts

variable {text : List Char} {t t' : Token} {p p' : Token → Bool}

theorem Lexeme.eq_of_symbol {s : Symbol} (h : Lexeme (.symbol s) text) :
    text = s.spelling.toList := by
  cases h with
  | symbol => rfl
  | number h => cases h

theorem Lexeme.eq_of_keyword {k : Keyword} (h : Lexeme (.keyword k) text) :
    text = k.spelling.toList := by
  cases h with
  | keyword => rfl
  | number h => cases h

theorem Lexeme.number_of_number {value : Float} (h : Lexeme (.number value) text) :
    Number (.number value) text := by
  cases h with
  | number h => exact h

namespace Token.Spells

/-- Tokens with the same text are of the same kind. -/
theorem unlined_eq (h : t.Spells p) (h' : t'.Spells p') (heq : t.lexeme = t'.lexeme) :
    t.unlined = t'.unlined := by
  obtain ⟨kind, lexeme, line⟩ := t
  obtain ⟨kind', lexeme', line'⟩ := t'
  obtain rfl : lexeme = lexeme' := heq
  obtain rfl : kind = kind' := h'.lexeme.kind_unique h.lexeme
  rfl

theorem lexeme_eq_of_symbol {s : Symbol} (h : t.Spells p) (hkind : t.kind = .symbol s) :
    t.lexeme = s.spelling :=
  String.toList_inj.1 (Lexeme.eq_of_symbol (hkind ▸ h.lexeme))

theorem lexeme_eq_of_keyword {k : Keyword} (h : t.Spells p) (hkind : t.kind = .keyword k) :
    t.lexeme = k.spelling :=
  String.toList_inj.1 (Lexeme.eq_of_keyword (hkind ▸ h.lexeme))

theorem unlined_of_symbol {s : Symbol} (h : t.Spells (·.isSymbol s)) :
    t.unlined = ⟨.symbol s, s.spelling, 0⟩ := by
  have hkind : t.kind = .symbol s := of_decide_eq_true h.holds
  rw [Token.unlined, hkind, h.lexeme_eq_of_symbol hkind]

theorem unlined_of_keyword {k : Keyword} (h : t.Spells (·.isKeyword k)) :
    t.unlined = ⟨.keyword k, k.spelling, 0⟩ := by
  have hkind : t.kind = .keyword k := of_decide_eq_true h.holds
  rw [Token.unlined, hkind, h.lexeme_eq_of_keyword hkind]

end Token.Spells

/-- The operators of a level. -/
def Grammar.Level.spellings : Level → List String
  | disjunction => ["or"]
  | conjunction => ["and"]
  | equality => ["!=", "=="]
  | comparison => [">", ">=", "<", "<="]
  | term => ["-", "+"]
  | factor => ["/", "*"]

theorem Token.Spells.mem_spellings {level : Level} (h : t.Spells level.holds) :
    t.lexeme ∈ level.spellings := by
  have hkind := Level.holds_iff.1 h.holds
  cases level with
  | disjunction | conjunction =>
    rw [h.lexeme_eq_of_keyword hkind]
    decide
  | equality | term | factor =>
    obtain hkind | hkind := hkind
    all_goals
      rw [h.lexeme_eq_of_symbol hkind]
      decide
  | comparison =>
    obtain hkind | hkind | hkind | hkind := hkind
    all_goals
      rw [h.lexeme_eq_of_symbol hkind]
      decide

theorem Token.Spells.mem_unary (h : t.Spells isUnaryOperator) : t.lexeme ∈ ["!", "-"] := by
  obtain hkind | hkind := isUnaryOperator_iff.1 h.holds
  all_goals
    rw [h.lexeme_eq_of_symbol hkind]
    decide

end Texts

/-! ### The tokens of trees -/

/-- The literal is that of a token. -/
def Literal.Spelled (value : Literal) : Prop :=
  ∃ kind text, Lexeme kind text ∧ literal? kind = some value

/-- The tokens at the root of an expression. -/
def Expr.RootSpelled : Expr → Prop
  | .literal value => value.Spelled
  | .unary operator _ => operator.Spells isUnaryOperator
  | .binary _ operator _ =>
    ∃ level : Level, operator.Spells level.holds ∧ level ≠ .disjunction ∧ level ≠ .conjunction
  | .logical _ operator _ =>
    operator.Spells Level.disjunction.holds ∨ operator.Spells Level.conjunction.holds
  | .group _ => True
  | .variable use => use.token.Spells Token.isIdentifier
  | .assign target _ => target.token.Spells Token.isIdentifier
  | .call _ paren _ => paren.Spells (·.isSymbol .rightParen)
  | .property _ name => name.Spells Token.isIdentifier
  | .setProperty _ name _ => name.Spells Token.isIdentifier
  | .this use => use.token.Spells (·.isKeyword .this)
  | .super use method =>
    use.token.Spells (·.isKeyword .super) ∧ method.Spells Token.isIdentifier

abbrev Expr.Spelled : Expr → Prop := Expr.Each Expr.RootSpelled

mutual

/-- All tokens of a statement, those of the routines declared in it among them. -/
def Stmt.Spelled : Stmt → Prop
  | .expression value => value.Spelled
  | .print value => value.Spelled
  | .var name none => name.Spells Token.isIdentifier
  | .var name (some value) => name.Spells Token.isIdentifier ∧ value.Spelled
  | .block body => Stmt.SpelledAll body
  | .if condition branch none => condition.Spelled ∧ branch.Spelled
  | .if condition branch (some other) => condition.Spelled ∧ branch.Spelled ∧ other.Spelled
  | .while condition body => condition.Spelled ∧ body.Spelled
  | .function routine => routine.Spelled
  | .return keyword none => keyword.Spells (·.isKeyword .return)
  | .return keyword (some value) => keyword.Spells (·.isKeyword .return) ∧ value.Spelled
  | .class name superclass methods =>
    name.Spells Token.isIdentifier ∧ (∀ use ∈ superclass, use.token.Spells Token.isIdentifier) ∧
      Routine.SpelledAll methods

def Stmt.SpelledAll : List Stmt → Prop
  | [] => True
  | s :: rest => s.Spelled ∧ Stmt.SpelledAll rest

def Routine.Spelled : Routine → Prop
  | ⟨name, parameters, body⟩ =>
    name.Spells Token.isIdentifier ∧ (∀ t ∈ parameters, t.Spells Token.isIdentifier) ∧
      Stmt.SpelledAll body

def Routine.SpelledAll : List Routine → Prop
  | [] => True
  | r :: rest => r.Spelled ∧ Routine.SpelledAll rest

end

/-! ### The tokens of phrases -/

namespace Grammar

variable {w : List Token}

theorem Level.spelled_combine {level : Level} {left right : Expr} {operator : Token}
    (hleft : left.Spelled) (hoperator : operator.Spells level.holds) (hright : right.Spelled) :
    (level.combine left operator right).Spelled := by
  cases level with
  | disjunction => exact ⟨.inl hoperator, hleft, hright⟩
  | conjunction => exact ⟨.inr hoperator, hleft, hright⟩
  | equality | comparison | term | factor => exact ⟨⟨_, hoperator, nofun, nofun⟩, hleft, hright⟩

/-- The tokens of what is built behind an operand or an object are those of the phrase, and those of
the operand or object. -/
def ExprPhrase.Spelled : (p : ExprPhrase) → p.Tree → Prop
  | .operators _ left, e | .accesses left, e => left.Spelled → e.Spelled
  | .arguments, es => Expr.EachAll Expr.RootSpelled es
  | .expression, e | .operand _, e | .call, e | .primary, e => e.Spelled

theorem ExprPhrase.Derives.spelled {p : ExprPhrase} {e : p.Tree} (h : p.Derives w e)
    (hw : ∀ t ∈ w, Lexeme t.kind t.lexeme.toList) : p.Spelled e := by
  induction h with
  | assignVariable hname hequals hvalue ih =>
    simp only [List.forall_mem_cons] at hw
    exact ⟨⟨hname, hw.1⟩, ih hw.2.2⟩
  | assignProperty hobject hdot hname hequals hvalue ih ih' =>
    simp only [List.forall_mem_cons, List.forall_mem_append] at hw
    exact ⟨⟨hname, hw.2.2.1⟩, ih hw.1, ih' hw.2.2.2.2⟩
  | loosest h ih | plain h ih => exact ih hw
  | operation hleft hrest ih ih' | call hleft hrest ih ih' =>
    rw [List.forall_mem_append] at hw
    exact ih' hw.2 (ih hw.1)
  | noOperator | noAccess => exact id
  | operator hoperator hright hrest ih ih' =>
    simp only [List.forall_mem_cons, List.forall_mem_append] at hw
    exact fun hleft => ih' hw.2.2 (Level.spelled_combine hleft ⟨hoperator, hw.1⟩ (ih hw.2.1))
  | unary hoperator hoperand ih =>
    rw [List.forall_mem_cons] at hw
    exact ⟨⟨hoperator, hw.1⟩, ih hw.2⟩
  | emptyCall hleft hright hrest ih =>
    simp only [List.forall_mem_cons] at hw
    exact fun hobject => ih hw.2.2 ⟨⟨hright, hw.2.1⟩, hobject, trivial⟩
  | fullCall hleft hvalues harity hright hrest ih ih' =>
    simp only [List.forall_mem_cons, List.forall_mem_append] at hw
    exact fun hobject => ih' hw.2.2.2 ⟨⟨hright, hw.2.2.1⟩, hobject, ih hw.2.1⟩
  | property hdot hname hrest ih =>
    simp only [List.forall_mem_cons] at hw
    exact fun hobject => ih hw.2.2 ⟨⟨hname, hw.2.1⟩, hobject⟩
  | lastArgument h ih => exact ⟨ih hw, trivial⟩
  | argument h hcomma hrest ih ih' =>
    simp only [List.forall_mem_cons, List.forall_mem_append] at hw
    exact ⟨ih hw.1, ih' hw.2.2⟩
  | literal h => exact ⟨_, _, hw _ (.head _), h⟩
  | this h | «variable» h => exact ⟨h, hw _ (.head _)⟩
  | group hleft hinner hright ih =>
    simp only [List.forall_mem_cons, List.forall_mem_append] at hw
    exact ⟨trivial, ih hw.2.1⟩
  | super h hdot hmethod =>
    simp only [List.forall_mem_cons] at hw
    exact ⟨⟨h, hw.1⟩, ⟨hmethod, hw.2.2.1⟩⟩

theorem OptionalExpression.spelled {o : Option Expr} (h : OptionalExpression w o)
    (hw : ∀ t ∈ w, Lexeme t.kind t.lexeme.toList) : ∀ e ∈ o, e.Spelled := by
  cases h with
  | none => simp
  | some h =>
    rintro _ ⟨⟩
    exact h.spelled hw

theorem VariableDeclaration.spelled {s : Stmt} (h : VariableDeclaration w s)
    (hw : ∀ t ∈ w, Lexeme t.kind t.lexeme.toList) : s.Spelled := by
  cases h with
  | plain hvar hname hsemicolon =>
    simp only [List.forall_mem_cons] at hw
    exact ⟨hname, hw.2.1⟩
  | initialized hvar hname hequals hvalue hsemicolon =>
    simp only [List.forall_mem_cons, List.forall_mem_append] at hw
    exact ⟨⟨hname, hw.2.1⟩, hvalue.spelled hw.2.2.2.1⟩

theorem ExpressionStatement.spelled {s : Stmt} (h : ExpressionStatement w s)
    (hw : ∀ t ∈ w, Lexeme t.kind t.lexeme.toList) : s.Spelled := by
  cases h with
  | mk hvalue hsemicolon => exact hvalue.spelled (List.forall_mem_append.1 hw).1

theorem LoopInitializer.spelled {o : Option Stmt} (h : LoopInitializer w o)
    (hw : ∀ t ∈ w, Lexeme t.kind t.lexeme.toList) : ∀ s ∈ o, s.Spelled := by
  cases h with
  | none => simp
  | «variable» h =>
    rintro _ ⟨⟩
    exact h.spelled hw
  | expression h =>
    rintro _ ⟨⟩
    exact h.spelled hw

theorem ParameterNames.spelled {names : List Token} (h : ParameterNames w names)
    (hw : ∀ t ∈ w, Lexeme t.kind t.lexeme.toList) :
    ∀ t ∈ names, t.Spells Token.isIdentifier := by
  induction h with
  | last h =>
    rw [List.forall_mem_singleton]
    exact ⟨h, hw _ (.head _)⟩
  | cons h hcomma hrest ih =>
    simp only [List.forall_mem_cons] at hw ⊢
    exact ⟨⟨h, hw.1⟩, ih hw.2.2⟩

theorem ParameterList.spelled {names : List Token} (h : ParameterList w names)
    (hw : ∀ t ∈ w, Lexeme t.kind t.lexeme.toList) :
    ∀ t ∈ names, t.Spells Token.isIdentifier := by
  cases h with
  | empty => simp
  | names h harity => exact h.spelled hw

theorem SuperclassClause.spelled {o : Option Use} (h : SuperclassClause w o)
    (hw : ∀ t ∈ w, Lexeme t.kind t.lexeme.toList) :
    ∀ use ∈ o, use.token.Spells Token.isIdentifier := by
  cases h with
  | none => simp
  | some hless hname =>
    rintro _ ⟨⟩
    simp only [List.forall_mem_cons] at hw
    exact ⟨hname, hw.2.1⟩

/-- A loop has the tokens of its clauses and its body. The condition of a loop without one is a
literal that could be that of a token. -/
theorem LoopHeader.spelled {clauses : LoopClauses} {body : Stmt} (h : LoopHeader w clauses)
    (hw : ∀ t ∈ w, Lexeme t.kind t.lexeme.toList) (hbody : body.Spelled) :
    (loopOf clauses body).Spelled := by
  obtain ⟨hinitializer, hcondition, hsemicolon, hincrement⟩ := h
  simp only [List.forall_mem_cons, List.forall_mem_append] at hw
  have h₁ := hinitializer.spelled hw.1.1
  have h₂ := hcondition.spelled hw.1.2
  have h₃ := hincrement.spelled hw.2.2
  have htrue : (Literal.boolean true).Spelled := ⟨_, _, .keyword .true, rfl⟩
  obtain ⟨initializer, condition, increment⟩ := clauses
  cases initializer <;> cases condition <;> cases increment <;>
    simp_all [Stmt.Spelled, Stmt.SpelledAll, Expr.Spelled, Expr.Each, Expr.RootSpelled]

def StmtPhrase.Spelled : (p : StmtPhrase) → p.Tree → Prop
  | .declaration, s | .statement _, s => s.Spelled
  | .declarations, ss | .block, ss => Stmt.SpelledAll ss
  | .routine, r => r.Spelled
  | .methods, rs => Routine.SpelledAll rs

theorem StmtPhrase.Derives.spelled {rule : ElseRule} {p : StmtPhrase} {tree : p.Tree}
    (h : p.Derives rule w tree) (hw : ∀ t ∈ w, Lexeme t.kind t.lexeme.toList) :
    p.Spelled tree := by
  induction h with
  | noDeclaration | noMethod => trivial
  | declaration h hrest ih ih' | method h hrest ih ih' =>
    rw [List.forall_mem_append] at hw
    exact ⟨ih hw.1, ih' hw.2⟩
  | «class» h hname hsuperclass hleft hmethods hright ih =>
    simp only [List.forall_mem_cons, List.forall_mem_append] at hw
    exact ⟨⟨hname, hw.2.1⟩, hsuperclass.spelled hw.2.2.1, ih hw.2.2.2.2.1⟩
  | function h hroutine ih => exact ih (List.forall_mem_cons.1 hw).2
  | «variable» h => exact h.spelled hw
  | statement h ih | braces h ih => exact ih hw
  | routine hname hleft hparameters hright hbody ih =>
    simp only [List.forall_mem_cons, List.forall_mem_append] at hw
    exact ⟨⟨hname, hw.1⟩, hparameters.spelled hw.2.2.1, ih hw.2.2.2.2⟩
  | block hleft hbody hright ih =>
    simp only [List.forall_mem_cons, List.forall_mem_append] at hw
    exact ih hw.2.1
  | expression h => exact h.spelled hw
  | print h hvalue hsemicolon =>
    simp only [List.forall_mem_cons, List.forall_mem_append] at hw
    exact hvalue.spelled hw.2.1
  | «return» h hvalue hsemicolon =>
    simp only [List.forall_mem_cons, List.forall_mem_append] at hw
    cases hvalue with
    | none => exact ⟨h, hw.1⟩
    | some hvalue => exact ⟨⟨h, hw.1⟩, hvalue.spelled hw.2.1⟩
  | «while» h hleft hcondition hright hbody ih | ifThen h hleft hcondition hright hbody ih =>
    simp only [List.forall_mem_cons, List.forall_mem_append] at hw
    exact ⟨hcondition.spelled hw.2.2.1, ih hw.2.2.2.2⟩
  | «for» h hleft hclauses hright hbody ih =>
    simp only [List.forall_mem_cons, List.forall_mem_append] at hw
    exact hclauses.spelled hw.2.2.1 (ih hw.2.2.2.2)
  | ifElse h hleft hcondition hright hbranch hnearest h' hother ih ih' =>
    simp only [List.forall_mem_cons, List.forall_mem_append] at hw
    exact ⟨hcondition.spelled hw.2.2.1, ih hw.2.2.2.2.1, ih' hw.2.2.2.2.2.2⟩

end Grammar

end Treewalk
