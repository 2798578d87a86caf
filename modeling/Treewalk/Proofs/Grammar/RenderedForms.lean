import Mathlib.Tactic.FinCases
import Treewalk.Proofs.Grammar.Spelling
import Treewalk.Proofs.Number.Literals
import Treewalk.Proofs.Tree.Parenthesized

/-!
# The form of a rendered tree

The rendering of a tree is a term: a word, or the renderings of its parts between parentheses, with
a word in front that tells the form of the tree. This is so for trees with the tokens of a program,
except that a string is no word, since it is rendered without its quotes, and that the declaration
of a variable without an initializer is rendered as a use of the variable is. These two are left
out.

## Main definitions

* `Expr.parts?`, `Stmt.parts?` — what stands between the parentheses
* `ExprForm`, `StmtForm` — the forms that are told by the parts
* `Expr.NoString`, `Stmt.Plain` — trees without strings, in which every variable has an initializer

## Main results

* `Literal.eq_of_render` — literals that are rendered alike
* `Expr.RootSpelled.form?_eq`, `Stmt.form?_eq` — the parts of a tree tell its form
* `Expr.laid`, `Stmt.laid` — the rendering of a tree is a term with these parts
-/

namespace Treewalk

open Grammar

/-! ### Words -/

section Words

variable {text : List Char}

theorem joinsWord_of_continuesWord {c : Char} (h : Piece.continuesWord c) : joinsWord c := by
  rw [joinsWord, Bool.and_eq_true, Bool.and_eq_true, bne_iff_ne, bne_iff_ne, bne_iff_ne]
  refine ⟨⟨?_, ?_⟩, ?_⟩ <;> rintro rfl <;> exact absurd h (by decide)

theorem joinsWord_of_isDigit {c : Char} (h : c.isDigit) : joinsWord c :=
  joinsWord_of_continuesWord (Piece.continuesWord_iff.2 (.inr h))

theorem Lexeme.Number.joins {kind : Kind} (h : Number kind text) : ∀ c ∈ text, joinsWord c := by
  cases h with
  | whole h => exact fun c hc => joinsWord_of_isDigit (h c hc)
  | decimal hdigits hfraction =>
    intro c hc
    obtain hc | hc := List.mem_append.1 hc
    · exact joinsWord_of_isDigit (hdigits c hc)
    · obtain rfl | hc := List.mem_cons.1 hc
      · decide
      · exact joinsWord_of_isDigit (hfraction c hc)

theorem Lexeme.joins_of_identifier (h : Lexeme .identifier text) : ∀ c ∈ text, joinsWord c := by
  cases h with
  | identifier hc hrest hne =>
    rw [List.forall_mem_cons]
    exact ⟨joinsWord_of_continuesWord (Piece.continuesWord_iff.2 (.inl hc)),
      fun d hd => joinsWord_of_continuesWord (hrest d hd)⟩
  | number h => cases h

/-- A lexeme is not empty. -/
theorem Lexeme.isWord {kind : Kind} {s : String} (h : Lexeme kind s.toList)
    (hjoins : ∀ c ∈ s.toList, joinsWord c) : IsWord s := by
  obtain ⟨c, rest, htext, -⟩ := h.starts
  exact .of_toList (htext ▸ List.cons_ne_nil c rest) hjoins

/-- A name is a word. -/
theorem Token.Spells.isWord {t : Token} (h : t.Spells Token.isIdentifier) : IsWord t.lexeme := by
  have hkind : t.kind = .identifier := of_decide_eq_true h.holds
  exact h.lexeme.isWord (Lexeme.joins_of_identifier (hkind ▸ h.lexeme))

theorem isWord_of_mem_unary {text : String} (h : text ∈ ["!", "-"]) : IsWord text := by
  fin_cases h <;> decide

theorem Grammar.Level.isWord_of_mem_spellings (level : Level) {text : String}
    (h : text ∈ level.spellings) : IsWord text := by
  cases level with
  | disjunction | conjunction | equality | comparison | term | factor => fin_cases h <;> decide

end Words

/-! ### Literals -/

/-- The expression is no string literal. -/
def Expr.NoString : Expr → Prop
  | .literal (.string _) => False
  | _ => True

/-- The rendering of the infinity is a name. -/
theorem lexeme_rendered_infinity :
    Lexeme .identifier (Number.rendered Number.infinity).toList := by
  have hinf : Lexeme (Piece.wordKind ['i', 'n', 'f']) ['i', 'n', 'f'] :=
    .word (by decide) (List.all_eq_true.1 (by decide))
  rw [Number.rendered_infinity]
  exact hinf

theorem Literal.Spelled.exists_number {value : Float} (h : (Literal.number value).Spelled) :
    ∃ text, Lexeme.Number (.number value) text := by
  obtain ⟨kind, text, hlexeme, hliteral⟩ := h
  cases kind with
  | number value =>
    cases hliteral
    exact ⟨text, Lexeme.number_of_number hlexeme⟩
  | keyword k => cases k <;> cases hliteral
  | symbol | identifier | string | endOfInput => cases hliteral

/-- The rendering of a literal spells the literal, or else it is that of the infinity. -/
theorem Literal.spells_render {value : Literal} (h : value.Spelled)
    (hstring : (Expr.literal value).NoString) : ∃ kind, Lexeme kind value.render.toList ∧
      (literal? kind = some value ∨ kind = .identifier ∧ value = .number Number.infinity) := by
  cases value with
  | number value =>
    obtain ⟨text, hnumber⟩ := h.exists_number
    obtain rfl | hrendered := Number.lexeme_rendered hnumber
    · exact ⟨_, lexeme_rendered_infinity, .inr ⟨rfl, rfl⟩⟩
    · exact ⟨_, .number hrendered, .inl rfl⟩
  | string => exact hstring.elim
  | boolean value =>
    cases value with
    | false => exact ⟨_, .keyword .false, .inl rfl⟩
    | true => exact ⟨_, .keyword .true, .inl rfl⟩
  | nil => exact ⟨_, .keyword .nil, .inl rfl⟩

theorem Literal.isWord {value : Literal} (h : value.Spelled)
    (hstring : (Expr.literal value).NoString) : IsWord value.render := by
  cases value with
  | number value =>
    obtain ⟨text, hnumber⟩ := h.exists_number
    obtain rfl | hrendered := Number.lexeme_rendered hnumber
    · rw [Literal.render, Number.rendered_infinity]
      decide
    · exact (Lexeme.number hrendered).isWord hrendered.joins
  | string => exact hstring.elim
  | boolean value => cases value <;> decide
  | nil => decide

/-- What a literal is rendered as tells the literal. -/
theorem Literal.eq_of_render {value value' : Literal} (h : value.Spelled) (h' : value'.Spelled)
    (hstring : (Expr.literal value).NoString) (hstring' : (Expr.literal value').NoString)
    (heq : value.render = value'.render) : value = value' := by
  obtain ⟨kind, hlexeme, hvalue⟩ := spells_render h hstring
  obtain ⟨kind', hlexeme', hvalue'⟩ := spells_render h' hstring'
  obtain rfl : kind' = kind := (heq ▸ hlexeme).kind_unique hlexeme'
  obtain hvalue | ⟨rfl, rfl⟩ := hvalue
  · obtain hvalue' | ⟨rfl, rfl⟩ := hvalue'
    · exact Option.some.inj (hvalue.symm.trans hvalue')
    · cases hvalue
  · obtain hvalue' | ⟨-, rfl⟩ := hvalue'
    · cases hvalue'
    · rfl

theorem Literal.render_ne_this {value : Literal} (h : value.Spelled)
    (hstring : (Expr.literal value).NoString) : value.render ≠ "this" := by
  intro heq
  obtain ⟨kind, hlexeme, hvalue⟩ := spells_render h hstring
  rw [heq] at hlexeme
  obtain rfl : Kind.keyword .this = kind := hlexeme.kind_unique (.keyword .this)
  obtain hvalue | ⟨hkind, -⟩ := hvalue
  · cases hvalue
  · cases hkind

/-! ### Parts and forms of expressions -/

/-- What stands between the parentheses, if the expression is not rendered as a word. -/
def Expr.parts? : Expr → Option (List String)
  | .literal _ | .this _ => none
  | .unary operator operand => some [operator.lexeme, operand.render]
  | .binary left operator right | .logical left operator right =>
    some [operator.lexeme, left.render, right.render]
  | .group inner => some ["group", inner.render]
  | .variable use => some ["var", use.name]
  | .assign target value => some ["assign", target.name, value.render]
  | .call callee _ arguments => some ("call" :: callee.render :: Expr.renderAll arguments)
  | .property object name => some [".", object.render, name.lexeme]
  | .setProperty object name value => some ["=", object.render, name.lexeme, value.render]
  | .super _ method => some ["super", method.lexeme]

/-- The forms of expressions that are rendered between parentheses. -/
inductive ExprForm
  | unary | binary | logical | group | «variable» | assign | call | property | setProperty | super

def Expr.form? : Expr → Option ExprForm
  | .literal _ | .this _ => none
  | .unary .. => some .unary
  | .binary .. => some .binary
  | .logical .. => some .logical
  | .group _ => some .group
  | .variable _ => some .variable
  | .assign .. => some .assign
  | .call .. => some .call
  | .property .. => some .property
  | .setProperty .. => some .setProperty
  | .super .. => some .super

/-- The form that the parts of an expression tell. What begins with none of the words below begins
with an operator. -/
def ExprForm.ofParts : List String → ExprForm
  | "group" :: _ => .group
  | "var" :: _ => .variable
  | "assign" :: _ => .assign
  | "call" :: _ => .call
  | "." :: _ => .property
  | "=" :: _ => .setProperty
  | "super" :: _ => .super
  | "or" :: _ | "and" :: _ => .logical
  | [_, _] => .unary
  | _ => .binary

theorem ExprForm.ofParts_unary {text : String} (h : text ∈ ["!", "-"]) (operand : String) :
    ofParts [text, operand] = .unary := by
  fin_cases h <;> rfl

theorem ExprForm.ofParts_binary {level : Level} (hor : level ≠ .disjunction)
    (hand : level ≠ .conjunction) {text : String} (h : text ∈ level.spellings)
    (left right : String) : ofParts [text, left, right] = .binary := by
  cases level with
  | disjunction => exact absurd rfl hor
  | conjunction => exact absurd rfl hand
  | equality | comparison | term | factor => fin_cases h <;> rfl

/-- The parts of an expression tell its form. -/
theorem Expr.RootSpelled.form?_eq {e : Expr} (h : e.RootSpelled) :
    e.parts?.map ExprForm.ofParts = e.form? := by
  cases e with
  | unary => exact congrArg some (ExprForm.ofParts_unary h.mem_unary _)
  | binary =>
    obtain ⟨level, hlevel, hor, hand⟩ := h
    exact congrArg some (ExprForm.ofParts_binary hor hand hlevel.mem_spellings _ _)
  | logical =>
    obtain h | h := h
    all_goals
      rw [parts?, List.mem_singleton.1 h.mem_spellings]
      rfl
  | _ => rfl

/-! ### Parts and forms of statements -/

mutual

/-- No string in the statement, and every variable has an initializer. -/
def Stmt.Plain : Stmt → Prop
  | .expression value => value.Each Expr.NoString
  | .print value => value.Each Expr.NoString
  | .var _ none => False
  | .var _ (some value) => value.Each Expr.NoString
  | .block body => Stmt.PlainAll body
  | .if condition branch none => condition.Each Expr.NoString ∧ branch.Plain
  | .if condition branch (some other) =>
    condition.Each Expr.NoString ∧ branch.Plain ∧ other.Plain
  | .while condition body => condition.Each Expr.NoString ∧ body.Plain
  | .function routine => routine.Plain
  | .return _ none => True
  | .return _ (some value) => value.Each Expr.NoString
  | .class _ _ methods => Routine.PlainAll methods

def Stmt.PlainAll : List Stmt → Prop
  | [] => True
  | s :: rest => s.Plain ∧ Stmt.PlainAll rest

def Routine.Plain : Routine → Prop
  | ⟨_, _, body⟩ => Stmt.PlainAll body

def Routine.PlainAll : List Routine → Prop
  | [] => True
  | r :: rest => r.Plain ∧ Routine.PlainAll rest

end

-- Why an initializer is asked for: without one, the declaration of a variable is rendered as a use.
example (name : Token) (id : NodeId) :
    (Stmt.var name none).render = (Stmt.expression (.variable ⟨id, name⟩)).render := rfl

/-- What stands between the parentheses of a routine. -/
def Routine.parts : Routine → List String
  | ⟨name, parameters, body⟩ =>
    "fun" :: name.lexeme :: parenthesized (parameters.map Token.lexeme) :: Stmt.renderAll body

/-- What stands between the parentheses, if the statement is not rendered as a word. -/
def Stmt.parts? : Stmt → Option (List String)
  | .expression value => value.parts?
  | .print value => some ["print", value.render]
  | .var name none => some ["var", name.lexeme]
  | .var name (some value) => some ["var", name.lexeme, value.render]
  | .block body => some ("block" :: Stmt.renderAll body)
  | .if condition branch none => some ["if", condition.render, branch.render]
  | .if condition branch (some other) =>
    some ["if", condition.render, branch.render, other.render]
  | .while condition body => some ["while", condition.render, body.render]
  | .function routine => some routine.parts
  | .return _ none => some ["return"]
  | .return _ (some value) => some ["return", value.render]
  | .class name none methods => some ("class" :: name.lexeme :: Routine.renderAll methods)
  | .class name (some superclass) methods =>
    some ("class" :: name.lexeme :: "<" :: superclass.name :: Routine.renderAll methods)

/-- The forms of statements that are no expressions. -/
inductive StmtForm
  | print | var | block | «if» | «while» | function | «return» | «class»

def Stmt.form? : Stmt → Option StmtForm
  | .expression _ => none
  | .print _ => some .print
  | .var .. => some .var
  | .block _ => some .block
  | .if .. => some .if
  | .while .. => some .while
  | .function _ => some .function
  | .return .. => some .return
  | .class .. => some .class

/-- The form that the parts of a statement tell, if it is no expression. -/
def StmtForm.ofParts? : List String → Option StmtForm
  | "print" :: _ => some .print
  | ["var", _, _] => some .var
  | "block" :: _ => some .block
  | "if" :: _ => some .if
  | "while" :: _ => some .while
  | "fun" :: _ => some .function
  | "return" :: _ => some .return
  | "class" :: _ => some .class
  | _ => none

theorem StmtForm.ofParts?_unary {text : String} (h : text ∈ ["!", "-"]) (operand : String) :
    ofParts? [text, operand] = none := by
  fin_cases h <;> rfl

theorem StmtForm.ofParts?_operation {level : Level} {text : String} (h : text ∈ level.spellings)
    (left right : String) : ofParts? [text, left, right] = none := by
  cases level with
  | disjunction | conjunction | equality | comparison | term | factor => fin_cases h <;> rfl

/-- Expressions have none of the forms of other statements. -/
theorem Expr.RootSpelled.ofParts?_eq {e : Expr} (h : e.RootSpelled) :
    e.parts?.bind StmtForm.ofParts? = none := by
  cases e with
  | unary => exact StmtForm.ofParts?_unary h.mem_unary _
  | binary =>
    obtain ⟨level, hlevel, -⟩ := h
    exact StmtForm.ofParts?_operation hlevel.mem_spellings _ _
  | logical =>
    obtain h | h := h
    all_goals exact StmtForm.ofParts?_operation h.mem_spellings _ _
  | _ => rfl

/-- The parts of a statement tell its form. -/
theorem Stmt.form?_eq {s : Stmt} (h : s.Spelled) (hplain : s.Plain) :
    s.parts?.bind StmtForm.ofParts? = s.form? := by
  cases s with
  | expression value => exact (Expr.Each.self h).ofParts?_eq
  | var name value =>
    cases value with
    | none => exact hplain.elim
    | some => rfl
  | «if» condition branch other => cases other <;> rfl
  | function routine => cases routine; rfl
  | «return» keyword value => cases value <;> rfl
  | «class» name superclass methods => cases superclass <;> rfl
  | _ => rfl

/-! ### Rendered trees are terms -/

section Laid

variable {head : String}

theorem laid_pair {part : String} (hhead : IsWord head) (hpart : IsTerm part) :
    Laid (parenthesized [head, part]) (some [head, part]) :=
  .parts (by simpa using ⟨.word hhead, hpart⟩)

theorem laid_triple {left right : String} (hhead : IsWord head) (hleft : IsTerm left)
    (hright : IsTerm right) :
    Laid (parenthesized [head, left, right]) (some [head, left, right]) :=
  .parts (by simpa using ⟨.word hhead, hleft, hright⟩)

theorem laid_quadruple {first second third : String} (hhead : IsWord head)
    (hfirst : IsTerm first) (hsecond : IsTerm second) (hthird : IsTerm third) :
    Laid (parenthesized [head, first, second, third]) (some [head, first, second, third]) :=
  .parts (by simpa using ⟨.word hhead, hfirst, hsecond, hthird⟩)

theorem laid_cons {parts : List String} (hhead : IsWord head) (h : ∀ part ∈ parts, IsTerm part) :
    Laid (parenthesized (head :: parts)) (some (head :: parts)) :=
  .parts (List.forall_mem_cons.2 ⟨.word hhead, h⟩)

end Laid

mutual

theorem Expr.laid (e : Expr) (h : e.Spelled) (hplain : e.Each NoString) :
    Laid e.render e.parts? := by
  match e with
  | .literal value => exact .word (Literal.isWord h hplain)
  | .this _ => exact .word (by decide : IsWord "this")
  | .unary operator operand =>
    exact laid_pair (isWord_of_mem_unary h.1.mem_unary) (operand.laid h.2 hplain.2).isTerm
  | .binary left operator right =>
    obtain ⟨⟨level, hlevel, -⟩, hleft, hright⟩ := h
    exact laid_triple (level.isWord_of_mem_spellings hlevel.mem_spellings)
      (left.laid hleft hplain.2.1).isTerm (right.laid hright hplain.2.2).isTerm
  | .logical left operator right =>
    obtain ⟨hoperator, hleft, hright⟩ := h
    have hword : IsWord operator.lexeme := hoperator.elim
      (fun h => Level.isWord_of_mem_spellings _ h.mem_spellings)
      (fun h => Level.isWord_of_mem_spellings _ h.mem_spellings)
    exact laid_triple hword (left.laid hleft hplain.2.1).isTerm
      (right.laid hright hplain.2.2).isTerm
  | .group inner => exact laid_pair (by decide) (inner.laid h.2 hplain.2).isTerm
  | .variable use => exact laid_pair (by decide) (.word (Token.Spells.isWord h))
  | .assign target value =>
    exact laid_triple (by decide) (.word h.1.isWord) (value.laid h.2 hplain.2).isTerm
  | .call callee _ arguments =>
    exact laid_cons (by decide) (List.forall_mem_cons.2
      ⟨(callee.laid h.2.1 hplain.2.1).isTerm, Expr.isTerm_renderAll arguments h.2.2 hplain.2.2⟩)
  | .property object name =>
    exact laid_triple (by decide) (object.laid h.2 hplain.2).isTerm (.word h.1.isWord)
  | .setProperty object name value =>
    exact laid_quadruple (by decide) (object.laid h.2.1 hplain.2.1).isTerm (.word h.1.isWord)
      (value.laid h.2.2 hplain.2.2).isTerm
  | .super _ method => exact laid_pair (by decide) (.word (And.right h).isWord)

theorem Expr.isTerm_renderAll (es : List Expr) (h : Expr.EachAll RootSpelled es)
    (hplain : Expr.EachAll NoString es) : ∀ part ∈ Expr.renderAll es, IsTerm part := by
  match es with
  | [] => exact nofun
  | e :: rest =>
    exact List.forall_mem_cons.2
      ⟨(e.laid h.1 hplain.1).isTerm, Expr.isTerm_renderAll rest h.2 hplain.2⟩

end

mutual

theorem Stmt.laid (s : Stmt) (h : s.Spelled) (hplain : s.Plain) : Laid s.render s.parts? := by
  match s with
  | .expression value => exact value.laid h hplain
  | .print value => exact laid_pair (by decide) (value.laid h hplain).isTerm
  | .var name none => exact hplain.elim
  | .var name (some value) =>
    exact laid_triple (by decide) (.word h.1.isWord) (value.laid h.2 hplain).isTerm
  | .block body => exact laid_cons (by decide) (Stmt.isTerm_renderAll body h hplain)
  | .if condition branch none =>
    exact laid_triple (by decide) (condition.laid h.1 hplain.1).isTerm
      (branch.laid h.2 hplain.2).isTerm
  | .if condition branch (some other) =>
    exact laid_quadruple (by decide) (condition.laid h.1 hplain.1).isTerm
      (branch.laid h.2.1 hplain.2.1).isTerm (other.laid h.2.2 hplain.2.2).isTerm
  | .while condition body =>
    exact laid_triple (by decide) (condition.laid h.1 hplain.1).isTerm
      (body.laid h.2 hplain.2).isTerm
  | .function routine => exact routine.laid h hplain
  | .return _ none => exact laid_cons (by decide) nofun
  | .return _ (some value) => exact laid_pair (by decide) (value.laid h.2 hplain).isTerm
  | .class name none methods =>
    exact laid_cons (by decide) (List.forall_mem_cons.2
      ⟨.word h.1.isWord, Routine.isTerm_renderAll methods h.2.2 hplain⟩)
  | .class name (some superclass) methods =>
    have hsuperclass := h.2.1 superclass rfl
    refine laid_cons (by decide) ?_
    simp only [List.forall_mem_cons]
    exact ⟨.word h.1.isWord, .word (by decide), .word hsuperclass.isWord,
      Routine.isTerm_renderAll methods h.2.2 hplain⟩

theorem Stmt.isTerm_renderAll (ss : List Stmt) (h : Stmt.SpelledAll ss)
    (hplain : Stmt.PlainAll ss) : ∀ part ∈ Stmt.renderAll ss, IsTerm part := by
  match ss with
  | [] => exact nofun
  | s :: rest =>
    exact List.forall_mem_cons.2
      ⟨(s.laid h.1 hplain.1).isTerm, Stmt.isTerm_renderAll rest h.2 hplain.2⟩

theorem Routine.laid (routine : Routine) (h : routine.Spelled) (hplain : routine.Plain) :
    Laid routine.render (some routine.parts) := by
  match routine with
  | ⟨name, parameters, body⟩ =>
    refine laid_cons (by decide) ?_
    simp only [List.forall_mem_cons]
    refine ⟨.word h.1.isWord, .parenthesized ?_, Stmt.isTerm_renderAll body h.2.2 hplain⟩
    rw [List.forall_mem_map]
    exact fun t ht => .word (h.2.1 t ht).isWord

theorem Routine.isTerm_renderAll (methods : List Routine) (h : Routine.SpelledAll methods)
    (hplain : Routine.PlainAll methods) : ∀ part ∈ Routine.renderAll methods, IsTerm part := by
  match methods with
  | [] => exact nofun
  | method :: rest =>
    exact List.forall_mem_cons.2
      ⟨(method.laid h.1 hplain.1).isTerm, Routine.isTerm_renderAll rest h.2 hplain.2⟩

end

end Treewalk
