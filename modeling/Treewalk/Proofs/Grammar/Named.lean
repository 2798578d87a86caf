import Treewalk.Proofs.Grammar.Phrase
import Treewalk.Proofs.Tree.Writes

/-!
# The names in a tree

What is known of the names of a list of tokens is known of the names in its tree. A use of `this` or
`super` is spelled like the keyword, and what stands in a branch or is the body of a loop declares
no name.

## Main definitions

* `Stmt.declares` — statements that declare a name
* `Expr.Named`, `Stmt.Named` — trees whose names have a property

## Main results

* `Stmt.Named.writes` — among the names of a tree are those that it writes
* `Grammar.StmtPhrase.Derives.named` — the names of a program
-/

namespace Treewalk

/-- Whether a statement is the declaration of a name. -/
def Stmt.declares : Stmt → Bool
  | .var .. | .function _ | .class .. => true
  | _ => false

variable (P : String → Prop)

/-! ### Names in trees -/

mutual

/-- The names of all variables have the property; `this` and `super` are spelled like that. -/
def Expr.Named : Expr → Prop
  | .literal _ => True
  | .unary _ operand => operand.Named
  | .binary left _ right => left.Named ∧ right.Named
  | .logical left _ right => left.Named ∧ right.Named
  | .group inner => inner.Named
  | .variable use => P use.name
  | .assign target value => P target.name ∧ value.Named
  | .call callee _ arguments => callee.Named ∧ Expr.NamedAll arguments
  | .property object _ => object.Named
  | .setProperty object _ value => object.Named ∧ value.Named
  | .this use => use.name = Keyword.this.spelling
  | .super use _ => use.name = Keyword.super.spelling

def Expr.NamedAll : List Expr → Prop
  | [] => True
  | e :: rest => e.Named ∧ Expr.NamedAll rest

end

mutual

/-- All names that are used or declared have the property. No branch and no body of a loop is a
declaration. -/
def Stmt.Named : Stmt → Prop
  | .expression value => value.Named P
  | .print value => value.Named P
  | .var name none => P name.lexeme
  | .var name (some value) => P name.lexeme ∧ value.Named P
  | .block body => Stmt.NamedAll body
  | .if condition branch none => condition.Named P ∧ branch.Named ∧ branch.declares = false
  | .if condition branch (some other) =>
    condition.Named P ∧ (branch.Named ∧ branch.declares = false) ∧
      other.Named ∧ other.declares = false
  | .while condition body => condition.Named P ∧ body.Named ∧ body.declares = false
  | .function routine => P routine.name.lexeme ∧ routine.Named
  | .return _ none => True
  | .return _ (some value) => value.Named P
  | .class name superclass methods =>
    P name.lexeme ∧ (∀ use ∈ superclass, P use.name) ∧ Routine.NamedAll methods

def Stmt.NamedAll : List Stmt → Prop
  | [] => True
  | s :: rest => s.Named ∧ Stmt.NamedAll rest

def Routine.Named : Routine → Prop
  | ⟨_, parameters, body⟩ => (∀ t ∈ parameters, P t.lexeme) ∧ Stmt.NamedAll body

def Routine.NamedAll : List Routine → Prop
  | [] => True
  | r :: rest => r.Named ∧ Routine.NamedAll rest

end

/-! ### Names that are written -/

section Writes

variable {P}

mutual

/-- Among the names of a tree are those that it writes. -/
theorem Expr.Named.writes {e : Expr} (h : e.Named P) : e.Writes P := by
  match e with
  | .literal _ | .variable _ | .this _ | .super _ _ => trivial
  | .unary _ operand => exact ⟨trivial, Expr.Named.writes (e := operand) h⟩
  | .binary left _ right | .logical left _ right => exact ⟨trivial, h.1.writes, h.2.writes⟩
  | .group inner => exact ⟨trivial, Expr.Named.writes (e := inner) h⟩
  | .assign target value => exact ⟨h.1, h.2.writes⟩
  | .call callee _ arguments => exact ⟨trivial, h.1.writes, h.2.writesAll⟩
  | .property object _ => exact ⟨trivial, Expr.Named.writes (e := object) h⟩
  | .setProperty object _ value => exact ⟨trivial, h.1.writes, h.2.writes⟩

theorem Expr.NamedAll.writesAll {es : List Expr} (h : Expr.NamedAll P es) :
    Expr.WritesAll P es := by
  match es with
  | [] => trivial
  | e :: rest => exact ⟨h.1.writes, h.2.writesAll⟩

end

mutual

theorem Stmt.Named.writes {s : Stmt} (h : s.Named P) : s.Writes P := by
  match s with
  | .expression value | .print value | .return _ (some value) =>
    exact (show value.Named P from h).writes
  | .var _ none => exact h
  | .var _ (some value) => exact ⟨h.1, h.2.writes⟩
  | .block body => exact (show Stmt.NamedAll P body from h).writesAll
  | .if condition branch none => exact ⟨h.1.writes, h.2.1.writes⟩
  | .if condition branch (some other) => exact ⟨h.1.writes, h.2.1.1.writes, h.2.2.1.writes⟩
  | .while condition body => exact ⟨h.1.writes, h.2.1.writes⟩
  | .function routine => exact ⟨h.1, h.2.writes⟩
  | .return _ none => trivial
  | .class _ _ methods => exact ⟨h.1, h.2.2.writesAll⟩

theorem Stmt.NamedAll.writesAll {ss : List Stmt} (h : Stmt.NamedAll P ss) :
    Stmt.WritesAll P ss := by
  match ss with
  | [] => trivial
  | s :: rest => exact ⟨h.1.writes, h.2.writesAll⟩

theorem Routine.Named.writes {routine : Routine} (h : routine.Named P) : routine.Writes P := by
  match routine with
  | ⟨_, parameters, body⟩ => exact ⟨h.1, (show Stmt.NamedAll P body from h.2).writesAll⟩

theorem Routine.NamedAll.writesAll {routines : List Routine} (h : Routine.NamedAll P routines) :
    Routine.WritesAll P routines := by
  match routines with
  | [] => trivial
  | r :: rest => exact ⟨h.1.writes, h.2.writesAll⟩

end

end Writes

/-! ### Names of tokens -/

/-- A token that has the property if it is an identifier, and is spelled right if it is a
keyword. -/
structure Token.Named (t : Token) : Prop where
  identifier : t.isIdentifier → P t.lexeme
  keyword : ∀ k, t.isKeyword k → t.lexeme = k.spelling

namespace Grammar

variable {P} {w : List Token}

/-! ### Expressions -/

theorem Level.named_combine {level : Level} {left right : Expr} {operator : Token} :
    (level.combine left operator right).Named P ↔ left.Named P ∧ right.Named P := by
  cases level <;> rfl

/-- The names in what is built behind an operand or an object are those of the operand or object,
and those of the tokens. -/
def ExprPhrase.Named (P : String → Prop) : (p : ExprPhrase) → p.Tree → Prop
  | .operators _ left, e | .accesses left, e => left.Named P → e.Named P
  | .arguments, es => Expr.NamedAll P es
  | .expression, e | .operand _, e | .call, e | .primary, e => e.Named P

theorem ExprPhrase.Derives.named {p : ExprPhrase} {e : p.Tree} (h : p.Derives w e)
    (hw : ∀ t ∈ w, t.Named P) : p.Named P e := by
  induction h with
  | assignVariable hname hequals hvalue ih =>
    simp only [List.forall_mem_cons] at hw
    exact ⟨hw.1.identifier hname, ih hw.2.2⟩
  | assignProperty hobject hdot hname hequals hvalue ih ih' =>
    simp only [List.forall_mem_cons, List.forall_mem_append] at hw
    exact ⟨ih hw.1, ih' hw.2.2.2.2⟩
  | loosest h ih | plain h ih => exact ih hw
  | operation hleft hrest ih ih' | call hleft hrest ih ih' =>
    rw [List.forall_mem_append] at hw
    exact ih' hw.2 (ih hw.1)
  | noOperator | noAccess => exact id
  | operator hoperator hright hrest ih ih' =>
    simp only [List.forall_mem_cons, List.forall_mem_append] at hw
    exact fun hleft => ih' hw.2.2 (Level.named_combine.2 ⟨hleft, ih hw.2.1⟩)
  | unary hoperator hoperand ih => exact ih (List.forall_mem_cons.1 hw).2
  | emptyCall hleft hright hrest ih =>
    simp only [List.forall_mem_cons] at hw
    exact fun hobject => ih hw.2.2 ⟨hobject, trivial⟩
  | fullCall hleft hvalues harity hright hrest ih ih' =>
    simp only [List.forall_mem_cons, List.forall_mem_append] at hw
    exact fun hobject => ih' hw.2.2.2 ⟨hobject, ih hw.2.1⟩
  | property hdot hname hrest ih =>
    simp only [List.forall_mem_cons] at hw
    exact fun hobject => ih hw.2.2 hobject
  | lastArgument h ih => exact ⟨ih hw, trivial⟩
  | argument h hcomma hrest ih ih' =>
    simp only [List.forall_mem_cons, List.forall_mem_append] at hw
    exact ⟨ih hw.1, ih' hw.2.2⟩
  | literal h => trivial
  | this h => exact (hw _ (.head _)).keyword _ h
  | «variable» h => exact (hw _ (.head _)).identifier h
  | group hleft hinner hright ih =>
    simp only [List.forall_mem_cons, List.forall_mem_append] at hw
    exact ih hw.2.1
  | super h hdot hmethod => exact (hw _ (.head _)).keyword _ h

theorem OptionalExpression.named {o : Option Expr} (h : OptionalExpression w o)
    (hw : ∀ t ∈ w, t.Named P) : ∀ e ∈ o, e.Named P := by
  cases h with
  | none => simp
  | some h =>
    rintro _ ⟨⟩
    exact h.named hw

/-! ### Statements -/

theorem VariableDeclaration.named {s : Stmt} (h : VariableDeclaration w s)
    (hw : ∀ t ∈ w, t.Named P) : s.Named P := by
  cases h with
  | plain hvar hname hsemicolon =>
    simp only [List.forall_mem_cons] at hw
    exact hw.2.1.identifier hname
  | initialized hvar hname hequals hvalue hsemicolon =>
    simp only [List.forall_mem_cons, List.forall_mem_append] at hw
    exact ⟨hw.2.1.identifier hname, hvalue.named hw.2.2.2.1⟩

theorem ExpressionStatement.named {s : Stmt} (h : ExpressionStatement w s)
    (hw : ∀ t ∈ w, t.Named P) : s.Named P ∧ s.declares = false := by
  cases h with
  | mk hvalue hsemicolon => exact ⟨hvalue.named (List.forall_mem_append.1 hw).1, rfl⟩

theorem LoopInitializer.named {o : Option Stmt} (h : LoopInitializer w o)
    (hw : ∀ t ∈ w, t.Named P) : ∀ s ∈ o, s.Named P := by
  cases h with
  | none => simp
  | «variable» h =>
    rintro _ ⟨⟩
    exact h.named hw
  | expression h =>
    rintro _ ⟨⟩
    exact (h.named hw).1

theorem ParameterNames.named {names : List Token} (h : ParameterNames w names)
    (hw : ∀ t ∈ w, t.Named P) : ∀ t ∈ names, P t.lexeme := by
  induction h with
  | last h => simpa using (hw _ (.head _)).identifier h
  | cons h hcomma hrest ih =>
    simp only [List.forall_mem_cons] at hw ⊢
    exact ⟨hw.1.identifier h, ih hw.2.2⟩

theorem ParameterList.named {names : List Token} (h : ParameterList w names)
    (hw : ∀ t ∈ w, t.Named P) : ∀ t ∈ names, P t.lexeme := by
  cases h with
  | empty => simp
  | names h harity => exact h.named hw

theorem SuperclassClause.named {o : Option Use} (h : SuperclassClause w o)
    (hw : ∀ t ∈ w, t.Named P) : ∀ use ∈ o, P use.name := by
  cases h with
  | none => simp
  | some hless hname =>
    rintro _ ⟨⟩
    simp only [List.forall_mem_cons] at hw
    exact hw.2.1.identifier hname

/-- A loop has the names of its clauses and its body. -/
theorem named_loopOf {clauses : LoopClauses} {body : Stmt}
    (hinitializer : ∀ s ∈ clauses.initializer, s.Named P)
    (hcondition : ∀ e ∈ clauses.condition, e.Named P)
    (hincrement : ∀ e ∈ clauses.increment, e.Named P)
    (hbody : body.Named P ∧ body.declares = false) :
    (loopOf clauses body).Named P ∧ (loopOf clauses body).declares = false := by
  obtain ⟨initializer, condition, increment⟩ := clauses
  cases initializer <;> cases condition <;> cases increment <;>
    simp_all [Stmt.Named, Stmt.NamedAll, Expr.Named, Stmt.declares]

theorem LoopHeader.named {clauses : LoopClauses} {body : Stmt} (h : LoopHeader w clauses)
    (hw : ∀ t ∈ w, t.Named P) (hbody : body.Named P ∧ body.declares = false) :
    (loopOf clauses body).Named P ∧ (loopOf clauses body).declares = false := by
  cases h with
  | mk hinitializer hcondition hsemicolon hincrement =>
    simp only [List.forall_mem_cons, List.forall_mem_append] at hw
    exact named_loopOf (hinitializer.named hw.1.1) (hcondition.named hw.1.2)
      (hincrement.named hw.2.2) hbody

/-- A statement is no declaration. -/
def StmtPhrase.Named (P : String → Prop) : (p : StmtPhrase) → p.Tree → Prop
  | .declaration, s => s.Named P
  | .statement _, s => s.Named P ∧ s.declares = false
  | .declarations, ss | .block, ss => Stmt.NamedAll P ss
  | .routine, r => P r.name.lexeme ∧ r.Named P
  | .methods, rs => Routine.NamedAll P rs

theorem StmtPhrase.Derives.named {rule : ElseRule} {p : StmtPhrase} {tree : p.Tree}
    (h : p.Derives rule w tree) (hw : ∀ t ∈ w, t.Named P) : p.Named P tree := by
  induction h with
  | noDeclaration | noMethod => trivial
  | declaration h hrest ih ih' =>
    rw [List.forall_mem_append] at hw
    exact ⟨ih hw.1, ih' hw.2⟩
  | «class» h hname hsuperclass hleft hmethods hright ih =>
    simp only [List.forall_mem_cons, List.forall_mem_append] at hw
    exact ⟨hw.2.1.identifier hname, hsuperclass.named hw.2.2.1, ih hw.2.2.2.2.1⟩
  | function h hroutine ih => exact ih (List.forall_mem_cons.1 hw).2
  | «variable» h => exact h.named hw
  | statement h ih => exact (ih hw).1
  | method h hrest ih ih' =>
    rw [List.forall_mem_append] at hw
    exact ⟨(ih hw.1).2, ih' hw.2⟩
  | routine hname hleft hparameters hright hbody ih =>
    simp only [List.forall_mem_cons, List.forall_mem_append] at hw
    exact ⟨hw.1.identifier hname, hparameters.named hw.2.2.1, ih hw.2.2.2.2⟩
  | block hleft hbody hright ih =>
    simp only [List.forall_mem_cons, List.forall_mem_append] at hw
    exact ih hw.2.1
  | braces h ih => exact ⟨ih hw, rfl⟩
  | expression h => exact h.named hw
  | print h hvalue hsemicolon =>
    simp only [List.forall_mem_cons, List.forall_mem_append] at hw
    exact ⟨hvalue.named hw.2.1, rfl⟩
  | «return» h hvalue hsemicolon =>
    simp only [List.forall_mem_cons, List.forall_mem_append] at hw
    refine ⟨?_, rfl⟩
    cases hvalue with
    | none => trivial
    | some hvalue => exact hvalue.named hw.2.1
  | «while» h hleft hcondition hright hbody ih =>
    simp only [List.forall_mem_cons, List.forall_mem_append] at hw
    exact ⟨⟨hcondition.named hw.2.2.1, ih hw.2.2.2.2⟩, rfl⟩
  | «for» h hleft hclauses hright hbody ih =>
    simp only [List.forall_mem_cons, List.forall_mem_append] at hw
    exact hclauses.named hw.2.2.1 (ih hw.2.2.2.2)
  | ifThen h hleft hcondition hright hbranch ih =>
    simp only [List.forall_mem_cons, List.forall_mem_append] at hw
    exact ⟨⟨hcondition.named hw.2.2.1, ih hw.2.2.2.2⟩, rfl⟩
  | ifElse h hleft hcondition hright hbranch hnearest h' hother ih ih' =>
    simp only [List.forall_mem_cons, List.forall_mem_append] at hw
    exact ⟨⟨hcondition.named hw.2.2.1, ih hw.2.2.2.2.1, ih' hw.2.2.2.2.2.2⟩, rfl⟩

end Grammar

end Treewalk
