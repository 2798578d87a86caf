import Treewalk.Proofs.Grammar.Phrase

/-!
# The tokens at which a program may fail

A runtime fault is reported at a token: an operator, a name, or the parenthesis behind the arguments
of a call. All these are among the tokens that the program was read from.

## Main definitions

* `Expr.Anchored`, `Stmt.Anchored` — trees whose faults are reported at tokens with a property

## Main results

* `Grammar.StmtPhrase.Derives.anchored` — what holds of all tokens of a phrase holds of these
-/

namespace Treewalk

variable (P : Token → Prop)

mutual

/-- The tokens at which an expression may fail have the property. -/
def Expr.Anchored : Expr → Prop
  | .literal _ => True
  | .unary operator operand => P operator ∧ operand.Anchored
  | .binary left operator right => left.Anchored ∧ P operator ∧ right.Anchored
  | .logical left _ right => left.Anchored ∧ right.Anchored
  | .group inner => inner.Anchored
  | .variable use => P use.token
  | .assign target value => P target.token ∧ value.Anchored
  | .call callee paren arguments => callee.Anchored ∧ P paren ∧ Expr.AnchoredAll arguments
  | .property object name => object.Anchored ∧ P name
  | .setProperty object name value => object.Anchored ∧ P name ∧ value.Anchored
  | .this use => P use.token
  | .super use method => P use.token ∧ P method

def Expr.AnchoredAll : List Expr → Prop
  | [] => True
  | e :: rest => e.Anchored ∧ Expr.AnchoredAll rest

end

mutual

/-- The tokens at which a statement, or a routine declared in it, may fail have the property. -/
def Stmt.Anchored : Stmt → Prop
  | .expression value => value.Anchored P
  | .print value => value.Anchored P
  | .var _ none => True
  | .var _ (some value) => value.Anchored P
  | .block body => Stmt.AnchoredAll body
  | .if condition branch none => condition.Anchored P ∧ branch.Anchored
  | .if condition branch (some other) => condition.Anchored P ∧ branch.Anchored ∧ other.Anchored
  | .while condition body => condition.Anchored P ∧ body.Anchored
  | .function routine => routine.Anchored
  | .return _ none => True
  | .return _ (some value) => value.Anchored P
  | .class _ superclass methods => (∀ use ∈ superclass, P use.token) ∧ Routine.AnchoredAll methods

def Stmt.AnchoredAll : List Stmt → Prop
  | [] => True
  | s :: rest => s.Anchored ∧ Stmt.AnchoredAll rest

def Routine.Anchored : Routine → Prop
  | ⟨_, _, body⟩ => Stmt.AnchoredAll body

def Routine.AnchoredAll : List Routine → Prop
  | [] => True
  | r :: rest => r.Anchored ∧ Routine.AnchoredAll rest

end

variable {P}

theorem Routine.anchored_iff {routine : Routine} :
    routine.Anchored P ↔ Stmt.AnchoredAll P routine.body := by
  cases routine
  rfl

theorem Routine.AnchoredAll.of_mem {methods : List Routine} (h : Routine.AnchoredAll P methods)
    {method : Routine} (hmethod : method ∈ methods) : method.Anchored P := by
  induction methods with
  | nil => cases hmethod
  | cons first rest ih =>
    obtain rfl | hrest := List.mem_cons.1 hmethod
    · exact h.1
    · exact ih h.2 hrest

namespace Grammar

variable {w : List Token}

/-! ### Expressions -/

theorem Level.anchored_combine {level : Level} {left right : Expr} {operator : Token}
    (hleft : left.Anchored P) (hoperator : P operator) (hright : right.Anchored P) :
    (level.combine left operator right).Anchored P := by
  cases level with
  | disjunction | conjunction => exact ⟨hleft, hright⟩
  | equality | comparison | term | factor => exact ⟨hleft, hoperator, hright⟩

/-- What is built behind an operand or an object is reported at its tokens, or at those of the
operand or object. -/
def ExprPhrase.Anchored (P : Token → Prop) : (p : ExprPhrase) → p.Tree → Prop
  | .operators _ left, e | .accesses left, e => left.Anchored P → e.Anchored P
  | .arguments, es => Expr.AnchoredAll P es
  | .expression, e | .operand _, e | .call, e | .primary, e => e.Anchored P

theorem ExprPhrase.Derives.anchored {p : ExprPhrase} {e : p.Tree} (h : p.Derives w e)
    (hw : ∀ t ∈ w, P t) : p.Anchored P e := by
  induction h with
  | assignVariable hname hequals hvalue ih =>
    simp only [List.forall_mem_cons] at hw
    exact ⟨hw.1, ih hw.2.2⟩
  | assignProperty hobject hdot hname hequals hvalue ih ih' =>
    simp only [List.forall_mem_cons, List.forall_mem_append] at hw
    exact ⟨ih hw.1, hw.2.2.1, ih' hw.2.2.2.2⟩
  | loosest h ih | plain h ih => exact ih hw
  | operation hleft hrest ih ih' | call hleft hrest ih ih' =>
    rw [List.forall_mem_append] at hw
    exact ih' hw.2 (ih hw.1)
  | noOperator | noAccess => exact id
  | operator hoperator hright hrest ih ih' =>
    simp only [List.forall_mem_cons, List.forall_mem_append] at hw
    exact fun hleft => ih' hw.2.2 (Level.anchored_combine hleft hw.1 (ih hw.2.1))
  | unary hoperator hoperand ih =>
    rw [List.forall_mem_cons] at hw
    exact ⟨hw.1, ih hw.2⟩
  | emptyCall hleft hright hrest ih =>
    simp only [List.forall_mem_cons] at hw
    exact fun hobject => ih hw.2.2 ⟨hobject, hw.2.1, trivial⟩
  | fullCall hleft hvalues harity hright hrest ih ih' =>
    simp only [List.forall_mem_cons, List.forall_mem_append] at hw
    exact fun hobject => ih' hw.2.2.2 ⟨hobject, hw.2.2.1, ih hw.2.1⟩
  | property hdot hname hrest ih =>
    simp only [List.forall_mem_cons] at hw
    exact fun hobject => ih hw.2.2 ⟨hobject, hw.2.1⟩
  | lastArgument h ih => exact ⟨ih hw, trivial⟩
  | argument h hcomma hrest ih ih' =>
    simp only [List.forall_mem_cons, List.forall_mem_append] at hw
    exact ⟨ih hw.1, ih' hw.2.2⟩
  | literal h => trivial
  | this h | «variable» h => exact hw _ (.head _)
  | group hleft hinner hright ih =>
    simp only [List.forall_mem_cons, List.forall_mem_append] at hw
    exact ih hw.2.1
  | super h hdot hmethod =>
    simp only [List.forall_mem_cons] at hw
    exact ⟨hw.1, hw.2.2.1⟩

theorem OptionalExpression.anchored {o : Option Expr} (h : OptionalExpression w o)
    (hw : ∀ t ∈ w, P t) : ∀ e ∈ o, e.Anchored P := by
  cases h with
  | none => simp
  | some h =>
    rintro _ ⟨⟩
    exact h.anchored hw

/-! ### Statements -/

theorem VariableDeclaration.anchored {s : Stmt} (h : VariableDeclaration w s)
    (hw : ∀ t ∈ w, P t) : s.Anchored P := by
  cases h with
  | plain hvar hname hsemicolon => trivial
  | initialized hvar hname hequals hvalue hsemicolon =>
    simp only [List.forall_mem_cons, List.forall_mem_append] at hw
    exact hvalue.anchored hw.2.2.2.1

theorem ExpressionStatement.anchored {s : Stmt} (h : ExpressionStatement w s)
    (hw : ∀ t ∈ w, P t) : s.Anchored P := by
  cases h with
  | mk hvalue hsemicolon => exact hvalue.anchored (List.forall_mem_append.1 hw).1

theorem LoopInitializer.anchored {o : Option Stmt} (h : LoopInitializer w o)
    (hw : ∀ t ∈ w, P t) : ∀ s ∈ o, s.Anchored P := by
  cases h with
  | none => simp
  | «variable» h =>
    rintro _ ⟨⟩
    exact h.anchored hw
  | expression h =>
    rintro _ ⟨⟩
    exact h.anchored hw

theorem SuperclassClause.anchored {o : Option Use} (h : SuperclassClause w o)
    (hw : ∀ t ∈ w, P t) : ∀ use ∈ o, P use.token := by
  cases h with
  | none => simp
  | some hless hname =>
    rintro _ ⟨⟩
    exact hw _ (.tail _ (.head _))

/-- A loop fails at the tokens of its clauses and its body. -/
theorem anchored_loopOf {clauses : LoopClauses} {body : Stmt}
    (hinitializer : ∀ s ∈ clauses.initializer, s.Anchored P)
    (hcondition : ∀ e ∈ clauses.condition, e.Anchored P)
    (hincrement : ∀ e ∈ clauses.increment, e.Anchored P) (hbody : body.Anchored P) :
    (loopOf clauses body).Anchored P := by
  obtain ⟨initializer, condition, increment⟩ := clauses
  cases initializer <;> cases condition <;> cases increment <;>
    simp_all [Stmt.Anchored, Stmt.AnchoredAll, Expr.Anchored]

theorem LoopHeader.anchored {clauses : LoopClauses} {body : Stmt} (h : LoopHeader w clauses)
    (hw : ∀ t ∈ w, P t) (hbody : body.Anchored P) : (loopOf clauses body).Anchored P := by
  cases h with
  | mk hinitializer hcondition hsemicolon hincrement =>
    simp only [List.forall_mem_cons, List.forall_mem_append] at hw
    exact anchored_loopOf (hinitializer.anchored hw.1.1) (hcondition.anchored hw.1.2)
      (hincrement.anchored hw.2.2) hbody

def StmtPhrase.Anchored (P : Token → Prop) : (p : StmtPhrase) → p.Tree → Prop
  | .declaration, s | .statement _, s => s.Anchored P
  | .declarations, ss | .block, ss => Stmt.AnchoredAll P ss
  | .routine, r => r.Anchored P
  | .methods, rs => Routine.AnchoredAll P rs

/-- What holds of all tokens of a phrase holds of those at which it may fail. -/
theorem StmtPhrase.Derives.anchored {rule : ElseRule} {p : StmtPhrase} {tree : p.Tree}
    (h : p.Derives rule w tree) (hw : ∀ t ∈ w, P t) : p.Anchored P tree := by
  induction h with
  | noDeclaration | noMethod => trivial
  | declaration h hrest ih ih' | method h hrest ih ih' =>
    rw [List.forall_mem_append] at hw
    exact ⟨ih hw.1, ih' hw.2⟩
  | «class» h hname hsuperclass hleft hmethods hright ih =>
    simp only [List.forall_mem_cons, List.forall_mem_append] at hw
    exact ⟨hsuperclass.anchored hw.2.2.1, ih hw.2.2.2.2.1⟩
  | function h hroutine ih => exact ih (List.forall_mem_cons.1 hw).2
  | «variable» h => exact h.anchored hw
  | statement h ih | braces h ih => exact ih hw
  | routine hname hleft hparameters hright hbody ih =>
    simp only [List.forall_mem_cons, List.forall_mem_append] at hw
    exact ih hw.2.2.2.2
  | block hleft hbody hright ih =>
    simp only [List.forall_mem_cons, List.forall_mem_append] at hw
    exact ih hw.2.1
  | expression h => exact h.anchored hw
  | print h hvalue hsemicolon =>
    simp only [List.forall_mem_cons, List.forall_mem_append] at hw
    exact hvalue.anchored hw.2.1
  | «return» h hvalue hsemicolon =>
    simp only [List.forall_mem_cons, List.forall_mem_append] at hw
    cases hvalue with
    | none => trivial
    | some hvalue => exact hvalue.anchored hw.2.1
  | «while» h hleft hcondition hright hbody ih =>
    simp only [List.forall_mem_cons, List.forall_mem_append] at hw
    exact ⟨hcondition.anchored hw.2.2.1, ih hw.2.2.2.2⟩
  | «for» h hleft hclauses hright hbody ih =>
    simp only [List.forall_mem_cons, List.forall_mem_append] at hw
    exact hclauses.anchored hw.2.2.1 (ih hw.2.2.2.2)
  | ifThen h hleft hcondition hright hbranch ih =>
    simp only [List.forall_mem_cons, List.forall_mem_append] at hw
    exact ⟨hcondition.anchored hw.2.2.1, ih hw.2.2.2.2⟩
  | ifElse h hleft hcondition hright hbranch hnearest h' hother ih ih' =>
    simp only [List.forall_mem_cons, List.forall_mem_append] at hw
    exact ⟨hcondition.anchored hw.2.2.1, ih hw.2.2.2.2.1, ih' hw.2.2.2.2.2.2⟩

end Grammar

end Treewalk
