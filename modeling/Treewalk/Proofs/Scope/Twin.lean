import Mathlib.Data.List.Forall2
import Mathlib.Order.Basic
import Treewalk.Scope.Analysis
import Treewalk.Tree.Uses

/-!
# Twin programs

Two programs of one shape, read side by side. They have the same tokens but for the names of
variables and for the lines they are on: the second program may stand further down in its text. What
is said of a use of a name in one and its counterpart in the other is a parameter. In some scopes of
the first program one name may be spelled differently in the second.

The places of the two programs are those of scope analysis in the first one.

## Main definitions

* `Respelling` — a name, what it is replaced by, and names that are not used
* `Edit` — a respelling, and how many lines further down the second program stands
* `Expr.Twin`, `Stmt.Twin`, `Routine.Twin` — two programs of one shape
* `Site.body`, `Site.aroundMethods` — the places of a body and of the methods of a class
-/

namespace Treewalk

/-- A name, and what it is replaced by. Some names may be known not to be used at all; the reserved
ones always are. -/
structure Respelling where
  old : String
  new : String
  unused : String → Prop
  used_this : ¬unused "this"
  used_super : ¬unused "super"

namespace Respelling

variable (r : Respelling)

/-- The new spelling of a name of a scope, if the scope is one in which names are replaced. -/
def spell (respelled : Bool) (name : String) : String :=
  if respelled ∧ name = r.old then r.new else name

/-- The two spellings of one name of a scope. The new spelling is not a name of the first
program. -/
def Spells (respelled : Bool) (name name' : String) : Prop :=
  name' = r.spell respelled name ∧ (respelled → name ≠ r.new)

@[simp] theorem spell_false (name : String) : r.spell false name = name := by simp [spell]

/-- No name is replaced, and any name may be used. -/
def plain : Respelling := ⟨"", "", fun _ => False, id, id⟩

theorem spell_of_old_eq_new (h : r.old = r.new) (respelled : Bool) (name : String) :
    r.spell respelled name = name := by
  rw [spell]
  split
  · next hold => rw [hold.2, h]
  · rfl

theorem spells_refl (name : String) : r.Spells false name name :=
  ⟨(r.spell_false name).symm, by simp⟩

theorem Spells.eq {r : Respelling} {name name' : String} (h : r.Spells false name name') :
    name' = name :=
  h.1.trans (r.spell_false name)

/-- Two names of one scope have one spelling only if they are one name. -/
theorem Spells.inj {r : Respelling} {b : Bool} {x x' y y' : String} (hx : r.Spells b x x')
    (hy : r.Spells b y y') : x' = y' ↔ x = y := by
  obtain ⟨rfl, hx⟩ := hx
  obtain ⟨rfl, hy⟩ := hy
  refine ⟨fun h => ?_, fun h => by rw [h]⟩
  unfold spell at h
  cases b <;> grind

end Respelling

/-- The second of two programs has the names that a respelling tells, and stands some lines further
down in its text. -/
structure Edit extends Respelling where
  lines : Nat

/-- The program itself. -/
def Edit.plain : Edit := ⟨.plain, 0⟩

/-- A token as it is found some lines further down. -/
def Token.down (t : Token) (lines : Nat) : Token := { t with line := t.line + lines }

@[simp] theorem Token.kind_down (t : Token) (lines : Nat) : (t.down lines).kind = t.kind := rfl

@[simp] theorem Token.lexeme_down (t : Token) (lines : Nat) :
    (t.down lines).lexeme = t.lexeme := rfl

@[simp] theorem Token.line_down (t : Token) (lines : Nat) :
    (t.down lines).line = t.line + lines := rfl

/-- Whether the scope that a name belongs to is one in which names are replaced. -/
def Site.isRespelled (site : Site) (marks : List Bool) (name : String) : Bool :=
  (site.depth? name).elim false (marks.getD · false)

/-- What is said of two uses, of what kind they are and where they stand. -/
abbrev UseRelation := OccurrenceKind → Site → List Bool → Use → Use → Prop

section Expressions

variable (r : Edit) (U : UseRelation) (site : Site) (marks : List Bool)

mutual

/-- Two expressions of one shape. The place of the first one, and the scopes around it in which
names are replaced, are given. -/
inductive Expr.Twin : Expr → Expr → Prop
  | literal {value : Literal} : Twin (.literal value) (.literal value)
  | unary {operator : Token} {e e' : Expr} (h : Twin e e') :
      Twin (.unary operator e) (.unary (operator.down r.lines) e')
  | binary {operator : Token} {left left' right right' : Expr} (hleft : Twin left left')
      (hright : Twin right right') :
      Twin (.binary left operator right) (.binary left' (operator.down r.lines) right')
  | logical {operator : Token} {left left' right right' : Expr} (hleft : Twin left left')
      (hright : Twin right right') :
      Twin (.logical left operator right) (.logical left' (operator.down r.lines) right')
  | group {e e' : Expr} (h : Twin e e') : Twin (.group e) (.group e')
  | variable {use use' : Use} (h : U .variable site marks use use') :
      Twin (.variable use) (.variable use')
  | assign {use use' : Use} {value value' : Expr} (h : U .assign site marks use use')
      (hvalue : Twin value value') : Twin (.assign use value) (.assign use' value')
  | call {paren : Token} {callee callee' : Expr} {arguments arguments' : List Expr}
      (hcallee : Twin callee callee') (harguments : TwinAll arguments arguments') :
      Twin (.call callee paren arguments) (.call callee' (paren.down r.lines) arguments')
  | property {name : Token} {object object' : Expr} (h : Twin object object') :
      Twin (.property object name) (.property object' (name.down r.lines))
  | setProperty {name : Token} {object object' value value' : Expr} (h : Twin object object')
      (hvalue : Twin value value') :
      Twin (.setProperty object name value) (.setProperty object' (name.down r.lines) value')
  | this {use use' : Use} (h : U .this site marks use use') : Twin (.this use) (.this use')
  | super {method : Token} {use use' : Use} (h : U .super site marks use use') :
      Twin (.super use method) (.super use' (method.down r.lines))

inductive Expr.TwinAll : List Expr → List Expr → Prop
  | nil : TwinAll [] []
  | cons {e e' : Expr} {rest rest' : List Expr} (h : Twin e e') (hrest : TwinAll rest rest') :
      TwinAll (e :: rest) (e' :: rest')

end

end Expressions

/-- The place of the body of a routine, behind its parameters. -/
def Site.body (site : Site) (context : RoutineContext) (parameters : List Token) : Site :=
  (({ site with routine := context }.enter .empty).introduceAll parameters).2

/-- The place around the methods of a class, outside the scope of `this`. -/
def Site.aroundMethods (site : Site) (superclass : Option Use) : Site :=
  match superclass with
  | none => { site with classContext := .plain }
  | some _ => { site with classContext := .subclass }.enter (.single "super")

theorem Site.enterClass_eq (site : Site) (superclass : Option Use) :
    site.enterClass superclass = (site.aroundMethods superclass).enter (.single "this") := by
  cases superclass <;> rfl

/-- No name is replaced in the scopes that a class adds. -/
def classMarks (superclass : Option Use) (marks : List Bool) : List Bool :=
  match superclass with
  | none => marks
  | some _ => false :: marks

section Statements

variable (r : Edit) (U : UseRelation)

/-- Two tokens that declare one name in the innermost scope, which is no reserved one, not the new
spelling, and none that is known not to be used. -/
structure DeclaresTwins (marks : List Bool) (name name' : Token) : Prop where
  kind_eq : name'.kind = name.kind
  line_eq : name'.line = name.line + r.lines
  spells : r.Spells (marks.headD false) name.lexeme name'.lexeme
  ne_new : r.old ≠ r.new → name.lexeme ≠ r.new
  ne_this : name.lexeme ≠ "this"
  ne_super : name.lexeme ≠ "super"
  used : ¬r.unused name.lexeme

/-- Two superclass clauses of the class `name`. -/
inductive SuperclassTwin (site : Site) (marks : List Bool) (name : Token) :
    Option Use → Option Use → Prop
  | none : SuperclassTwin site marks name none none
  | some {use use' : Use} (h : U .variable site marks use use') (hname : use.name ≠ name.lexeme) :
      SuperclassTwin site marks name (some use) (some use')

mutual

/-- Two statements of one shape, the first one at a given place. Behind a branch or a
loop body the place is the same as before it. -/
inductive Stmt.Twin : Site → List Bool → Stmt → Stmt → Prop
  | expression {site : Site} {marks : List Bool} {value value' : Expr}
      (h : Expr.Twin r U site marks value value') :
      Stmt.Twin site marks (.expression value) (.expression value')
  | print {site : Site} {marks : List Bool} {value value' : Expr}
      (h : Expr.Twin r U site marks value value') :
      Stmt.Twin site marks (.print value) (.print value')
  | declaration {site : Site} {marks : List Bool} {name name' : Token}
      (hname : DeclaresTwins r marks name name') :
      Stmt.Twin site marks (.var name none) (.var name' none)
  | definition {site : Site} {marks : List Bool} {name name' : Token} {value value' : Expr}
      (hname : DeclaresTwins r marks name name')
      (hvalue : Expr.Twin r U (site.declare name).2 marks value value') :
      Stmt.Twin site marks (.var name (some value)) (.var name' (some value'))
  | block {site : Site} {marks : List Bool} {body body' : List Stmt} (mark : Bool)
      (hmark : mark = true → r.old ≠ r.new)
      (h : Stmt.TwinAll (site.enter .empty) (mark :: marks) body body') :
      Stmt.Twin site marks (.block body) (.block body')
  | ifThen {site : Site} {marks : List Bool} {condition condition' : Expr} {branch branch' : Stmt}
      (hcondition : Expr.Twin r U site marks condition condition')
      (hbranch : Stmt.Twin site marks branch branch') (hb : (branch.analyse site).2 = site) :
      Stmt.Twin site marks (.if condition branch none) (.if condition' branch' none)
  | ifElse {site : Site} {marks : List Bool} {condition condition' : Expr}
      {branch branch' other other' : Stmt}
      (hcondition : Expr.Twin r U site marks condition condition')
      (hbranch : Stmt.Twin site marks branch branch') (hb : (branch.analyse site).2 = site)
      (hother : Stmt.Twin site marks other other') (ho : (other.analyse site).2 = site) :
      Stmt.Twin site marks (.if condition branch (some other))
        (.if condition' branch' (some other'))
  | while {site : Site} {marks : List Bool} {condition condition' : Expr} {body body' : Stmt}
      (hcondition : Expr.Twin r U site marks condition condition')
      (hbody : Stmt.Twin site marks body body') (hb : (body.analyse site).2 = site) :
      Stmt.Twin site marks (.while condition body) (.while condition' body')
  | function {site : Site} {marks : List Bool} {routine routine' : Routine}
      (hname : DeclaresTwins r marks routine.name routine'.name)
      (h : Routine.Twin (site.introduce routine.name).2 marks .function routine routine') :
      Stmt.Twin site marks (.function routine) (.function routine')
  | return {site : Site} {marks : List Bool} {keyword : Token} :
      Stmt.Twin site marks (.return keyword none) (.return (keyword.down r.lines) none)
  | returnValue {site : Site} {marks : List Bool} {keyword : Token} {value value' : Expr}
      (h : Expr.Twin r U site marks value value') :
      Stmt.Twin site marks (.return keyword (some value))
        (.return (keyword.down r.lines) (some value'))
  | class {site : Site} {marks : List Bool} {name : Token} {superclass superclass' : Option Use}
      {methods methods' : List Routine} (hname : DeclaresTwins r marks name (name.down r.lines))
      (hsuperclass : SuperclassTwin U (site.introduce name).2 marks name superclass superclass')
      (hmethods : MethodsTwin ((site.introduce name).2.enterClass superclass)
        (false :: classMarks superclass marks) methods methods') :
      Stmt.Twin site marks (.class name superclass methods)
        (.class (name.down r.lines) superclass' methods')

inductive Stmt.TwinAll : Site → List Bool → List Stmt → List Stmt → Prop
  | nil {site : Site} {marks : List Bool} : Stmt.TwinAll site marks [] []
  | cons {site : Site} {marks : List Bool} {s s' : Stmt} {rest rest' : List Stmt}
      (h : Stmt.Twin site marks s s') (hrest : Stmt.TwinAll (s.analyse site).2 marks rest rest') :
      Stmt.TwinAll site marks (s :: rest) (s' :: rest')

/-- Two routines of one name and one shape, declared at a given place. -/
inductive Routine.Twin : Site → List Bool → RoutineContext → Routine → Routine → Prop
  | mk {site : Site} {marks : List Bool} {context : RoutineContext} {name : Token}
      {parameters parameters' : List Token} {body body' : List Stmt} (mark : Bool)
      (hmark : mark = true → r.old ≠ r.new)
      (hparameters : List.Forall₂ (DeclaresTwins r (mark :: marks)) parameters parameters')
      (hbody : Stmt.TwinAll (site.body context parameters) (mark :: marks) body body') :
      Routine.Twin site marks context ⟨name, parameters, body⟩
        ⟨name.down r.lines, parameters', body'⟩

inductive MethodsTwin : Site → List Bool → List Routine → List Routine → Prop
  | nil {site : Site} {marks : List Bool} : MethodsTwin site marks [] []
  | cons {site : Site} {marks : List Bool} {method method' : Routine} {rest rest' : List Routine}
      (h : Routine.Twin site marks (methodContext method.name) method method')
      (hrest : MethodsTwin site marks rest rest') :
      MethodsTwin site marks (method :: rest) (method' :: rest')

end

end Statements

variable {r : Edit} {U U' : UseRelation}

theorem Routine.Twin.name_eq {site : Site} {marks : List Bool} {context : RoutineContext}
    {routine routine' : Routine} (h : Routine.Twin r U site marks context routine routine') :
    routine'.name = routine.name.down r.lines := by
  cases h
  rfl

theorem Routine.Twin.arity_eq {site : Site} {marks : List Bool} {context : RoutineContext}
    {routine routine' : Routine} (h : Routine.Twin r U site marks context routine routine') :
    routine'.parameters.length = routine.parameters.length := by
  cases h with
  | mk mark hmark hparameters hbody => exact hparameters.length_eq.symm

theorem MethodsTwin.of_mem {site : Site} {marks : List Bool} {methods : List Routine}
    (h : MethodsTwin r U site marks methods methods) {method : Routine}
    (hmethod : method ∈ methods) :
    Routine.Twin r U site marks (methodContext method.name) method method := by
  induction methods with
  | nil => simp at hmethod
  | cons first rest ih =>
    cases h with
    | cons hfirst hrest =>
      rcases List.mem_cons.1 hmethod with rfl | hmethod
      · exact hfirst
      · exact ih hrest hmethod

/-! ### Weaker relations of uses -/

mutual

theorem Expr.Twin.imp {site : Site} {marks : List Bool} (hU : U ≤ U') :
    ∀ {e e' : Expr}, Expr.Twin r U site marks e e' → Expr.Twin r U' site marks e e'
  | _, _, .literal => .literal
  | _, _, .unary h => .unary (h.imp hU)
  | _, _, .binary hleft hright => .binary (hleft.imp hU) (hright.imp hU)
  | _, _, .logical hleft hright => .logical (hleft.imp hU) (hright.imp hU)
  | _, _, .group h => .group (h.imp hU)
  | _, _, .variable h => .variable (hU _ _ _ _ _ h)
  | _, _, .assign h hvalue => .assign (hU _ _ _ _ _ h) (hvalue.imp hU)
  | _, _, .call hcallee harguments => .call (hcallee.imp hU) (harguments.imp hU)
  | _, _, .property h => .property (h.imp hU)
  | _, _, .setProperty h hvalue => .setProperty (h.imp hU) (hvalue.imp hU)
  | _, _, .this h => .this (hU _ _ _ _ _ h)
  | _, _, .super h => .super (hU _ _ _ _ _ h)

theorem Expr.TwinAll.imp {site : Site} {marks : List Bool} (hU : U ≤ U') :
    ∀ {es es' : List Expr}, Expr.TwinAll r U site marks es es' → Expr.TwinAll r U' site marks es es'
  | _, _, .nil => .nil
  | _, _, .cons h hrest => .cons (h.imp hU) (hrest.imp hU)

end

theorem SuperclassTwin.imp {site : Site} {marks : List Bool} {name : Token}
    {superclass superclass' : Option Use} (hU : U ≤ U')
    (h : SuperclassTwin U site marks name superclass superclass') :
    SuperclassTwin U' site marks name superclass superclass' := by
  cases h with
  | none => exact .none
  | some h hname => exact .some (hU _ _ _ _ _ h) hname

mutual

theorem Stmt.Twin.imp (hU : U ≤ U') : ∀ {site : Site} {marks : List Bool} {s s' : Stmt},
    Stmt.Twin r U site marks s s' → Stmt.Twin r U' site marks s s'
  | _, _, _, _, .expression h => .expression (h.imp hU)
  | _, _, _, _, .print h => .print (h.imp hU)
  | _, _, _, _, .declaration hname => .declaration hname
  | _, _, _, _, .definition hname hvalue => .definition hname (hvalue.imp hU)
  | _, _, _, _, .block mark hmark h => .block mark hmark (h.imp hU)
  | _, _, _, _, .ifThen hcondition hbranch hb => .ifThen (hcondition.imp hU) (hbranch.imp hU) hb
  | _, _, _, _, .ifElse hcondition hbranch hb hother ho =>
    .ifElse (hcondition.imp hU) (hbranch.imp hU) hb (hother.imp hU) ho
  | _, _, _, _, .while hcondition hbody hb => .while (hcondition.imp hU) (hbody.imp hU) hb
  | _, _, _, _, .function hname h => .function hname (h.imp hU)
  | _, _, _, _, .return => .return
  | _, _, _, _, .returnValue h => .returnValue (h.imp hU)
  | _, _, _, _, .class hname hsuperclass hmethods =>
    .class hname (hsuperclass.imp hU) (hmethods.imp hU)

theorem Stmt.TwinAll.imp (hU : U ≤ U') : ∀ {site : Site} {marks : List Bool}
    {ss ss' : List Stmt}, Stmt.TwinAll r U site marks ss ss' → Stmt.TwinAll r U' site marks ss ss'
  | _, _, _, _, .nil => .nil
  | _, _, _, _, .cons h hrest => .cons (h.imp hU) (hrest.imp hU)

theorem Routine.Twin.imp (hU : U ≤ U') : ∀ {site : Site} {marks : List Bool}
    {context : RoutineContext} {routine routine' : Routine},
    Routine.Twin r U site marks context routine routine' →
    Routine.Twin r U' site marks context routine routine'
  | _, _, _, _, _, .mk mark hmark hparameters hbody =>
    .mk mark hmark hparameters (hbody.imp hU)

theorem MethodsTwin.imp (hU : U ≤ U') : ∀ {site : Site} {marks : List Bool}
    {methods methods' : List Routine}, MethodsTwin r U site marks methods methods' →
    MethodsTwin r U' site marks methods methods'
  | _, _, _, _, .nil => .nil
  | _, _, _, _, .cons h hrest => .cons (h.imp hU) (hrest.imp hU)

end

end Treewalk
