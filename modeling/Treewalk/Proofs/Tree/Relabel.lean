import Mathlib.Logic.Basic
import Treewalk.Grammar.Statement

/-!
# Trees up to their labels

A tree carries two kinds of labels beside its shape: tokens and node numbers. A relabeling changes
them all in the same way. Two trees are the same up to node numbers if they become equal once every
number is replaced by zero.

## Main definitions

* `Relabeling` — what becomes of a token, and of a node number
* `Expr.relabel`, `Stmt.relabel`, `Routine.relabel`
* `Expr.eraseIds`, `Stmt.eraseIds` — the tree without its node numbers
* `Expr.unlined`, `Stmt.unlined` — the tree without these and without the lines of its tokens

## Implementation notes

The functions over lists stand beside those over trees, as in the walks over a tree, so that all of
them recurse on the structure. `relabelAll_eq_map` says that they are maps.
-/

namespace Treewalk

/-- What becomes of the tokens and of the node numbers of a tree. -/
structure Relabeling where
  token : Token → Token
  node : NodeId → NodeId

variable (f : Relabeling)

def Use.relabel (u : Use) : Use := ⟨f.node u.id, f.token u.token⟩

mutual

def Expr.relabel : Expr → Expr
  | .literal value => .literal value
  | .unary operator operand => .unary (f.token operator) operand.relabel
  | .binary left operator right => .binary left.relabel (f.token operator) right.relabel
  | .logical left operator right => .logical left.relabel (f.token operator) right.relabel
  | .group inner => .group inner.relabel
  | .variable use => .variable (use.relabel f)
  | .assign target value => .assign (target.relabel f) value.relabel
  | .call callee paren arguments =>
    .call callee.relabel (f.token paren) (Expr.relabelAll arguments)
  | .property object name => .property object.relabel (f.token name)
  | .setProperty object name value => .setProperty object.relabel (f.token name) value.relabel
  | .this use => .this (use.relabel f)
  | .super use method => .super (use.relabel f) (f.token method)

def Expr.relabelAll : List Expr → List Expr
  | [] => []
  | e :: rest => e.relabel :: Expr.relabelAll rest

end

mutual

def Stmt.relabel : Stmt → Stmt
  | .expression value => .expression (value.relabel f)
  | .print value => .print (value.relabel f)
  | .var name initializer => .var (f.token name) (initializer.map (·.relabel f))
  | .block body => .block (Stmt.relabelAll body)
  | .if condition thenBranch none => .if (condition.relabel f) thenBranch.relabel none
  | .if condition thenBranch (some elseBranch) =>
    .if (condition.relabel f) thenBranch.relabel (some elseBranch.relabel)
  | .while condition body => .while (condition.relabel f) body.relabel
  | .function routine => .function routine.relabel
  | .return keyword value => .return (f.token keyword) (value.map (·.relabel f))
  | .class name superclass methods =>
    .class (f.token name) (superclass.map (·.relabel f)) (Routine.relabelAll methods)

def Stmt.relabelAll : List Stmt → List Stmt
  | [] => []
  | s :: rest => s.relabel :: Stmt.relabelAll rest

def Routine.relabel : Routine → Routine
  | ⟨name, parameters, body⟩ => ⟨f.token name, parameters.map f.token, Stmt.relabelAll body⟩

def Routine.relabelAll : List Routine → List Routine
  | [] => []
  | r :: rest => r.relabel :: Routine.relabelAll rest

end

theorem Expr.relabelAll_eq_map (es : List Expr) : Expr.relabelAll f es = es.map (·.relabel f) := by
  induction es with
  | nil => rfl
  | cons e rest ih => rw [relabelAll, ih, List.map_cons]

theorem Stmt.relabelAll_eq_map (ss : List Stmt) : Stmt.relabelAll f ss = ss.map (·.relabel f) := by
  induction ss with
  | nil => rfl
  | cons s rest ih => rw [relabelAll, ih, List.map_cons]

theorem Routine.relabelAll_eq_map (rs : List Routine) :
    Routine.relabelAll f rs = rs.map (·.relabel f) := by
  induction rs with
  | nil => rfl
  | cons r rest ih => rw [relabelAll, ih, List.map_cons]

/-! ### Nothing changed -/

/-- Everything is kept. -/
def Relabeling.keep : Relabeling := ⟨id, id⟩

mutual

theorem Expr.relabel_keep (e : Expr) : e.relabel .keep = e := by
  match e with
  | .literal _ | .variable _ | .this _ | .super _ _ => rfl
  | .unary _ operand | .property operand _ =>
    rw [Expr.relabel, operand.relabel_keep]
    rfl
  | .group inner => rw [Expr.relabel, inner.relabel_keep]
  | .binary left _ right | .logical left _ right | .setProperty left _ right =>
    rw [Expr.relabel, left.relabel_keep, right.relabel_keep]
    rfl
  | .assign _ value =>
    rw [Expr.relabel, value.relabel_keep]
    rfl
  | .call callee _ arguments =>
    rw [Expr.relabel, callee.relabel_keep, Expr.relabelAll_keep arguments]
    rfl

theorem Expr.relabelAll_keep (es : List Expr) : Expr.relabelAll .keep es = es := by
  match es with
  | [] => rfl
  | e :: rest => rw [Expr.relabelAll, e.relabel_keep, Expr.relabelAll_keep rest]

end

theorem map_relabel_keep (superclass : Option Use) :
    superclass.map (·.relabel .keep) = superclass := by
  cases superclass <;> rfl

mutual

theorem Stmt.relabel_keep (s : Stmt) : s.relabel .keep = s := by
  match s with
  | .expression value | .print value => rw [Stmt.relabel, value.relabel_keep]
  | .var _ none | .return _ none => rfl
  | .var _ (some value) | .return _ (some value) =>
    rw [Stmt.relabel, Option.map_some, value.relabel_keep]
    rfl
  | .block body => rw [Stmt.relabel, Stmt.relabelAll_keep body]
  | .if condition branch none => rw [Stmt.relabel, condition.relabel_keep, branch.relabel_keep]
  | .if condition branch (some other) =>
    rw [Stmt.relabel, condition.relabel_keep, branch.relabel_keep, other.relabel_keep]
  | .while condition body => rw [Stmt.relabel, condition.relabel_keep, body.relabel_keep]
  | .function routine => rw [Stmt.relabel, routine.relabel_keep]
  | .class _ superclass methods =>
    rw [Stmt.relabel, map_relabel_keep, Routine.relabelAll_keep methods]
    rfl

theorem Stmt.relabelAll_keep (ss : List Stmt) : Stmt.relabelAll .keep ss = ss := by
  match ss with
  | [] => rfl
  | s :: rest => rw [Stmt.relabelAll, s.relabel_keep, Stmt.relabelAll_keep rest]

theorem Routine.relabel_keep (routine : Routine) : routine.relabel .keep = routine := by
  match routine with
  | ⟨_, parameters, body⟩ =>
    have hparameters : parameters.map Relabeling.keep.token = parameters := List.map_id parameters
    rw [Routine.relabel, hparameters, Stmt.relabelAll_keep body]
    rfl

theorem Routine.relabelAll_keep (methods : List Routine) :
    Routine.relabelAll .keep methods = methods := by
  match methods with
  | [] => rfl
  | method :: rest => rw [Routine.relabelAll, method.relabel_keep, Routine.relabelAll_keep rest]

end

/-! ### One after the other -/

/-- The first relabeling and then the second one. -/
def Relabeling.andThen (f g : Relabeling) : Relabeling := ⟨g.token ∘ f.token, g.node ∘ f.node⟩

section AndThen

variable (g : Relabeling)

mutual

theorem Expr.relabel_relabel (e : Expr) : (e.relabel f).relabel g = e.relabel (f.andThen g) := by
  match e with
  | .literal _ | .variable _ | .this _ | .super _ _ => rfl
  | .unary operator operand => exact congrArg (Expr.unary _) operand.relabel_relabel
  | .property object name => exact congrArg (Expr.property · _) object.relabel_relabel
  | .group inner => exact congrArg Expr.group inner.relabel_relabel
  | .binary left operator right =>
    exact congrArg₂ (Expr.binary · _) left.relabel_relabel right.relabel_relabel
  | .logical left operator right =>
    exact congrArg₂ (Expr.logical · _) left.relabel_relabel right.relabel_relabel
  | .setProperty object name value =>
    exact congrArg₂ (Expr.setProperty · _) object.relabel_relabel value.relabel_relabel
  | .assign target value => exact congrArg (Expr.assign _) value.relabel_relabel
  | .call callee paren arguments =>
    exact congrArg₂ (Expr.call · _) callee.relabel_relabel (Expr.relabelAll_relabelAll arguments)

theorem Expr.relabelAll_relabelAll (es : List Expr) :
    Expr.relabelAll g (Expr.relabelAll f es) = Expr.relabelAll (f.andThen g) es := by
  match es with
  | [] => rfl
  | e :: rest => exact congrArg₂ List.cons e.relabel_relabel (Expr.relabelAll_relabelAll rest)

end

mutual

theorem Stmt.relabel_relabel (s : Stmt) : (s.relabel f).relabel g = s.relabel (f.andThen g) := by
  match s with
  | .expression value => exact congrArg Stmt.expression (value.relabel_relabel f g)
  | .print value => exact congrArg Stmt.print (value.relabel_relabel f g)
  | .var _ none | .return _ none => rfl
  | .var name (some value) =>
    exact congrArg (Stmt.var _ <| some ·) (value.relabel_relabel f g)
  | .return keyword (some value) =>
    exact congrArg (Stmt.return _ <| some ·) (value.relabel_relabel f g)
  | .block body => exact congrArg Stmt.block (Stmt.relabelAll_relabelAll body)
  | .if condition branch none =>
    exact congrArg₂ (Stmt.if · · none) (condition.relabel_relabel f g) branch.relabel_relabel
  | .if condition branch (some other) =>
    simp only [Stmt.relabel, condition.relabel_relabel f g, branch.relabel_relabel,
      other.relabel_relabel]
  | .while condition body =>
    exact congrArg₂ Stmt.while (condition.relabel_relabel f g) body.relabel_relabel
  | .function routine => exact congrArg Stmt.function routine.relabel_relabel
  | .class name none methods =>
    exact congrArg (Stmt.class _ none) (Routine.relabelAll_relabelAll methods)
  | .class name (some superclass) methods =>
    exact congrArg (Stmt.class _ (some _)) (Routine.relabelAll_relabelAll methods)

theorem Stmt.relabelAll_relabelAll (ss : List Stmt) :
    Stmt.relabelAll g (Stmt.relabelAll f ss) = Stmt.relabelAll (f.andThen g) ss := by
  match ss with
  | [] => rfl
  | s :: rest => exact congrArg₂ List.cons s.relabel_relabel (Stmt.relabelAll_relabelAll rest)

theorem Routine.relabel_relabel (routine : Routine) :
    (routine.relabel f).relabel g = routine.relabel (f.andThen g) := by
  match routine with
  | ⟨_, parameters, body⟩ =>
    exact congrArg₂ (Routine.mk _) List.map_map (Stmt.relabelAll_relabelAll body)

theorem Routine.relabelAll_relabelAll (methods : List Routine) :
    Routine.relabelAll g (Routine.relabelAll f methods) =
      Routine.relabelAll (f.andThen g) methods := by
  match methods with
  | [] => rfl
  | method :: rest =>
    exact congrArg₂ List.cons method.relabel_relabel (Routine.relabelAll_relabelAll rest)

end

end AndThen

/-! ### Trees built while reading -/

namespace Grammar

theorem Level.relabel_combine (level : Level) (left : Expr) (operator : Token) (right : Expr) :
    (level.combine left operator right).relabel f =
      level.combine (left.relabel f) (f.token operator) (right.relabel f) := by
  cases level <;> rfl

def LoopClauses.relabel (clauses : LoopClauses) : LoopClauses where
  initializer := clauses.initializer.map (·.relabel f)
  condition := clauses.condition.map (·.relabel f)
  increment := clauses.increment.map (·.relabel f)

theorem relabel_loopOf (clauses : LoopClauses) (body : Stmt) :
    (loopOf clauses body).relabel f = loopOf (clauses.relabel f) (body.relabel f) := by
  obtain ⟨initializer, condition, increment⟩ := clauses
  cases initializer <;> cases condition <;> cases increment <;> rfl

end Grammar

/-! ### Forgetting the node numbers -/

/-- Forgets the node numbers and nothing else. -/
def Relabeling.eraseIds : Relabeling := ⟨id, fun _ => 0⟩

@[simp] theorem Relabeling.eraseIds_token (t : Token) : eraseIds.token t = t := rfl

def Expr.eraseIds (e : Expr) : Expr := e.relabel .eraseIds

def Stmt.eraseIds (s : Stmt) : Stmt := s.relabel .eraseIds

def Routine.eraseIds (r : Routine) : Routine := r.relabel .eraseIds

/-! ### Forgetting the lines too -/

def Token.unlined (t : Token) : Token := { t with line := 0 }

/-- Forgets the node numbers and the lines of tokens. -/
def Relabeling.unlined : Relabeling := ⟨Token.unlined, fun _ => 0⟩

def Expr.unlined (e : Expr) : Expr := e.relabel .unlined

def Stmt.unlined (s : Stmt) : Stmt := s.relabel .unlined

def Routine.unlined (r : Routine) : Routine := r.relabel .unlined

/-- Trees that are the same up to node numbers are so up to node numbers and lines. -/
theorem map_unlined_of_eraseIds {ss ss' : List Stmt}
    (h : ss'.map Stmt.eraseIds = ss.map Stmt.eraseIds) :
    ss'.map Stmt.unlined = ss.map Stmt.unlined := by
  have hunlined : Stmt.unlined = (·.relabel .unlined) ∘ Stmt.eraseIds :=
    funext fun s => (s.relabel_relabel .eraseIds .unlined).symm
  rw [hunlined, ← List.map_map, h, List.map_map]

end Treewalk
