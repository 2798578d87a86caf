import Mathlib.Order.Nat
import Treewalk.Proofs.Scope.Twin

/-!
# Linked uses

What the depth tables tell about the uses of two twin programs: for both uses of a pair, the depth
that scope analysis finds for the first one. Apart from that, a name that is read is defined in its
scope, a use of `this` stands inside a scope of `this`, and a use of `super` stands in a subclass,
inside a scope of `this` that is directly inside that of `super`.

## Main definitions

* `Numbering` — a depth table, and the node numbers given out so far
* `Linked` — two uses whose entries are the depth of the first one
-/

namespace Treewalk

/-- A depth table, and the first node number that was not given out yet. -/
structure Numbering where
  table : DepthTable
  bound : NodeId

namespace Numbering

/-- What the table tells about a number that was given out. -/
def Tells (N : Numbering) (id : NodeId) (depth? : Option Nat) : Prop :=
  id < N.bound ∧ N.table.depth? id = depth?

/-- More numbers are given out, and nothing changes for those that were. -/
structure Extends (N N' : Numbering) : Prop where
  bound_le : N.bound ≤ N'.bound
  depth?_eq : ∀ id < N.bound, N'.table.depth? id = N.table.depth? id

theorem Extends.refl (N : Numbering) : N.Extends N := ⟨le_rfl, fun _ _ => rfl⟩

theorem Extends.trans {N₁ N₂ N₃ : Numbering} (h : N₁.Extends N₂) (h' : N₂.Extends N₃) :
    N₁.Extends N₃ :=
  ⟨h.bound_le.trans h'.bound_le, fun id hid =>
    (h'.depth?_eq id (hid.trans_le h.bound_le)).trans (h.depth?_eq id hid)⟩

theorem Tells.mono {N N' : Numbering} (h : N.Extends N') {id : NodeId} {depth? : Option Nat}
    (ht : N.Tells id depth?) : N'.Tells id depth? :=
  ⟨ht.1.trans_le h.bound_le, (h.depth?_eq id ht.1).trans ht.2⟩

end Numbering

/-- The declaration of a name defines it in the innermost scope and changes nothing else. -/
theorem Site.introduce_cons (scope : Scope) (outer : List Scope) (routine : RoutineContext)
    (classContext : ClassContext) (name : Token) :
    ∃ scope' : Scope, (introduce ⟨scope :: outer, routine, classContext⟩ name).2 =
        ⟨scope' :: outer, routine, classContext⟩ ∧ scope'.get? name.lexeme = some true ∧
      ∀ other, other ≠ name.lexeme → scope'.get? other = scope.get? other := by
  by_cases h : scope.contains name.lexeme
  · exact ⟨scope.set name.lexeme true, by simp [introduce, declare, define, h],
      NameMap.get?_set_self _ _ _, fun other hne => NameMap.get?_set_of_ne _ hne _⟩
  · refine ⟨(scope.set name.lexeme false).set name.lexeme true,
      by simp [introduce, declare, define, h], NameMap.get?_set_self _ _ _, fun other hne => ?_⟩
    rw [NameMap.get?_set_of_ne _ hne, NameMap.get?_set_of_ne _ hne]

/-- A name that belongs to a scope is defined there. -/
def Site.Defines (site : Site) (name : String) : Prop :=
  ∀ depth, site.depth? name = some depth →
    ∃ scope, site.scopes[depth]? = some scope ∧ scope.get? name = some true

/-- Directly inside the scope that a name belongs to is the one that `this` belongs to. -/
def Site.HasReceiver (site : Site) (marks : List Bool) (name : String) : Prop :=
  ∃ depth scope, site.depth? name = some (depth + 1) ∧ site.depth? "this" = some depth ∧
    site.scopes[depth]? = some scope ∧ scope.get? "this" = some true ∧
    marks.getD depth false = false

/-- What a use of a kind can be a use of: `this` and `super` are uses of their own names, and no
assignment is. -/
structure OccurrenceKind.Names (kind : OccurrenceKind) (name : String) : Prop where
  this_eq : kind = .this → name = "this"
  super_eq : kind = .super → name = "super"
  not_reserved : kind = .assign → name ≠ "this" ∧ name ≠ "super"

/-- Two uses for which the tables tell the depth of the first one. -/
structure Linked (r : Edit) (N N' : Numbering) (kind : OccurrenceKind) (site : Site)
    (marks : List Bool) (use use' : Use) : Prop where
  left : N.Tells use.id (site.depth? use.name)
  right : N'.Tells use'.id (site.depth? use.name)
  line_eq : use'.token.line = use.token.line + r.lines
  spells : r.Spells (site.isRespelled marks use.name) use.name use'.name
  used : ¬r.unused use.name
  names : kind.Names use.name
  defines : kind ≠ .assign → site.Defines use.name
  this : kind = .this → (site.depth? use.name).isSome
  receiver : kind = .super → site.classContext = .subclass ∧ site.HasReceiver marks use.name

theorem Linked.mono {r : Edit} {N N' N₁ N₁' : Numbering} (h : N.Extends N₁)
    (h' : N'.Extends N₁') : Linked r N N' ≤ Linked r N₁ N₁' :=
  fun _ _ _ _ _ hu => { hu with left := hu.left.mono h, right := hu.right.mono h' }

end Treewalk
