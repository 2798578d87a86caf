import Treewalk.Diagnostic
import Treewalk.NameMap
import Treewalk.Scope.Depths

/-!
# Scopes

The scopes around a place in a program, and what is known about the place itself: the kind of
function and the kind of class it stands in. A scope tells of each of its names whether it is
declared only, or defined as well; the name of a variable is declared but not yet defined while its
initializer is read. The globals are no scope, and nothing is known about them.

## Main definitions

* `Scope`, `Site` — a scope, and a place with the scopes around it
* `Site.declare`, `Site.define`, `Site.depth?`
* `Finding` — what is found out about a program: a fault, or the depth of a use
-/

namespace Treewalk

/-- Names of a scope, with `true` for those that are defined. -/
abbrev Scope := NameMap Bool

/-- The kind of function a place stands in. -/
inductive RoutineContext
  | none
  | function
  | method
  | initializer
deriving DecidableEq, Repr

/-- The kind of class a place stands in. -/
inductive ClassContext
  | none
  | plain
  | subclass
deriving DecidableEq, Repr

/-- A place in a program; its scopes are given innermost first. -/
structure Site where
  scopes : List Scope
  routine : RoutineContext
  classContext : ClassContext

/-- A fault at a token, or a use whose declaration stands `depth` scopes out. -/
inductive Finding
  | fault (anchor : Token) (cause : ScopeFault)
  | bound (id : NodeId) (depth : Nat)

namespace Finding

def diagnostic? : Finding → Option Diagnostic
  | fault anchor cause => some (.scope anchor cause)
  | bound _ _ => none

def recordIn (table : DepthTable) : Finding → DepthTable
  | fault _ _ => table
  | bound id depth => table.record id depth

end Finding

namespace Site

/-- The top level of a program. -/
def top : Site := ⟨[], .none, .none⟩

/-- The place inside a new scope. -/
def enter (site : Site) (scope : Scope) : Site := { site with scopes := scope :: site.scopes }

/-- Declares a name in the innermost scope. A name that is there already is a fault and keeps its
state; at the top level every declaration is fine. -/
def declare (site : Site) (name : Token) : List Finding × Site :=
  match site.scopes with
  | [] => ([], site)
  | scope :: outer =>
    if scope.contains name.lexeme then ([.fault name .redeclared], site)
    else ([], { site with scopes := scope.set name.lexeme false :: outer })

/-- Marks a name of the innermost scope as defined. -/
def define (site : Site) (name : Token) : Site :=
  match site.scopes with
  | [] => site
  | scope :: outer => { site with scopes := scope.set name.lexeme true :: outer }

/-- Declares a name and marks it as defined at once. -/
def introduce (site : Site) (name : Token) : List Finding × Site :=
  let (findings, site) := site.declare name
  (findings, site.define name)

/-- How many scopes out a name is declared. -/
def depth? (site : Site) (name : String) : Option Nat :=
  site.scopes.findIdx? (·.contains name)

/-- The finding for a use of a name: its depth, or nothing for a global. -/
def bind (site : Site) (use : Use) : List Finding :=
  match site.depth? use.name with
  | some depth => [.bound use.id depth]
  | none => []

/-- Whether a name is declared in the innermost scope and not defined yet. -/
def isBeingInitialized (site : Site) (name : String) : Bool :=
  match site.scopes with
  | [] => false
  | scope :: _ => scope.get? name == some false

end Site

end Treewalk
