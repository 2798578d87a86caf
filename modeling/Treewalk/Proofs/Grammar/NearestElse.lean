import Mathlib.Algebra.Order.Group.Multiset
import Treewalk.Proofs.Grammar.Relaxed.Phrase

/-!
# The nearest `if`

The free rules give some lists of tokens several trees, which differ in the `if` that an `else`
belongs to, but not in the faults. One of them gives every `else` to the nearest `if`, so the two
sets of rules have the same programs.

## Main results

* `Relaxed.StmtDerives.attach` — an `else` behind an open statement belongs to an `if` in it
* `Relaxed.StmtDerives.nearest` — a program of the free rules is one of the others
* `StmtPhrase.Derives.free` — a phrase of the language by the other rules is one of the free rules
-/

namespace Treewalk.Grammar

namespace Relaxed.StmtDerives

/-- With the tokens `w'` and the faults `F'` behind it, an open statement is a statement again. -/
def Extends (w' : List Token) (F' : Multiset Diagnostic) :
    (p : StmtPhrase) → List Token → Multiset Diagnostic → Prop
  | .statement true, w, F =>
    ∃ isOpen s, StmtDerives .nearest (.statement isOpen) (w ++ w') s (F + F')
  | _, _, _ => True

theorem extends_else {p : StmtPhrase} {w w' : List Token} {tree : p.Tree} {t : Token}
    {isOpen : Bool} {other : Stmt} {F F' : Multiset Diagnostic}
    (h : StmtDerives .nearest p w tree F) (ht : t.isKeyword .else)
    (hother : StmtDerives .nearest (.statement isOpen) w' other F') :
    Extends (t :: w') F' p w F := by
  induction h with
  | @«while» inner _ _ _ _ _ _ _ _ _ h hleft hcondition hright hbody ih =>
    cases inner with
    | false => trivial
    | true =>
      obtain ⟨isOpen', body', hbody'⟩ := ih
      have hloop := StmtDerives.while h hleft hcondition hright hbody'
      exact ⟨isOpen', _, by simpa [add_assoc] using hloop⟩
  | @«for» inner _ _ _ _ _ _ _ _ _ h hleft hclauses hright hbody ih =>
    cases inner with
    | false => trivial
    | true =>
      obtain ⟨isOpen', body', hbody'⟩ := ih
      have hloop := StmtDerives.for h hleft hclauses hright hbody'
      exact ⟨isOpen', _, by simpa [add_assoc] using hloop⟩
  | @ifThen inner _ _ _ _ _ _ _ _ _ h hleft hcondition hright hbranch ih =>
    cases inner with
    | false =>
      have hboth := StmtDerives.ifElse h hleft hcondition hright hbranch (fun _ => rfl) ht hother
      exact ⟨isOpen, _, by simpa using hboth⟩
    | true =>
      obtain ⟨isOpen', branch', hbranch'⟩ := ih
      have hboth := StmtDerives.ifThen h hleft hcondition hright hbranch'
      exact ⟨true, _, by simpa [add_assoc] using hboth⟩
  | @ifElse _ inner _ _ _ _ _ _ _ _ _ _ _ _ _ h hleft hcondition hright hbranch hnearest h' hother'
      ih ihother =>
    cases inner with
    | false => trivial
    | true =>
      obtain ⟨isOpen', other', hother'⟩ := ihother
      have hboth := StmtDerives.ifElse h hleft hcondition hright hbranch hnearest h' hother'
      exact ⟨isOpen', _, by simpa [add_assoc] using hboth⟩
  | _ => trivial

/-- With an `else` and a statement behind it, an open statement is a statement again. -/
theorem attach {w w' : List Token} {t : Token} {isOpen : Bool} {s other : Stmt}
    {F F' : Multiset Diagnostic} (h : StmtDerives .nearest (.statement true) w s F)
    (ht : t.isKeyword .else) (hother : StmtDerives .nearest (.statement isOpen) w' other F') :
    ∃ isOpen' s', StmtDerives .nearest (.statement isOpen') (w ++ t :: w') s' (F + F') :=
  extends_else h ht hother

/-- What the tokens of a phrase of the free rules are by the others. A statement may be open by the
ones and not by the others. -/
def IsNearest : (p : StmtPhrase) → List Token → Multiset Diagnostic → Prop
  | .statement _, w, F => ∃ isOpen s, StmtDerives .nearest (.statement isOpen) w s F
  | p, w, F => ∃ tree, StmtDerives .nearest p w tree F

theorem isNearest {p : StmtPhrase} {w : List Token} {tree : p.Tree} {F : Multiset Diagnostic}
    (h : StmtDerives .free p w tree F) : IsNearest p w F := by
  induction h with
  | noDeclaration => exact ⟨_, .noDeclaration⟩
  | declaration h hrest ih ihrest =>
    obtain ⟨s, hs⟩ := ih
    obtain ⟨rest, hrest⟩ := ihrest
    exact ⟨_, .declaration hs hrest⟩
  | «class» h hname hsuperclass hleft hmethods hright ih =>
    obtain ⟨methods, hmethods⟩ := ih
    exact ⟨_, .class h hname hsuperclass hleft hmethods hright⟩
  | function h hroutine ih =>
    obtain ⟨routine, hroutine⟩ := ih
    exact ⟨_, .function h hroutine⟩
  | «variable» h => exact ⟨_, .variable h⟩
  | statement h ih =>
    obtain ⟨isOpen, s, hs⟩ := ih
    exact ⟨_, .statement hs⟩
  | noMethod => exact ⟨_, .noMethod⟩
  | method h hrest ih ihrest =>
    obtain ⟨routine, hroutine⟩ := ih
    obtain ⟨rest, hrest⟩ := ihrest
    exact ⟨_, .method hroutine hrest⟩
  | routine hname hleft hparameters hright hbody ih =>
    obtain ⟨body, hbody⟩ := ih
    exact ⟨_, .routine hname hleft hparameters hright hbody⟩
  | block hleft hbody hright ih =>
    obtain ⟨body, hbody⟩ := ih
    exact ⟨_, .block hleft hbody hright⟩
  | braces h ih =>
    obtain ⟨body, hbody⟩ := ih
    exact ⟨_, _, .braces hbody⟩
  | expression h => exact ⟨_, _, .expression h⟩
  | print h hvalue hsemicolon => exact ⟨_, _, .print h hvalue hsemicolon⟩
  | «return» h hvalue hsemicolon => exact ⟨_, _, .return h hvalue hsemicolon⟩
  | «while» h hleft hcondition hright hbody ih =>
    obtain ⟨isOpen, body, hbody⟩ := ih
    exact ⟨_, _, .while h hleft hcondition hright hbody⟩
  | «for» h hleft hclauses hright hbody ih =>
    obtain ⟨isOpen, body, hbody⟩ := ih
    exact ⟨_, _, .for h hleft hclauses hright hbody⟩
  | ifThen h hleft hcondition hright hbranch ih =>
    obtain ⟨isOpen, branch, hbranch⟩ := ih
    exact ⟨_, _, .ifThen h hleft hcondition hright hbranch⟩
  | ifElse h hleft hcondition hright hbranch hnearest h' hother ih ihother =>
    obtain ⟨isOpen, branch, hbranch⟩ := ih
    obtain ⟨isOpen', other, hother⟩ := ihother
    cases hopen : isOpen with
    | false =>
      exact ⟨_, _, .ifElse h hleft hcondition hright hbranch (fun _ => hopen) h' hother⟩
    | true =>
      subst hopen
      obtain ⟨_, _, hboth⟩ := hbranch.attach h' hother
      exact ⟨_, _, by simpa [add_assoc] using StmtDerives.ifThen h hleft hcondition hright hboth⟩

theorem nearest {w : List Token} {body : List Stmt} {F : Multiset Diagnostic}
    (h : StmtDerives .free .declarations w body F) :
    ∃ body', StmtDerives .nearest .declarations w body' F :=
  isNearest h

end Relaxed.StmtDerives

theorem StmtPhrase.Derives.free {p : StmtPhrase} {w : List Token} {tree : p.Tree}
    (h : p.Derives .nearest w tree) : p.Derives .free w tree := by
  induction h with
  | noDeclaration => exact .noDeclaration
  | declaration h hrest ih ihrest => exact .declaration ih ihrest
  | «class» h hname hsuperclass hleft hmethods hright ih =>
    exact .class h hname hsuperclass hleft ih hright
  | function h hroutine ih => exact .function h ih
  | «variable» h => exact .variable h
  | statement h ih => exact .statement ih
  | noMethod => exact .noMethod
  | method h hrest ih ihrest => exact .method ih ihrest
  | routine hname hleft hparameters hright hbody ih =>
    exact .routine hname hleft hparameters hright ih
  | block hleft hbody hright ih => exact .block hleft ih hright
  | braces h ih => exact .braces ih
  | expression h => exact .expression h
  | print h hvalue hsemicolon => exact .print h hvalue hsemicolon
  | «return» h hvalue hsemicolon => exact .return h hvalue hsemicolon
  | «while» h hleft hcondition hright hbody ih => exact .while h hleft hcondition hright ih
  | «for» h hleft hclauses hright hbody ih => exact .for h hleft hclauses hright ih
  | ifThen h hleft hcondition hright hbranch ih => exact .ifThen h hleft hcondition hright ih
  | ifElse h hleft hcondition hright hbranch hnearest h' hother ih ihother =>
    exact .ifElse h hleft hcondition hright ih (fun h => ElseRule.noConfusion h) h' ihother

end Treewalk.Grammar
