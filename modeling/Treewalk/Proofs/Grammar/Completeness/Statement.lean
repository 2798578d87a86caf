import Treewalk.Proofs.Grammar.Relaxed.Embedding
import Treewalk.Proofs.Grammar.Relaxed.Statement

/-!
# Every program is read

The reader of a phrase takes the tokens of any phrase of its kind in which every `else` belongs to
the nearest `if`, notes down no fault, and gives the tree of that phrase up to its node numbers. A
phrase of the language is a phrase of the relaxed grammar without a fault in it, and so this is what
is known of those.

## Main definitions

* `StmtPhrase.Complete` — what the reader of a phrase does with its tokens

## Main results

* `statement_complete` — every phrase of a program is read
* `program_accepts` — the same for programs
-/

namespace Treewalk.Grammar

variable {w r : List Token}

theorem declaration_exists_head {rule : ElseRule} {s : Stmt}
    (h : StmtPhrase.declaration.Derives rule w s) :
    ∃ t w', w = t :: w' ∧ startsDeclaration t :=
  Relaxed.declaration_exists_head h.relaxed

theorem StmtPhrase.Derives.noElse {rule : ElseRule} {ss : List Stmt}
    (h : StmtPhrase.declarations.Derives rule w ss) (hr : NoElse r) : NoElse (w ++ r) :=
  h.relaxed.noElse hr

/-- What the reader of a phrase does with its tokens. The reader of a block starts behind the
brace. -/
def StmtPhrase.Complete : (p : StmtPhrase) → List Token → p.Tree → Prop
  | .declaration, w, s => ∀ fuel r, 32 * w.length ≤ fuel + 4 → NoElse r →
    Accepts (Grammar.declaration fuel) w r fun o => o.map Stmt.eraseIds = some s.eraseIds
  | .declarations, w, ss =>
    (∀ fuel right r, 32 * w.length + 1 ≤ fuel → right.isSymbol .rightBrace →
      Accepts (Grammar.declarations fuel) w (right :: r) fun as =>
        as.map Stmt.eraseIds = ss.map Stmt.eraseIds) ∧
    ∀ fuel, 32 * w.length + 1 ≤ fuel →
      Accepts (program fuel) w [] fun as => as.map Stmt.eraseIds = ss.map Stmt.eraseIds
  | .statement isOpen, w, s => ∀ fuel r, 32 * w.length ≤ fuel + 8 → (isOpen → NoElse r) →
    Accepts (Grammar.statement fuel) w r fun a => a.eraseIds = s.eraseIds
  | .block, w, ss => ∃ left w', w = left :: w' ∧ left.isSymbol .leftBrace ∧
    ∀ fuel r, 32 * w.length ≤ fuel + 16 →
      Accepts (Grammar.block fuel) w' r fun as => as.map Stmt.eraseIds = ss.map Stmt.eraseIds
  | .routine, w, target => ∀ fuel kind r, 32 * w.length ≤ fuel + 4 →
    Accepts (Grammar.routine fuel kind) w r fun a => a.eraseIds = target.eraseIds
  | .methods, w, rs => ∀ fuel right r, 32 * w.length + 1 ≤ fuel → right.isSymbol .rightBrace →
    Accepts (Grammar.methods fuel) w (right :: r) fun as =>
      as.map Routine.eraseIds = rs.map Routine.eraseIds

/-- The reader of a phrase takes any phrase of its kind in which every `else` belongs to the nearest
`if`, and gives its tree up to node numbers. -/
theorem statement_complete {p : StmtPhrase} {tree : p.Tree} (h : p.Derives .nearest w tree) :
    p.Complete w tree := by
  have hnotes := Relaxed.statement_complete h.relaxed
  cases p with
  | declaration => exact fun fuel r hfuel hr => notes_zero_iff.1 (hnotes fuel r hfuel hr)
  | declarations =>
    exact ⟨fun fuel right r hfuel hright => notes_zero_iff.1 (hnotes.1 fuel right r hfuel hright),
      fun fuel hfuel => notes_zero_iff.1 (hnotes.2 fuel hfuel)⟩
  | statement isOpen => exact fun fuel r hfuel hr => notes_zero_iff.1 (hnotes fuel r hfuel hr)
  | block =>
    obtain ⟨left, w', hw, hleft, hbody⟩ := hnotes
    exact ⟨left, w', hw, hleft, fun fuel r hfuel => notes_zero_iff.1 (hbody fuel r hfuel)⟩
  | routine => exact fun fuel kind r hfuel => notes_zero_iff.1 (hnotes fuel kind r hfuel)
  | methods =>
    exact fun fuel right r hfuel hright => notes_zero_iff.1 (hnotes fuel right r hfuel hright)

theorem program_accepts {ss : List Stmt} {fuel : Nat}
    (h : StmtPhrase.declarations.Derives .nearest w ss) (hfuel : 32 * w.length + 1 ≤ fuel) :
    Accepts (program fuel) w [] fun as => as.map Stmt.eraseIds = ss.map Stmt.eraseIds :=
  (statement_complete h).2 fuel hfuel

end Treewalk.Grammar
