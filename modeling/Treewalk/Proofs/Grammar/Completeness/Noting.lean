import Mathlib.Algebra.Order.Group.Multiset
import Treewalk.Proofs.Grammar.Completeness.Accepting
import Treewalk.Proofs.Grammar.Script

/-!
# Readers that note down faults

A reader that is not abandoned may still note down faults. Those that it notes down on the tokens of
a phrase are known up to their order.

## Main definitions

* `Notes` — what a reader does with the tokens `w` in front of the tokens `r`, with its faults

## Main results

* `Notes.bind` — the same for computations one after the other
* `notes_zero_iff` — a reader that notes down nothing accepts
-/

namespace Treewalk.Grammar

variable {α β : Type}

/-- With the tokens `w ++ r` ahead, `read` takes those of `w` and notes down the faults `F`, and `P`
holds of its result. -/
def Notes (read : Reading α) (w r : List Token) (F : Multiset Diagnostic) (P : α → Prop) : Prop :=
  ∀ c : Cursor, c.ahead = w ++ r →
    ∃ a nextId new,
      read c = .ok a { c with ahead := r, nextId := nextId, faults := new ++ c.faults } ∧
        ↑new = F ∧ (∀ d ∈ new, d.unwinds = false) ∧ P a

variable {read : Reading α} {f : α → Reading β} {w w₁ w₂ r : List Token}
  {F F₁ F₂ : Multiset Diagnostic} {P P' : α → Prop} {Q : β → Prop}

theorem Accepts.notes (h : Accepts read w r P) : Notes read w r 0 P := by
  intro c hc
  obtain ⟨a, nextId, hr, ha⟩ := h c hc
  exact ⟨a, nextId, [], hr, Multiset.coe_nil, fun d hd => absurd hd List.not_mem_nil, ha⟩

theorem notes_zero_iff : Notes read w r 0 P ↔ Accepts read w r P := by
  refine ⟨fun h c hc => ?_, Accepts.notes⟩
  obtain ⟨a, nextId, new, hr, hnew, -, ha⟩ := h c hc
  obtain rfl : new = [] := (Multiset.coe_eq_zero new).1 hnew
  exact ⟨a, nextId, hr, ha⟩

namespace Notes

theorem mono (h : Notes read w r F P) (hP : ∀ a, P a → P' a) : Notes read w r F P' := by
  intro c hc
  obtain ⟨a, nextId, new, hr, hnew, hnote, ha⟩ := h c hc
  exact ⟨a, nextId, new, hr, hnew, hnote, hP a ha⟩

protected theorem pure {a : α} (h : P a) : Notes (pure a) [] r 0 P :=
  (Accepts.pure h).notes

protected theorem bind (hx : Notes read w₁ (w₂ ++ r) F₁ P)
    (hf : ∀ a, P a → Notes (f a) w₂ r F₂ Q) : Notes (read >>= f) (w₁ ++ w₂) r (F₁ + F₂) Q := by
  intro c hc
  obtain ⟨a, n₁, new₁, hr, rfl, hnote₁, ha⟩ := hx c (by rw [hc, List.append_assoc])
  obtain ⟨b, n₂, new₂, hfr, rfl, hnote₂, hb⟩ :=
    hf a ha { c with ahead := w₂ ++ r, nextId := n₁, faults := new₁ ++ c.faults } rfl
  refine ⟨b, n₂, new₂ ++ new₁, ?_, ?_, fun d hd => ?_, hb⟩
  · simp only [bind, EStateM.bind, hr]
    rw [List.append_assoc]
    exact hfr
  · rw [← Multiset.coe_add, add_comm]
  · exact (List.mem_append.1 hd).elim (hnote₂ d) (hnote₁ d)

/-- The second computation notes down nothing. -/
theorem bind_accepts (hx : Notes read w₁ (w₂ ++ r) F P)
    (hf : ∀ a, P a → Accepts (f a) w₂ r Q) : Notes (read >>= f) (w₁ ++ w₂) r F Q := by
  rw [← add_zero F]
  exact hx.bind fun a ha => (hf a ha).notes

/-- The first computation takes nothing. -/
theorem bind_nil (hx : Notes read [] (w ++ r) F₁ P) (hf : ∀ a, P a → Notes (f a) w r F₂ Q) :
    Notes (read >>= f) w r (F₁ + F₂) Q :=
  hx.bind hf

theorem bind_pure {g : α → β} (hx : Notes read w r F P) (hg : ∀ a, P a → Q (g a)) :
    Notes (read >>= fun a => pure (g a)) w r F Q := by
  rw [← List.append_nil w]
  exact hx.bind_accepts fun a ha => .pure (hg a ha)

protected theorem map {g : α → β} (hx : Notes read w r F P) (hg : ∀ a, P a → Q (g a)) :
    Notes (g <$> read) w r F Q := by
  rw [map_eq_pure_bind]
  exact hx.bind_pure hg

theorem report {t : Token} {cause : GrammarFault} (h : cause.isNote) :
    Notes (report t cause) [] r {.grammar t cause} fun _ => True := by
  rintro ⟨ahead, finish, nextId, faults⟩ rfl
  refine ⟨(), nextId, [.grammar t cause], rfl, Multiset.coe_singleton _, fun d hd => ?_, trivial⟩
  rw [List.mem_singleton.1 hd]
  exact Diagnostic.unwinds_eq_false h

theorem noteCount {t : Token} {count : Nat} {cause : GrammarFault} (h : cause.isNote) :
    Notes (noteCount count cause) [] (t :: r)
      (if maxArity ≤ count then {.grammar t cause} else 0) fun _ => True := by
  rw [Grammar.noteCount]
  split
  · rintro ⟨ahead, finish, nextId, faults⟩ rfl
    exact report h ⟨t :: r, finish, nextId, faults⟩ rfl
  · exact .pure trivial

theorem optionalUnless_some {s : Symbol} (hw : (w ++ r).head?.any (·.isSymbol s) = false)
    (h : Notes read w r F P) :
    Notes (optionalUnless s read) w r F fun o => ∃ a, o = some a ∧ P a := by
  rintro ⟨ahead, finish, nextId, faults⟩ rfl
  obtain ⟨o, n, new, hr, hrest⟩ := h.map (g := some) (Q := fun o => ∃ a, o = some a ∧ P a)
    (fun a ha => ⟨a, rfl, ha⟩) ⟨w ++ r, finish, nextId, faults⟩ rfl
  refine ⟨o, n, new, ?_, hrest⟩
  rw [← hr]
  change (if (w ++ r).head?.any (·.isSymbol s) then _ else _ : Reading (Option α)) _ = _
  rw [hw]
  rfl

theorem listUnless_of {s : Symbol} {read : Reading (List α)} {P : List α → Prop}
    (hw : (w ++ r).head?.any (·.isSymbol s) = false) (h : Notes read w r F P) :
    Notes (listUnless s read) w r F P := by
  rintro ⟨ahead, finish, nextId, faults⟩ rfl
  obtain ⟨as, n, new, hr, hrest⟩ := h ⟨w ++ r, finish, nextId, faults⟩ rfl
  refine ⟨as, n, new, ?_, hrest⟩
  rw [← hr]
  change (if (w ++ r).head?.any (·.isSymbol s) then _ else _ : Reading (List α)) _ = _
  rw [hw]
  rfl

theorem recover (h : Notes read w r F P) :
    Notes (recover read) w r F fun o => ∃ a, o = some a ∧ P a := by
  intro c hc
  obtain ⟨a, nextId, new, hr, hnew, hnote, ha⟩ := h c hc
  exact ⟨some a, nextId, new, by rw [Grammar.recover, hr], hnew, hnote, a, rfl, ha⟩

end Notes

/-- The first computation notes down nothing. -/
theorem Accepts.bind_notes (hx : Accepts read w₁ (w₂ ++ r) P)
    (hf : ∀ a, P a → Notes (f a) w₂ r F Q) : Notes (read >>= f) (w₁ ++ w₂) r F Q := by
  rw [← zero_add F]
  exact hx.notes.bind hf

/-- The first computation takes one token and notes down nothing. -/
theorem Accepts.bind_cons_notes {t : Token} (hx : Accepts read [t] (w ++ r) P)
    (hf : ∀ a, P a → Notes (f a) w r F Q) : Notes (read >>= f) (t :: w) r F Q :=
  hx.bind_notes hf

/-- The first computation takes nothing and notes down nothing. -/
theorem Accepts.bind_nil_notes (hx : Accepts read [] (w ++ r) P)
    (hf : ∀ a, P a → Notes (f a) w r F Q) : Notes (read >>= f) w r F Q :=
  hx.bind_notes hf

end Treewalk.Grammar
