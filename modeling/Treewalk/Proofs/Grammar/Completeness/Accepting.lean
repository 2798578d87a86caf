import Treewalk.Proofs.Grammar.Parts

/-!
# Readers on the tokens of their phrase

A reader that finds the tokens of its phrase ahead takes them all, leaves what stands behind them,
notes down no fault and gives a result of a given kind.

## Main definitions

* `Accepts` — what a reader does with the tokens `w` in front of the tokens `r`

## Main results

* `Accepts.bind` — the same for computations one after the other
-/

namespace Treewalk.Grammar

variable {α β : Type}

/-- With the tokens `w ++ r` ahead, `read` takes those of `w`, and `P` holds of its result. -/
def Accepts (read : Reading α) (w r : List Token) (P : α → Prop) : Prop :=
  ∀ c : Cursor, c.ahead = w ++ r →
    ∃ a nextId, read c = .ok a { c with ahead := r, nextId := nextId } ∧ P a

namespace Accepts

variable {read : Reading α} {f : α → Reading β} {w w₁ w₂ r : List Token} {P P' : α → Prop}
  {Q : β → Prop}

theorem mono (h : Accepts read w r P) (hP : ∀ a, P a → P' a) : Accepts read w r P' := by
  intro c hc
  obtain ⟨a, nextId, hr, ha⟩ := h c hc
  exact ⟨a, nextId, hr, hP a ha⟩

protected theorem pure {a : α} (h : P a) : Accepts (pure a) [] r P := by
  rintro ⟨ahead, finish, nextId, faults⟩ rfl
  exact ⟨a, nextId, rfl, h⟩

protected theorem bind (hx : Accepts read w₁ (w₂ ++ r) P)
    (hf : ∀ a, P a → Accepts (f a) w₂ r Q) : Accepts (read >>= f) (w₁ ++ w₂) r Q := by
  intro c hc
  obtain ⟨a, n₁, hr, ha⟩ := hx c (by rw [hc, List.append_assoc])
  obtain ⟨b, n₂, hfr, hb⟩ := hf a ha { c with ahead := w₂ ++ r, nextId := n₁ } rfl
  refine ⟨b, n₂, ?_, hb⟩
  simp only [bind, EStateM.bind, hr]
  exact hfr

/-- The first computation takes one token. -/
theorem bind_cons {t : Token} (hx : Accepts read [t] (w ++ r) P)
    (hf : ∀ a, P a → Accepts (f a) w r Q) : Accepts (read >>= f) (t :: w) r Q :=
  hx.bind hf

/-- The first computation takes nothing. -/
theorem bind_nil (hx : Accepts read [] (w ++ r) P) (hf : ∀ a, P a → Accepts (f a) w r Q) :
    Accepts (read >>= f) w r Q :=
  hx.bind hf

/-- The second computation takes nothing. -/
theorem bind_pure {g : α → β} (hx : Accepts read w r P) (hg : ∀ a, P a → Q (g a)) :
    Accepts (read >>= fun a => pure (g a)) w r Q := by
  rw [← List.append_nil w]
  exact Accepts.bind hx fun a ha => .pure (hg a ha)

protected theorem map {g : α → β} (hx : Accepts read w r P) (hg : ∀ a, P a → Q (g a)) :
    Accepts (g <$> read) w r Q := by
  rw [map_eq_pure_bind]
  exact hx.bind_pure hg

/-! ### The next token -/

theorem takeIf?_some {p : Token → Bool} {t : Token} (h : p t = true) :
    Accepts (takeIf? p) [t] r (· = some t) := by
  rintro ⟨ahead, finish, nextId, faults⟩ rfl
  exact ⟨some t, nextId, by simp [takeIf?, h], rfl⟩

theorem takeIf?_none {p : Token → Bool} (h : ∀ t ∈ r.head?, p t = false) :
    Accepts (takeIf? p) [] r (· = none) := by
  rintro ⟨ahead, finish, nextId, faults⟩ hc
  obtain rfl : ahead = r := hc
  refine ⟨none, nextId, ?_, rfl⟩
  cases ahead with
  | nil => rfl
  | cons t rest => simp [takeIf?, h t rfl]

theorem takeIf?_none_cons {p : Token → Bool} {t : Token} (h : p t = false) :
    Accepts (takeIf? p) [] (t :: r) (· = none) := by
  refine takeIf?_none fun t' ht => ?_
  obtain rfl := Option.some.inj ht
  exact h

theorem expect {s : Symbol} {place : SymbolPlace} {t : Token} (h : t.isSymbol s = true) :
    Accepts (expect s place) [t] r (· = t) :=
  (takeIf?_some h).bind_cons fun _ ha => ha ▸ .pure rfl

theorem expectName {place : NamePlace} {t : Token} (h : t.isIdentifier = true) :
    Accepts (expectName place) [t] r (· = t) :=
  (takeIf?_some h).bind_cons fun _ ha => ha ▸ .pure rfl

theorem freshId : Accepts freshId [] r fun _ => True := by
  rintro ⟨ahead, finish, nextId, faults⟩ rfl
  exact ⟨nextId, nextId + 1, rfl, trivial⟩

theorem nextIs {s : Symbol} : Accepts (nextIs s) [] r (· = r.head?.any (·.isSymbol s)) := by
  rintro ⟨ahead, finish, nextId, faults⟩ rfl
  exact ⟨_, nextId, rfl, rfl⟩

theorem atEnd : Accepts atEnd [] r (· = r.isEmpty) := by
  rintro ⟨ahead, finish, nextId, faults⟩ rfl
  exact ⟨_, nextId, rfl, rfl⟩

theorem optionalUnless_none {s : Symbol} {t : Token} (h : t.isSymbol s = true)
    (ht : r.head? = some t) : Accepts (optionalUnless s read) [] r (· = none) := by
  refine nextIs.bind_nil fun b hb => ?_
  obtain rfl : b = true := by simpa [ht, h] using hb
  exact .pure rfl

theorem listUnless_nil {s : Symbol} {read : Reading (List α)} {t : Token}
    (h : t.isSymbol s = true) (ht : r.head? = some t) :
    Accepts (listUnless s read) [] r (· = []) := by
  refine nextIs.bind_nil fun b hb => ?_
  obtain rfl : b = true := by simpa [ht, h] using hb
  exact .pure rfl

end Accepts

end Treewalk.Grammar
