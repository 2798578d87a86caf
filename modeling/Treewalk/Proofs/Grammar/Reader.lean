import Treewalk.Proofs.Grammar.Parts
import Mathlib.Data.List.Infix

/-!
# What a reader does when nothing is wrong

A reader that ends without noting down a fault has done what its place in the grammar says. Since
faults are only ever added, a computation is free of them if all its parts are, and a property of
the parts can be put together to one of the whole.

## Main definitions

* `Yields` — faults are only added, and if none is, a relation holds of the cursor before, the
  result and the cursor behind
* `Spans` — the same for a relation of the tokens taken and the result

## Main results

* `Yields.bind`, `Spans.bind` — the two for computations one after the other
* `Yields.recover` — nothing is abandoned without a fault
-/

namespace Treewalk.Grammar

variable {α β : Type}

/-- Whatever `read` does, it keeps the faults noted down so far; and if it ends without a new one,
`P` holds of the cursor before, the result and the cursor behind. -/
def Yields (read : Reading α) (P : Cursor → α → Cursor → Prop) : Prop :=
  ∀ c, match read c with
    | .ok a c' => c.faults <:+ c'.faults ∧ (c'.faults = c.faults → P c a c')
    | .error _ c' => c.faults <:+ c'.faults

namespace Yields

variable {read : Reading α} {f : α → Reading β} {P : Cursor → α → Cursor → Prop}
  {Q : Cursor → β → Cursor → Prop}

theorem ok (h : Yields read P) {c c' : Cursor} {a : α} (hr : read c = .ok a c')
    (hc : c'.faults = c.faults) : P c a c' := by
  have := h c
  rw [hr] at this
  exact this.2 hc

theorem mono {P' : Cursor → α → Cursor → Prop} (h : Yields read P)
    (hP : ∀ c a c', P c a c' → P' c a c') : Yields read P' := by
  intro c
  have := h c
  split at this
  · exact ⟨this.1, fun hc => hP _ _ _ (this.2 hc)⟩
  · exact this

protected theorem pure {a : α} (h : ∀ c, P c a c) : Yields (pure a) P :=
  fun c => ⟨List.suffix_rfl, fun _ => h c⟩

protected theorem throw {stop : Stop} : Yields (throw stop : Reading α) P :=
  fun _ => List.suffix_rfl

/-- What holds of two computations one after the other is what holds of both, the second being
free of faults whatever the first gives. -/
protected theorem bind (hx : Yields read P)
    (hf : ∀ a, Yields (f a) fun c₁ b c' => ∀ c, P c a c₁ → Q c b c') :
    Yields (read >>= f) Q := by
  intro c
  have hxc := hx c
  simp only [bind, EStateM.bind]
  cases hr : read c with
  | error stop c₁ =>
    rw [hr] at hxc
    exact hxc
  | ok a c₁ =>
    rw [hr] at hxc
    have hfc := hf a c₁
    dsimp only
    split at hfc
    · refine ⟨hxc.1.trans hfc.1, fun hc => ?_⟩
      have h₁ : c₁.faults = c.faults :=
        (hfc.1.sublist.antisymm (hc ▸ hxc.1.sublist)).trans hc
      exact hfc.2 (hc.trans h₁.symm) c (hxc.2 h₁)
    · exact hxc.1.trans hfc

protected theorem map {g : α → β} (h : Yields read fun c a c' => Q c (g a) c') :
    Yields (g <$> read) Q := by
  rw [map_eq_pure_bind]
  exact h.bind fun _ => .pure fun _ _ h => h

end Yields

/-! ### The next token -/

section Primitives

variable {p : Token → Bool}

theorem yields_takeIf? : Yields (takeIf? p) fun c o c' =>
    match o with
    | none => c' = c ∧ ∀ t ∈ c.ahead.head?, p t = false
    | some t => p t = true ∧ c = { c' with ahead := t :: c'.ahead } := by
  intro c
  obtain ⟨ahead, finish, nextId, faults⟩ := c
  cases ahead with
  | nil => simp [takeIf?]
  | cons t rest => by_cases h : p t <;> simp [takeIf?, h]

theorem yields_fail {cause : GrammarFault} {P : Cursor → α → Cursor → Prop} :
    Yields (fail cause) P := fun _ => List.suffix_rfl

/-- Noting down a fault is not free of faults. -/
theorem yields_report {t : Token} {cause : GrammarFault} {P : Cursor → Unit → Cursor → Prop} :
    Yields (report t cause) P :=
  fun _ => ⟨List.suffix_cons _ _, fun h => absurd h (List.cons_ne_self _ _)⟩

theorem yields_expect {s : Symbol} {place : SymbolPlace} : Yields (expect s place)
    fun c t c' => t.isSymbol s = true ∧ c = { c' with ahead := t :: c'.ahead } := by
  refine yields_takeIf?.bind fun o => ?_
  cases o with
  | none => exact yields_fail
  | some t => exact .pure fun _ _ h => h

theorem yields_expectName {place : NamePlace} : Yields (expectName place)
    fun c t c' => t.isIdentifier = true ∧ c = { c' with ahead := t :: c'.ahead } := by
  refine yields_takeIf?.bind fun o => ?_
  cases o with
  | none => exact yields_fail
  | some t => exact .pure fun _ _ h => h

theorem yields_freshId :
    Yields freshId fun c id c' => id = c.nextId ∧ c' = { c with nextId := c.nextId + 1 } :=
  fun _ => ⟨List.suffix_rfl, fun _ => ⟨rfl, rfl⟩⟩

theorem yields_peek : Yields peek fun c _ c' => c' = c := fun _ => ⟨List.suffix_rfl, fun _ => rfl⟩

theorem yields_nextIs {s : Symbol} : Yields (nextIs s) fun c b c' =>
    c' = c ∧ b = c.ahead.head?.any (·.isSymbol s) :=
  fun _ => ⟨List.suffix_rfl, fun _ => ⟨rfl, rfl⟩⟩

theorem yields_atEnd : Yields atEnd fun c b c' => c' = c ∧ b = c.ahead.isEmpty :=
  fun _ => ⟨List.suffix_rfl, fun _ => ⟨rfl, rfl⟩⟩

/-- Without a fault nothing is abandoned. -/
theorem Yields.recover {read : Reading α} {P : Cursor → α → Cursor → Prop} (h : Yields read P) :
    Yields (recover read) fun c o c' => ∃ a, o = some a ∧ P c a c' := by
  intro c
  have := h c
  unfold Grammar.recover
  cases hr : read c with
  | ok a c' =>
    rw [hr] at this
    exact ⟨this.1, fun hc => ⟨a, rfl, this.2 hc⟩⟩
  | error stop c' =>
    rw [hr] at this
    cases stop with
    | exhausted => exact this
    | fault anchor cause =>
      refine ⟨this.trans (List.suffix_cons _ _), fun hc => ?_⟩
      exact absurd (this.length_le.trans_lt (Nat.lt_succ_self _)) (by simp [← hc])

end Primitives

/-! ### The tokens taken -/

/-- If `read` ends without a new fault, it took the tokens of some `w`, and `P` holds of these, the
result and the tokens left. -/
def SpansTo (read : Reading α) (P : List Token → α → List Token → Prop) : Prop :=
  Yields read fun c a c' => ∃ w, c.ahead = w ++ c'.ahead ∧ P w a c'.ahead

/-- If `read` ends without a new fault, it took the tokens of some `w`, and `P` holds of these and
the result. -/
abbrev Spans (read : Reading α) (P : List Token → α → Prop) : Prop := SpansTo read fun w a _ => P w a

namespace SpansTo

variable {read : Reading α} {f : α → Reading β} {P : List Token → α → List Token → Prop}
  {Q : List Token → β → List Token → Prop}

theorem mono {P' : List Token → α → List Token → Prop} (h : SpansTo read P)
    (hP : ∀ w a r, P w a r → P' w a r) : SpansTo read P' :=
  Yields.mono h fun _ _ _ ⟨w, hw, h⟩ => ⟨w, hw, hP w _ _ h⟩

protected theorem pure {a : α} (h : ∀ r, P [] a r) : SpansTo (pure a) P :=
  Yields.pure fun _ => ⟨[], rfl, h _⟩

protected theorem throw {stop : Stop} : SpansTo (throw stop : Reading α) P := Yields.throw

/-- The tokens the second computation takes or leaves are those that the first one leaves. -/
protected theorem bind (hx : SpansTo read P)
    (hf : ∀ a, SpansTo (f a) fun w₂ b r => ∀ w₁, P w₁ a (w₂ ++ r) → Q (w₁ ++ w₂) b r) :
    SpansTo (read >>= f) Q := by
  refine Yields.bind hx fun a => Yields.mono (hf a) ?_
  rintro c₁ b c' ⟨w₂, hw₂, h⟩ c ⟨w₁, hw₁, hP⟩
  exact ⟨w₁ ++ w₂, by rw [hw₁, hw₂, List.append_assoc], h w₁ (hw₂ ▸ hP)⟩

theorem takeIf? {p : Token → Bool} : SpansTo (takeIf? p) fun w o r =>
    match o with
    | none => w = [] ∧ ∀ t ∈ r.head?, p t = false
    | some t => p t = true ∧ w = [t] :=
  yields_takeIf?.mono fun _ o _ h => by
    cases o with
    | none => exact ⟨[], by rw [h.1]; rfl, rfl, h.1 ▸ h.2⟩
    | some t => exact ⟨[t], by rw [h.2]; rfl, h.1, rfl⟩

theorem atEnd : SpansTo atEnd fun w b r => w = [] ∧ b = r.isEmpty :=
  yields_atEnd.mono fun _ _ _ h => ⟨[], by rw [h.1]; rfl, rfl, h.1 ▸ h.2⟩

end SpansTo

namespace Spans

variable {read : Reading α} {f : α → Reading β} {P : List Token → α → Prop}
  {Q : List Token → β → Prop}

theorem mono {P' : List Token → α → Prop} (h : Spans read P) (hP : ∀ w a, P w a → P' w a) :
    Spans read P' :=
  SpansTo.mono h fun w a _ => hP w a

protected theorem pure {a : α} (h : P [] a) : Spans (pure a) P := SpansTo.pure fun _ => h

protected theorem throw {stop : Stop} : Spans (throw stop : Reading α) P := Yields.throw

protected theorem bind (hx : Spans read P)
    (hf : ∀ a, Spans (f a) fun w₂ b => ∀ w₁, P w₁ a → Q (w₁ ++ w₂) b) : Spans (read >>= f) Q :=
  SpansTo.bind hx hf

protected theorem map {g : α → β} (h : Spans read fun w a => Q w (g a)) : Spans (g <$> read) Q :=
  Yields.map h

theorem takeIf? {p : Token → Bool} : Spans (takeIf? p) fun w o =>
    match o with
    | none => w = []
    | some t => p t = true ∧ w = [t] :=
  SpansTo.takeIf?.mono fun w o r h => by
    cases o with
    | none => exact h.1
    | some t => exact h

theorem fail {cause : GrammarFault} : Spans (fail cause) P := yields_fail

theorem report {t : Token} {cause : GrammarFault} {P : List Token → Unit → Prop} :
    Spans (report t cause) P := yields_report

theorem expect {s : Symbol} {place : SymbolPlace} :
    Spans (expect s place) fun w t => t.isSymbol s = true ∧ w = [t] :=
  yields_expect.mono fun _ t _ h => ⟨[t], by rw [h.2]; rfl, h.1, rfl⟩

theorem expectName {place : NamePlace} :
    Spans (expectName place) fun w t => t.isIdentifier = true ∧ w = [t] :=
  yields_expectName.mono fun _ t _ h => ⟨[t], by rw [h.2]; rfl, h.1, rfl⟩

theorem freshId : Spans freshId fun w _ => w = [] :=
  yields_freshId.mono fun _ _ _ h => ⟨[], by rw [h.2]; rfl, rfl⟩

theorem peek : Spans peek fun w _ => w = [] :=
  yields_peek.mono fun _ _ _ h => ⟨[], by rw [h]; rfl, rfl⟩

theorem nextIs {s : Symbol} : Spans (nextIs s) fun w _ => w = [] :=
  yields_nextIs.mono fun _ _ _ h => ⟨[], by rw [h.1]; rfl, rfl⟩

theorem atEnd : Spans atEnd fun w _ => w = [] := SpansTo.atEnd.mono fun _ _ _ h => h.1

theorem noteCount {count : Nat} {cause : GrammarFault} :
    Spans (noteCount count cause) fun w _ => w = [] ∧ count < maxArity := by
  rw [Grammar.noteCount]
  split
  · exact peek.bind fun _ => report
  · next h => exact .pure ⟨rfl, Nat.lt_of_not_le h⟩

theorem optionalUnless {s : Symbol} (h : Spans read P) :
    Spans (optionalUnless s read) fun w o =>
      match o with
      | none => w = []
      | some a => P w a := by
  refine nextIs.bind fun b => ?_
  cases b with
  | true => exact .pure fun _ h => by simpa using h
  | false =>
    refine .map (h.mono ?_)
    rintro w a h _ rfl
    exact h

theorem listUnless {s : Symbol} {read : Reading (List α)} {P : List Token → List α → Prop}
    (h : Spans read P) :
    Spans (listUnless s read) fun w as => w = [] ∧ as = [] ∨ P w as := by
  refine nextIs.bind fun b => ?_
  cases b with
  | true => exact .pure fun w h => .inl ⟨by simpa using h, rfl⟩
  | false =>
    refine h.mono ?_
    rintro w as h _ rfl
    exact .inr h

theorem recover (h : Spans read P) :
    Spans (recover read) fun w o => ∃ a, o = some a ∧ P w a :=
  Yields.mono (Yields.recover h) fun _ _ _ ⟨a, ha, w, hw, h⟩ => ⟨w, hw, a, ha, h⟩

end Spans

end Treewalk.Grammar
