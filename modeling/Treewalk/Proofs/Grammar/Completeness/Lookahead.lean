import Mathlib.Order.Nat
import Treewalk.Proofs.Grammar.Phrase

/-!
# What the next token tells

A reader decides by the next token alone. What it takes for a part of its phrase cannot stand behind
the phrase, and what its phrase starts with tells it from every other phrase.

## Main definitions

* `Level.rank`, `reach` — how tight an operator binds, and how tight a phrase must be not to be
  extended by a token behind it
* `Ends` — the tokens behind a phrase do not extend it
* `startsExpression`, `startsDeclaration` — the tokens a phrase starts with

## Main results

* `holds_iff_reach` — the operators of a level are the tokens of its rank
-/

namespace Treewalk.Grammar

/-! ### Behind a phrase -/

def Level.rank : Level → Nat
  | disjunction => 2
  | conjunction => 3
  | equality => 4
  | comparison => 5
  | term => 6
  | factor => 7

/-- The tightness of an operand; that of a unary expression is beyond all levels. -/
def operandRank : Option Level → Nat
  | some level => level.rank
  | none => 8

theorem operandRank_tighter? (level : Level) :
    operandRank level.tighter? = operandRank (some level) + 1 := by
  cases level <;> rfl

theorem operandRank_le (level : Option Level) : operandRank level ≤ 8 := by
  rcases level with - | level
  · exact le_rfl
  · cases level <;> decide

theorem two_le_operandRank (level : Option Level) : 2 ≤ operandRank level := by
  rcases level with - | level
  · decide
  · cases level <;> decide

/-- A token behind a phrase extends it if the phrase is at most this tight. Most tokens extend no
phrase. -/
def reach (t : Token) : Nat :=
  match t.kind with
  | .symbol .equal => 1
  | .keyword .or => 2
  | .keyword .and => 3
  | .symbol .bangEqual | .symbol .equalEqual => 4
  | .symbol .greater | .symbol .greaterEqual | .symbol .less | .symbol .lessEqual => 5
  | .symbol .minus | .symbol .plus => 6
  | .symbol .slash | .symbol .star => 7
  | .symbol .leftParen | .symbol .dot => 8
  | _ => 0

theorem holds_iff_reach (level : Level) (t : Token) : level.holds t ↔ reach t = level.rank := by
  obtain ⟨kind, lexeme, line⟩ := t
  cases kind with
  | symbol s => cases s <;> cases level <;> simp [Level.holds_iff, reach, Level.rank]
  | keyword k => cases k <;> cases level <;> simp [Level.holds_iff, reach, Level.rank]
  | _ => cases level <;> simp [Level.holds_iff, reach, Level.rank]

/-- The tokens `r` do not extend a phrase of tightness `n`. -/
def Ends (n : Nat) (r : List Token) : Prop := ∀ t ∈ r.head?, reach t < n

theorem Ends.mono {m n : Nat} {r : List Token} (h : Ends m r) (hmn : m ≤ n) : Ends n r :=
  fun t ht => (h t ht).trans_le hmn

theorem Ends.cons {n : Nat} {t : Token} {r : List Token} (h : reach t < n) : Ends n (t :: r) := by
  intro t' ht
  obtain rfl : t = t' := by simpa using ht
  exact h

theorem Ends.holds_eq_false {level : Level} {n : Nat} {r : List Token} (h : Ends n r)
    (hn : n ≤ level.rank) : ∀ t ∈ r.head?, level.holds t = false := by
  intro t ht
  rw [← Bool.not_eq_true, holds_iff_reach]
  exact ((h t ht).trans_le hn).ne

theorem reach_of_isSymbol {t : Token} {s : Symbol} (h : t.isSymbol s) :
    reach t = reach ⟨.symbol s, "", 0⟩ := by
  simp only [Token.isSymbol, decide_eq_true_eq] at h
  simp only [reach, h]

theorem Ends.isSymbol_eq_false {n : Nat} {s : Symbol} {r : List Token} (h : Ends n r)
    (hs : n ≤ reach ⟨.symbol s, "", 0⟩) : ∀ t ∈ r.head?, t.isSymbol s = false := by
  intro t ht
  rw [← Bool.not_eq_true]
  intro hts
  exact absurd (h t ht) (Nat.not_lt.2 (reach_of_isSymbol hts ▸ hs))

/-! ### In front of a phrase

Each of the sets of tokens below is told by the kind of a token alone, which `rfl` shows. -/

theorem isSymbol_eq_false {p : Token → Bool} (hp : ∀ t : Token, p t = p ⟨t.kind, "", 0⟩)
    {t : Token} {s : Symbol} (h : p t) (hs : p ⟨.symbol s, "", 0⟩ = false) :
    t.isSymbol s = false := by
  refine decide_eq_false fun hts => ?_
  rw [hp, hts, hs] at h
  exact Bool.false_ne_true h

theorem isKeyword_eq_false {p : Token → Bool} (hp : ∀ t : Token, p t = p ⟨t.kind, "", 0⟩)
    {t : Token} {k : Keyword} (h : p t) (hk : p ⟨.keyword k, "", 0⟩ = false) :
    t.isKeyword k = false := by
  refine decide_eq_false fun htk => ?_
  rw [hp, htk, hk] at h
  exact Bool.false_ne_true h

theorem of_isKeyword {p : Token → Bool} (hp : ∀ t : Token, p t = p ⟨t.kind, "", 0⟩)
    {t : Token} {k : Keyword} (h : t.isKeyword k) (hk : p ⟨.keyword k, "", 0⟩) : p t := by
  rw [hp, of_decide_eq_true h]
  exact hk

theorem of_isSymbol {p : Token → Bool} (hp : ∀ t : Token, p t = p ⟨t.kind, "", 0⟩)
    {t : Token} {s : Symbol} (h : t.isSymbol s) (hs : p ⟨.symbol s, "", 0⟩) : p t := by
  rw [hp, of_decide_eq_true h]
  exact hs

theorem of_isIdentifier {p : Token → Bool} (hp : ∀ t : Token, p t = p ⟨t.kind, "", 0⟩)
    {t : Token} (h : t.isIdentifier) (hi : p ⟨.identifier, "", 0⟩) : p t := by
  rw [hp, of_decide_eq_true h]
  exact hi

/-- The tokens a primary expression starts with. -/
def startsPrimary (t : Token) : Bool :=
  t.kind matches .keyword .false | .keyword .true | .keyword .nil | .number _ | .string _
    | .keyword .super | .keyword .this | .identifier | .symbol .leftParen

/-- The tokens an expression starts with. -/
def startsExpression (t : Token) : Bool := startsPrimary t || isUnaryOperator t

theorem startsPrimary_of_literal {t : Token} {value : Literal} (h : literal? t.kind = some value) :
    startsPrimary t := by
  obtain ⟨kind, lexeme, line⟩ := t
  cases kind with
  | keyword k => cases k <;> simp_all [literal?, startsPrimary]
  | _ => simp_all [literal?, startsPrimary]

theorem isUnaryOperator_eq_false {t : Token} (h : startsPrimary t) : isUnaryOperator t = false := by
  rw [← Bool.not_eq_true, isUnaryOperator_iff]
  rintro (hkind | hkind) <;> simp [startsPrimary, hkind] at h

/-- The tokens a statement starts with. -/
def startsBody (t : Token) : Bool :=
  startsExpression t || t.kind matches .keyword .for | .keyword .if | .keyword .print
    | .keyword .return | .keyword .while | .symbol .leftBrace

/-- The tokens a declaration starts with. -/
def startsDeclaration (t : Token) : Bool :=
  startsBody t || t.kind matches .keyword .class | .keyword .fun | .keyword .var

theorem startsDeclaration_of_startsBody {t : Token} (h : startsBody t) : startsDeclaration t := by
  rw [startsDeclaration, h, Bool.true_or]

end Treewalk.Grammar
