import Mathlib.Data.List.TakeWhile
import Treewalk.Lexing.Stream

/-!
# Names and keywords

A word of a source text is a keyword if it is spelled like one and a name otherwise. So no name of a
program is a keyword, and a keyword has the one spelling that belongs to it.

## Main definitions

* `Piece.IsName` — a word that is no keyword
* `Token.Spelled` — what is known of the spelling of a token

## Main results

* `Source.spelled_of_mem_tokens` — the spelling of the tokens of a source text
-/

namespace Treewalk

namespace Piece

/-- A word that is no keyword. -/
structure IsName (text : List Char) : Prop where
  word : ∃ c rest, text = c :: rest ∧ startsWord c ∧ ∀ d ∈ rest, continuesWord d
  kind_eq : wordKind text = .identifier

/-- The text of an identifier is a name, and that of a keyword its spelling. -/
def Spelled : Piece → Prop
  | token .identifier text => IsName text
  | token (.keyword k) text => text = k.spelling.toList
  | _ => True

theorem wordKind_keyword {word : List Char} {k : Keyword} (h : wordKind word = .keyword k) :
    word = k.spelling.toList := by
  unfold wordKind at h
  split at h
  · next k' hfind =>
    obtain rfl : k' = k := by simpa using h
    have hspelled := List.find?_some hfind
    exact (eq_of_beq hspelled).symm
  · cases h

/-- A name is no keyword. -/
theorem IsName.ne_spelling {text : List Char} (h : IsName text) (k : Keyword) :
    text ≠ k.spelling.toList := by
  rintro rfl
  have hkind := h.kind_eq
  unfold wordKind at hkind
  split at hkind
  · cases hkind
  · next hfind =>
    have := List.find?_eq_none.1 hfind k k.mem_all
    simp at this

theorem spelled_word {c : Char} {rest : List Char} (hc : startsWord c)
    (hrest : ∀ d ∈ rest, continuesWord d) : Spelled (token (wordKind (c :: rest)) (c :: rest)) := by
  have hkind : (∃ k, wordKind (c :: rest) = .keyword k) ∨ wordKind (c :: rest) = .identifier := by
    unfold wordKind
    split
    · exact .inl ⟨_, rfl⟩
    · exact .inr rfl
  obtain ⟨k, hk⟩ | hk := hkind
  · rw [hk]
    exact wordKind_keyword hk
  · rw [hk]
    exact ⟨⟨c, rest, rfl, hc, hrest⟩, hk⟩

theorem spelled_number (source : List Char) : (number source).1.Spelled := by
  rw [number]
  split
  · dsimp only
    split <;> trivial
  · trivial

theorem spelled_string (body : List Char) : (string body).1.Spelled := by
  rw [string]
  split <;> trivial

theorem spelled_blockComment (depth : Nat) (seen source : List Char) :
    (blockComment depth seen source).1.Spelled := by
  fun_induction blockComment depth seen source <;> first | assumption | trivial

theorem spelled_single (c : Char) (rest : List Char) : (single c rest).1.Spelled := by
  rw [single]
  split <;> trivial

theorem spelled_first (c : Char) (rest : List Char) : (first c rest).1.Spelled := by
  rw [first.eq_def]
  split
  · trivial
  split
  · next hc => exact spelled_word hc fun d hd => List.mem_takeWhile_imp hd
  split
  · exact spelled_number _
  split
  · exact spelled_string _
  split
  · trivial
  · exact spelled_blockComment ..
  · split
    · trivial
    · exact spelled_single ..
  · exact spelled_single ..

theorem spelled_of_mem_split {source : List Char} {p : Piece} (h : p ∈ split source) :
    p.Spelled := by
  induction hn : source.length using Nat.strongRecOn generalizing source with
  | ind n ih =>
    cases source with
    | nil => simp at h
    | cons c rest =>
      rw [split_cons] at h
      obtain rfl | h := List.mem_cons.1 h
      · exact spelled_first c rest
      · exact ih _ (hn ▸ length_first_lt c rest) h rfl

end Piece

/-- An identifier is a name, and a keyword is spelled like one. -/
structure Token.Spelled (t : Token) : Prop where
  isName : t.isIdentifier → Piece.IsName t.lexeme.toList
  lexeme_eq : ∀ k, t.isKeyword k → t.lexeme = k.spelling

theorem Piece.Spelled.token {p : Piece} (h : p.Spelled) {line : Nat} {t : Token}
    (ht : p.item? line = some (.token t)) : t.Spelled := by
  cases p with
  | trivia | fault => simp [Piece.item?] at ht
  | token kind text =>
    obtain rfl : ⟨kind, String.ofList text, line⟩ = t := by simpa [Piece.item?] using ht
    refine ⟨fun hkind => ?_, fun k hkind => ?_⟩
    · obtain rfl : kind = .identifier := by simpa [Token.isIdentifier] using hkind
      simpa [Piece.Spelled] using h
    · obtain rfl : kind = .keyword k := by simpa [Token.isKeyword] using hkind
      rw [Piece.Spelled] at h
      simp [h]

theorem Piece.spelled_of_mem_items {line : Nat} {pieces : List Piece} {t : Token}
    (hpieces : ∀ p ∈ pieces, p.Spelled) (h : .token t ∈ Piece.items line pieces) : t.Spelled := by
  induction pieces generalizing line with
  | nil =>
    obtain rfl : t = ⟨.endOfInput, "", line⟩ := by simpa [Piece.items] using h
    exact ⟨by simp [Token.isIdentifier], by simp [Token.isKeyword]⟩
  | cons p rest ih =>
    obtain ⟨hp, hrest⟩ := List.forall_mem_cons.1 hpieces
    rw [Piece.items] at h
    split at h
    · next item hitem =>
      obtain rfl | h := List.mem_cons.1 h
      · exact hp.token hitem
      · exact ih hrest h
    · exact ih hrest h

/-- No name of a source text is a keyword, and its keywords are spelled like keywords. -/
theorem Source.spelled_of_mem_tokens {source : String} {t : Token} (h : t ∈ tokens source) :
    t.Spelled := by
  obtain ⟨item, hitem, ht⟩ := List.mem_filterMap.1 h
  cases item with
  | fault => cases ht
  | token t' =>
    obtain rfl : t' = t := by simpa [Item.token?] using ht
    exact Piece.spelled_of_mem_items (fun p hp => Piece.spelled_of_mem_split hp) hitem

end Treewalk
