import Treewalk.Proofs.Lexing.Names

/-!
# Lexemes

The lexical grammar: which texts spell a token of which kind, and how block comments are closed. A
token is the longest lexeme that stands at the start of what is left of the source, and whether a
lexeme is the longest one is told by the character or two behind it.

## Main definitions

* `Lexeme` — the texts that spell a token
* `Lexeme.Longest` — no longer text at the start of a source spells a token
* `Kind.Stops` — what follows a lexeme that cannot go on
* `Closes` — the texts that close block comments

## Main results

* `Lexeme.stops_iff` — a lexeme is the longest one just if what follows it stops it
* `Closes.blockComment_eq`, `Piece.blockComment_cases` — how a block comment is read
-/

namespace Treewalk

/-- The texts that spell a number: digits, with a decimal point between two of them or without. -/
inductive Lexeme.Number : Kind → List Char → Prop
  | whole {c : Char} {digits : List Char} (h : ∀ d ∈ c :: digits, d.isDigit) :
      Number (.number (Piece.numberValue (c :: digits) [])) (c :: digits)
  | decimal {c d : Char} {digits fraction : List Char} (hdigits : ∀ e ∈ c :: digits, e.isDigit)
      (hfraction : ∀ e ∈ d :: fraction, e.isDigit) :
      Number (.number (Piece.numberValue (c :: digits) (d :: fraction)))
        (c :: digits ++ '.' :: d :: fraction)

/-- The texts that spell a token: the word for a symbol or a keyword, a word that is no keyword,
text between quotes, and a number. -/
inductive Lexeme : Kind → List Char → Prop
  | symbol (s : Symbol) : Lexeme (.symbol s) s.spelling.toList
  | keyword (k : Keyword) : Lexeme (.keyword k) k.spelling.toList
  | identifier {c : Char} {rest : List Char} (hc : Piece.startsWord c)
      (hrest : ∀ d ∈ rest, Piece.continuesWord d)
      (hne : ∀ k : Keyword, c :: rest ≠ k.spelling.toList) :
      Lexeme .identifier (c :: rest)
  | string {content : List Char} (h : '"' ∉ content) :
      Lexeme (.string (String.ofList content)) ('"' :: content ++ ['"'])
  | number {kind : Kind} {text : List Char} (h : Lexeme.Number kind text) : Lexeme kind text

/-- A comment begins at the start of a source. -/
def OpensComment (source : List Char) : Prop :=
  ['/', '/'] <+: source ∨ ['/', '*'] <+: source

/-- Of the texts at the start of a source that spell a token, none is longer. -/
def Lexeme.Longest (text source : List Char) : Prop :=
  ∀ kind' text', Lexeme kind' text' → text' <+: source → text'.length ≤ text.length

/-- What is behind a lexeme neither goes on with it nor makes a comment of it. -/
def Kind.Stops : Kind → List Char → List Char → Prop
  | .symbol _, text, rest =>
    (∀ c s, text = [c] → Piece.symbolWithEqual? c = some s → rest.head? ≠ some '=') ∧
      (text = ['/'] → rest.head? ≠ some '/' ∧ rest.head? ≠ some '*')
  | .keyword _, _, rest => ∀ c ∈ rest.head?, ¬Piece.continuesWord c
  | .identifier, _, rest => ∀ c ∈ rest.head?, ¬Piece.continuesWord c
  | .number _, text, rest =>
    (∀ c ∈ rest.head?, ¬c.isDigit) ∧ ('.' ∉ text → ∀ c ∈ rest.tail.head?, rest.head? = some '.' →
      ¬c.isDigit)
  | .string _, _, _ => True
  | .endOfInput, _, _ => True

/-- Read from left to right, the text closes `depth + 1` open block comments, the outermost one with
its last two characters. -/
inductive Closes : Nat → List Char → Prop
  | close : Closes 0 ['*', '/']
  | leave {depth : Nat} {text : List Char} (h : Closes depth text) :
      Closes (depth + 1) ('*' :: '/' :: text)
  | enter {depth : Nat} {text : List Char} (h : Closes (depth + 1) text) :
      Closes depth ('/' :: '*' :: text)
  | skip {depth : Nat} {c : Char} {text : List Char} (hopen : ¬['/', '*'] <+: c :: text)
      (hclose : ¬['*', '/'] <+: c :: text) (h : Closes depth text) : Closes depth (c :: text)

/-! ### Character classes -/

namespace Piece

theorem toNat_of_startsWord {c : Char} (h : startsWord c) :
    65 ≤ c.toNat ∧ c.toNat ≤ 90 ∨ 97 ≤ c.toNat ∧ c.toNat ≤ 122 ∨ c.toNat = 95 := by
  simp only [startsWord, Bool.or_eq_true, beq_iff_eq] at h
  obtain hletter | rfl := h
  · obtain hupper | hlower := Bool.or_eq_true_iff.1 hletter
    · exact .inl (of_decide_eq_true hupper)
    · have hcase : ('a'.val ≤ c.val && c.val ≤ 'z'.val) := hlower
      exact .inr (.inl ((Bool.and_eq_true_iff.1 hcase).imp of_decide_eq_true of_decide_eq_true))
  · exact .inr (.inr rfl)

theorem toNat_of_isDigit {c : Char} (h : c.isDigit) : 48 ≤ c.toNat ∧ c.toNat ≤ 57 := by
  simp only [Char.isDigit, Bool.and_eq_true, decide_eq_true_eq] at h
  exact h

theorem continuesWord_iff {c : Char} : continuesWord c ↔ startsWord c ∨ c.isDigit := by
  simp only [continuesWord, startsWord, Char.isAlphanum, Bool.or_eq_true]
  exact or_right_comm

theorem not_startsWord_of_isDigit {c : Char} (h : c.isDigit) : ¬startsWord c := by
  intro hc
  have := toNat_of_startsWord hc
  have := toNat_of_isDigit h
  omega

theorem toNat_of_isBlank {c : Char} (h : isBlank c) : c.toNat ≤ 32 := by
  simp only [isBlank, Bool.or_eq_true, beq_iff_eq] at h
  obtain ((rfl | rfl) | rfl) | rfl := h <;> decide

/-- A character that spells a symbol by itself starts nothing else. -/
theorem symbolOf?_spec {c : Char} {s : Symbol} (h : symbolOf? c = some s) :
    s.spelling.toList = [c] ∧ ¬isBlank c ∧ ¬startsWord c ∧ ¬c.isDigit ∧ c ≠ '"' := by
  unfold symbolOf? at h
  split at h
  all_goals first
    | cases h
      decide
    | cases h

theorem symbolWithEqual?_spec {c : Char} {s : Symbol} (h : symbolWithEqual? c = some s) :
    s.spelling.toList = [c, '='] ∧ (symbolOf? c).isSome ∧ c ≠ '/' := by
  unfold symbolWithEqual? at h
  split at h
  all_goals first
    | cases h
      decide
    | cases h

theorem spelling_symbol (s : Symbol) : ∃ c, symbolOf? c = some s ∧ s.spelling.toList = [c] ∨
    symbolWithEqual? c = some s ∧ s.spelling.toList = [c, '='] := by
  cases s <;> first | exact ⟨_, .inl ⟨rfl, rfl⟩⟩ | exact ⟨_, .inr ⟨rfl, rfl⟩⟩

theorem spelling_keyword (k : Keyword) : ∃ c rest, k.spelling.toList = c :: rest ∧ startsWord c ∧
    ∀ d ∈ rest, continuesWord d := by
  cases k <;> exact ⟨_, _, rfl, by decide, List.all_eq_true.1 (by decide)⟩

theorem wordKind_spelling (k : Keyword) : wordKind k.spelling.toList = .keyword k := by
  cases k <;> decide

theorem wordKind_of_ne {word : List Char} (h : ∀ k : Keyword, word ≠ k.spelling.toList) :
    wordKind word = .identifier := by
  have hnone : Keyword.all.find? (·.spelling.toList == word) = none := by
    refine List.find?_eq_none.2 fun k _ => ?_
    simpa using (h k).symm
  rw [wordKind, hnone]

end Piece

/-! ### What a lexeme looks like -/

namespace Lexeme

variable {kind : Kind} {c : Char} {text rest : List Char}

/-- A word spells a token, whether it is a keyword or not. -/
theorem word (hc : Piece.startsWord c) (hrest : ∀ d ∈ rest, Piece.continuesWord d) :
    Lexeme (Piece.wordKind (c :: rest)) (c :: rest) := by
  by_cases hk : ∃ k : Keyword, c :: rest = k.spelling.toList
  · obtain ⟨k, hk⟩ := hk
    rw [hk, Piece.wordKind_spelling]
    exact .keyword k
  · have hne : ∀ k : Keyword, c :: rest ≠ k.spelling.toList := fun k h => hk ⟨k, h⟩
    rw [Piece.wordKind_of_ne hne]
    exact .identifier hc hrest hne

theorem Number.starts (h : Number kind text) : ∃ c rest, text = c :: rest ∧ c.isDigit := by
  cases h with
  | whole h => exact ⟨_, _, rfl, (List.forall_mem_cons.1 h).1⟩
  | decimal hdigits hfraction => exact ⟨_, _, rfl, (List.forall_mem_cons.1 hdigits).1⟩

/-- The first character of a lexeme tells how it goes on. -/
theorem starts (h : Lexeme kind text) : ∃ c rest, text = c :: rest ∧
    ((∃ s, kind = .symbol s ∧ (Piece.symbolOf? c = some s ∧ rest = [] ∨
        Piece.symbolWithEqual? c = some s ∧ rest = ['='])) ∨
      Piece.startsWord c ∧ (∀ d ∈ rest, Piece.continuesWord d) ∧ kind = Piece.wordKind text ∨
      c.isDigit ∧ Number kind text ∨
      c = '"' ∧ ∃ content, '"' ∉ content ∧ rest = content ++ ['"'] ∧
        kind = .string (String.ofList content)) := by
  cases h with
  | symbol s =>
    obtain ⟨c, ⟨hs, htext⟩ | ⟨hs, htext⟩⟩ := Piece.spelling_symbol s
    · exact ⟨c, [], htext, .inl ⟨s, rfl, .inl ⟨hs, rfl⟩⟩⟩
    · exact ⟨c, ['='], htext, .inl ⟨s, rfl, .inr ⟨hs, rfl⟩⟩⟩
  | keyword k =>
    obtain ⟨c, rest, htext, hc, hrest⟩ := Piece.spelling_keyword k
    exact ⟨c, rest, htext, .inr (.inl ⟨hc, hrest, (Piece.wordKind_spelling k).symm⟩)⟩
  | @identifier c rest hc hrest hne =>
    exact ⟨c, rest, rfl, .inr (.inl ⟨hc, hrest, (Piece.wordKind_of_ne hne).symm⟩)⟩
  | @string content h => exact ⟨'"', _, rfl, .inr (.inr (.inr ⟨rfl, content, h, rfl, rfl⟩))⟩
  | number h =>
    obtain ⟨c, rest, rfl, hc⟩ := h.starts
    exact ⟨c, rest, rfl, .inr (.inr (.inl ⟨hc, h⟩))⟩

/-- A symbol begins with a character that is a symbol by itself. -/
theorem isSome_symbolOf? {s : Symbol} (h : Piece.symbolOf? c = some s ∧ rest = [] ∨
    Piece.symbolWithEqual? c = some s ∧ rest = ['=']) : (Piece.symbolOf? c).isSome := by
  obtain ⟨hs, -⟩ | ⟨hs, -⟩ := h
  · rw [hs]
    rfl
  · exact (Piece.symbolWithEqual?_spec hs).2.1

theorem of_symbolOf? (h : Lexeme kind (c :: rest)) (hc : (Piece.symbolOf? c).isSome) :
    rest = [] ∨ rest = ['='] ∧ ∃ s, Piece.symbolWithEqual? c = some s := by
  obtain ⟨s', hs'⟩ := Option.isSome_iff_exists.1 hc
  obtain ⟨-, -, hword, hdigit, hquote⟩ := Piece.symbolOf?_spec hs'
  obtain ⟨c', rest', heq, h⟩ := h.starts
  obtain ⟨rfl, rfl⟩ := List.cons.inj heq
  obtain ⟨s, -, ⟨-, hrest⟩ | ⟨hs, hrest⟩⟩ | ⟨hc', -⟩ | ⟨hc', -⟩ | ⟨hc', -⟩ := h
  · exact .inl hrest
  · exact .inr ⟨hrest, s, hs⟩
  · exact absurd hc' hword
  · exact absurd hc' hdigit
  · exact absurd hc' hquote

theorem of_startsWord (h : Lexeme kind (c :: rest)) (hc : Piece.startsWord c) :
    ∀ d ∈ rest, Piece.continuesWord d := by
  obtain ⟨c', rest', heq, h⟩ := h.starts
  obtain ⟨rfl, rfl⟩ := List.cons.inj heq
  obtain ⟨s, -, hs⟩ | ⟨-, hrest, -⟩ | ⟨hc', -⟩ | ⟨rfl, -⟩ := h
  · obtain ⟨s', hs'⟩ := Option.isSome_iff_exists.1 (isSome_symbolOf? hs)
    exact absurd hc (Piece.symbolOf?_spec hs').2.2.1
  · exact hrest
  · exact absurd hc (Piece.not_startsWord_of_isDigit hc')
  · exact absurd hc (by decide)

theorem of_isDigit (h : Lexeme kind (c :: rest)) (hc : c.isDigit) : Number kind (c :: rest) := by
  obtain ⟨c', rest', heq, h⟩ := h.starts
  obtain ⟨rfl, rfl⟩ := List.cons.inj heq
  obtain ⟨s, -, hs⟩ | ⟨hc', -⟩ | ⟨-, hnumber⟩ | ⟨rfl, -⟩ := h
  · obtain ⟨s', hs'⟩ := Option.isSome_iff_exists.1 (isSome_symbolOf? hs)
    exact absurd hc (Piece.symbolOf?_spec hs').2.2.2.1
  · exact absurd hc' (Piece.not_startsWord_of_isDigit hc)
  · exact hnumber
  · exact absurd hc (by decide)

theorem of_quote (h : Lexeme kind ('"' :: rest)) : ∃ content, '"' ∉ content ∧
    rest = content ++ ['"'] := by
  obtain ⟨c', rest', heq, h⟩ := h.starts
  obtain ⟨rfl, rfl⟩ := List.cons.inj heq
  obtain ⟨s, -, hs⟩ | ⟨hc', -⟩ | ⟨hc', -⟩ | ⟨-, content, hcontent, hrest, -⟩ := h
  · obtain ⟨s', hs'⟩ := Option.isSome_iff_exists.1 (isSome_symbolOf? hs)
    exact absurd rfl (Piece.symbolOf?_spec hs').2.2.2.2
  · exact absurd hc' (by decide)
  · exact absurd hc' (by decide)
  · exact ⟨content, hcontent, hrest⟩

/-! ### Longest lexemes -/

/-- Where the characters of a class end, no more of them are taken. -/
theorem span_append {p : Char → Bool} (htext : ∀ d ∈ text, p d) (hrest : ∀ d ∈ rest.head?, ¬p d) :
    (text ++ rest).takeWhile p = text ∧ (text ++ rest).dropWhile p = rest := by
  rw [List.takeWhile_append_of_pos htext, List.dropWhile_append_of_pos htext]
  cases rest with
  | nil => exact ⟨List.append_nil _, rfl⟩
  | cons d rest =>
    have hd : ¬p d := hrest d rfl
    rw [List.takeWhile_cons_of_neg hd, List.dropWhile_cons_of_neg hd, List.append_nil]
    exact ⟨rfl, rfl⟩

/-- The digits up to a point are those that a number begins with. -/
theorem append_point_inj {digits digits' behind : List Char}
    (h : ∀ d ∈ digits, d.isDigit) (h' : ∀ d ∈ digits', d.isDigit)
    (hrest : ∀ d ∈ rest.head?, ¬d.isDigit) (heq : digits ++ rest = digits' ++ '.' :: behind) :
    digits = digits' ∧ rest = '.' :: behind := by
  have hpoint : ∀ d ∈ ('.' :: behind).head?, ¬d.isDigit := by
    rintro d hd
    obtain rfl := Option.some.inj hd
    decide
  obtain ⟨htake, hdrop⟩ := span_append h hrest
  obtain ⟨htake', hdrop'⟩ := span_append h' hpoint
  rw [heq] at htake hdrop
  exact ⟨htake.symm.trans htake', hdrop.symm.trans hdrop'⟩

/-- A number goes on with a digit only, or else with a point and a digit. -/
theorem Number.eq_nil_of_append {kind' : Kind} {more : List Char} (h : Number kind text)
    (h' : Number kind' (text ++ more)) (hs : kind.Stops text (more ++ rest)) :
    more = [] := by
  cases more with
  | nil => rfl
  | cons d more =>
    exfalso
    have hstops : (∀ e ∈ (d :: more ++ rest).head?, ¬e.isDigit) ∧ ('.' ∉ text →
        ∀ e ∈ (d :: more ++ rest).tail.head?, (d :: more ++ rest).head? = some '.' →
          ¬e.isDigit) := by
      cases h <;> exact hs
    have hd : ¬d.isDigit := hstops.1 d rfl
    have hhead : ∀ e ∈ (d :: more).head?, ¬e.isDigit := hstops.1
    generalize hall : text ++ d :: more = all at h'
    cases h' with
    | whole hdigits => exact hd (hdigits d (hall ▸ List.mem_append_right _ List.mem_cons_self))
    | @decimal c' d' digits' fraction' hdigits' hfraction' =>
      cases h with
      | whole hdigits =>
        obtain ⟨-, hmore⟩ := append_point_inj hdigits hdigits' hhead hall
        obtain ⟨rfl, rfl⟩ := List.cons.inj hmore
        refine hstops.2 (fun hmem => ?_) d' rfl rfl (hfraction' d' List.mem_cons_self)
        exact absurd (hdigits '.' hmem) (by decide)
      | @decimal c e digits fraction hdigits hfraction =>
        have hpoint : ∀ e' ∈ ('.' :: e :: fraction ++ d :: more).head?, ¬e'.isDigit := by
          intro e' he
          obtain rfl := Option.some.inj he
          decide
        rw [List.append_assoc] at hall
        obtain ⟨-, hbehind⟩ := append_point_inj hdigits hdigits' hpoint hall
        have hfraction : e :: fraction ++ d :: more = d' :: fraction' :=
          (List.cons.inj hbehind).2
        refine hd (hfraction' d ?_)
        rw [← hfraction]
        exact List.mem_append_right _ List.mem_cons_self

/-- A lexeme does not go on with what stops it. -/
theorem eq_nil_of_append {kind' : Kind} {more : List Char} (h : Lexeme kind text)
    (h' : Lexeme kind' (text ++ more)) (hs : kind.Stops text (more ++ rest)) : more = [] := by
  have hword {c : Char} {tail : List Char} (hc : Piece.startsWord c)
      (h' : Lexeme kind' (c :: tail ++ more))
      (hs : ∀ d ∈ (more ++ rest).head?, ¬Piece.continuesWord d) : more = [] := by
    cases more with
    | nil => rfl
    | cons d more =>
      have hd := of_startsWord h' hc d (List.mem_append_right _ List.mem_cons_self)
      exact absurd hd (hs d rfl)
  cases h with
  | symbol s =>
    obtain ⟨c, ⟨hc, htext⟩ | ⟨hc, htext⟩⟩ := Piece.spelling_symbol s
    · rw [htext] at h' hs
      have hsome : (Piece.symbolOf? c).isSome := by rw [hc]; rfl
      obtain hmore | ⟨rfl, s', hs'⟩ := of_symbolOf? h' hsome
      · exact hmore
      · exact absurd rfl (hs.1 c s' rfl hs')
    · rw [htext] at h'
      obtain hmore | ⟨hmore, -⟩ := of_symbolOf? h' (Piece.symbolWithEqual?_spec hc).2.1
      · cases hmore
      · exact (List.cons.inj hmore).2
  | keyword k =>
    obtain ⟨c, tail, htext, hc, -⟩ := Piece.spelling_keyword k
    rw [htext] at h'
    exact hword hc h' hs
  | identifier hc hrest hne => exact hword hc h' hs
  | @string content hcontent =>
    obtain ⟨content', hcontent', heq⟩ := of_quote h'
    cases hm : more.reverse with
    | nil => exact List.reverse_eq_nil_iff.1 hm
    | cons d front =>
      obtain rfl : more = front.reverse ++ [d] := by rw [← List.reverse_reverse more, hm]; simp
      have heq : (content ++ '"' :: front.reverse) ++ [d] = content' ++ ['"'] := by simpa using heq
      obtain ⟨rfl, -⟩ := List.append_inj' heq rfl
      exact absurd (List.mem_append_right _ List.mem_cons_self) hcontent'
  | number h =>
    obtain ⟨c, tail, rfl, hc⟩ := h.starts
    exact h.eq_nil_of_append (of_isDigit h' hc) hs

theorem longest_of_stops (h : Lexeme kind text) (hs : kind.Stops text rest) :
    Longest text (text ++ rest) := by
  intro kind' text' h' hprefix
  by_contra hlt
  obtain ⟨more, rfl⟩ := List.prefix_of_prefix_length_le (List.prefix_append text rest) hprefix
    (Nat.le_of_not_le hlt)
  obtain ⟨rest', hrest⟩ := hprefix
  rw [List.append_assoc, List.append_cancel_left_eq] at hrest
  rw [h.eq_nil_of_append h' (hrest ▸ hs), List.append_nil] at hlt
  exact hlt le_rfl

/-- No lexeme goes on at the start of what is behind the longest one. -/
theorem Longest.not_prefix {kind' : Kind} {d : Char} {more : List Char}
    (h : Longest text (text ++ rest)) (h' : Lexeme kind' (text ++ d :: more)) :
    ¬d :: more <+: rest := by
  intro hprefix
  have hle := h kind' _ h' ((List.prefix_append_right_inj text).2 hprefix)
  rw [List.length_append, List.length_cons] at hle
  omega

theorem not_opensComment_of_stops (h : Lexeme kind text) (hs : kind.Stops text rest) :
    ¬OpensComment (text ++ rest) := by
  have hslash {d : Char} {rest' : List Char} (heq : text ++ rest = '/' :: d :: rest') :
      text = ['/'] ∧ rest = d :: rest' ∧ kind = .symbol .slash := by
    obtain ⟨c, tail, rfl, -⟩ := h.starts
    obtain ⟨rfl, hrest⟩ := List.cons.inj heq
    have hslash : ∃ s, kind = .symbol s ∧ (Piece.symbolOf? '/' = some s ∧ tail = [] ∨
        Piece.symbolWithEqual? '/' = some s ∧ tail = ['=']) := by
      obtain ⟨c', tail', heq, hsymbol | ⟨hc, -⟩ | ⟨hc, -⟩ | ⟨hc, -⟩⟩ := h.starts
      · obtain ⟨rfl, rfl⟩ := List.cons.inj heq
        exact hsymbol
      all_goals
        obtain ⟨rfl, rfl⟩ := List.cons.inj heq
        exact absurd hc (by decide)
    obtain ⟨s, hkind, ⟨hsymbol, rfl⟩ | ⟨hsymbol, -⟩⟩ := hslash
    · exact ⟨rfl, hrest, hkind.trans (congrArg Kind.symbol (Option.some.inj hsymbol).symm)⟩
    · cases hsymbol
  rintro (⟨rest', heq⟩ | ⟨rest', heq⟩)
  all_goals
    obtain ⟨htext, hrest, rfl⟩ := hslash heq.symm
    obtain ⟨hline, hblock⟩ := hs.2 htext
    rw [hrest] at hline hblock
  · exact hline rfl
  · exact hblock rfl

theorem prefix_of_head? {d : Char} (h : rest.head? = some d) : [d] <+: rest := by
  obtain ⟨rest', rfl⟩ := List.head?_eq_some_iff.1 h
  exact ⟨rest', rfl⟩

theorem stops_of_longest (h : Lexeme kind text) (hcomment : ¬OpensComment (text ++ rest))
    (hlongest : Longest text (text ++ rest)) : kind.Stops text rest := by
  have hword {c : Char} {tail : List Char} (hc : Piece.startsWord c)
      (htail : ∀ d ∈ tail, Piece.continuesWord d)
      (hlongest : Longest (c :: tail) (c :: tail ++ rest)) :
      ∀ d ∈ rest.head?, ¬Piece.continuesWord d := by
    intro d hd hcontinues
    have hlonger : ∀ e ∈ tail ++ [d], Piece.continuesWord e := by
      simpa [or_imp, forall_and] using ⟨htail, hcontinues⟩
    exact hlongest.not_prefix (Lexeme.word hc hlonger) (prefix_of_head? hd)
  cases h with
  | symbol s =>
    refine ⟨fun c s' htext hs' hhead => ?_, fun htext => ⟨fun hhead => ?_, fun hhead => ?_⟩⟩
    · have hlonger : Lexeme (.symbol s') (s.spelling.toList ++ ['=']) := by
        have htext' : s.spelling.toList ++ ['='] = s'.spelling.toList := by
          rw [htext, (Piece.symbolWithEqual?_spec hs').1]
          rfl
        rw [htext']
        exact .symbol s'
      exact hlongest.not_prefix hlonger (prefix_of_head? hhead)
    all_goals
      rw [htext] at hcomment
      obtain ⟨rest', rfl⟩ := List.head?_eq_some_iff.1 hhead
    · exact hcomment (.inl ⟨rest', rfl⟩)
    · exact hcomment (.inr ⟨rest', rfl⟩)
  | keyword k =>
    obtain ⟨c, tail, htext, hc, htail⟩ := Piece.spelling_keyword k
    rw [htext] at hlongest
    exact hword hc htail hlongest
  | identifier hc hrest hne => exact hword hc hrest hlongest
  | string h => trivial
  | number h =>
    cases h with
    | @whole c digits h =>
      refine ⟨fun d hd hdigit => ?_, fun hpoint d hd hhead hdigit => ?_⟩
      · have hlonger : ∀ e ∈ c :: (digits ++ [d]), e.isDigit := by
          simpa [or_imp, forall_and, and_assoc] using And.intro h hdigit
        exact hlongest.not_prefix (.number (.whole hlonger)) (prefix_of_head? hd)
      · obtain ⟨rest', rfl⟩ := List.head?_eq_some_iff.1 hhead
        obtain ⟨rest'', rfl⟩ := List.head?_eq_some_iff.1 hd
        have hfraction : ∀ e ∈ [d], e.isDigit := by simpa using hdigit
        exact hlongest.not_prefix (.number (.decimal h hfraction)) ⟨rest'', rfl⟩
    | @decimal c d digits fraction hdigits hfraction =>
      refine ⟨fun e he hdigit => ?_, fun hpoint => absurd (by simp) hpoint⟩
      have hlonger : ∀ e' ∈ d :: (fraction ++ [e]), e'.isDigit := by
        simpa [or_imp, forall_and, and_assoc] using And.intro hfraction hdigit
      have hnumber := Lexeme.number (.decimal hdigits hlonger)
      have happend : c :: digits ++ '.' :: d :: (fraction ++ [e]) =
          (c :: digits ++ '.' :: d :: fraction) ++ [e] := by simp
      rw [happend] at hnumber
      exact hlongest.not_prefix hnumber (prefix_of_head? he)

/-- A lexeme is the longest one at the start of a source just if what is behind it stops it. -/
theorem stops_iff (h : Lexeme kind text) : kind.Stops text rest ↔
    ¬OpensComment (text ++ rest) ∧ Longest text (text ++ rest) :=
  ⟨fun hs => ⟨h.not_opensComment_of_stops hs, h.longest_of_stops hs⟩,
    fun ⟨hcomment, hlongest⟩ => h.stops_of_longest hcomment hlongest⟩

end Lexeme

/-! ### Block comments -/

theorem Closes.ne_nil {depth : Nat} {text : List Char} (h : Closes depth text) : text ≠ [] := by
  cases h <;> exact List.cons_ne_nil _ _

/-- A text that closes all open comments is read as a comment. -/
theorem Closes.blockComment_eq {depth : Nat} {text : List Char} (h : Closes depth text)
    (seen rest : List Char) : Piece.blockComment depth seen (text ++ rest) =
      (.trivia (seen.reverse ++ text), rest) := by
  induction h generalizing seen with
  | close => simp [Piece.blockComment]
  | leave h ih => simp [Piece.blockComment, ih]
  | enter h ih => simp [Piece.blockComment, ih]
  | @skip depth c text hopen hclose h ih =>
    -- no delimiter stands here, and none comes about by what is behind the text
    obtain ⟨d, tail, rfl⟩ := List.exists_cons_of_ne_nil h.ne_nil
    have hopens : ∀ rest', c = '/' → d :: tail ++ rest = '*' :: rest' → False := by
      rintro rest' rfl heq
      exact hopen ⟨tail, by rw [(List.cons.inj heq).1]; rfl⟩
    have hcloses : ∀ rest', c = '*' → d :: tail ++ rest = '/' :: rest' → False := by
      rintro rest' rfl heq
      exact hclose ⟨tail, by rw [(List.cons.inj heq).1]; rfl⟩
    rw [List.cons_append, Piece.blockComment.eq_4 _ _ _ _ hopens hcloses, ih]
    simp

/-- A block comment ends where it is closed, and is at fault if it is closed nowhere. -/
theorem Piece.blockComment_cases (depth : Nat) (seen source : List Char) :
    (∃ text rest, Closes depth text ∧ source = text ++ rest ∧
      blockComment depth seen source = (trivia (seen.reverse ++ text), rest)) ∨
    blockComment depth seen source = (fault .unterminatedComment (seen.reverse ++ source), []) := by
  fun_induction blockComment depth seen source with
  | case1 depth seen rest ih =>
    obtain ⟨text, rest, htext, rfl, heq⟩ | heq := ih
    · exact .inl ⟨_, rest, .enter htext, rfl, by simp [heq]⟩
    · exact .inr (by simp [heq])
  | case2 seen rest => exact .inl ⟨_, rest, .close, rfl, by simp⟩
  | case3 seen rest outer ih =>
    obtain ⟨text, rest, htext, rfl, heq⟩ | heq := ih
    · exact .inl ⟨_, rest, .leave htext, rfl, by simp [heq]⟩
    · exact .inr (by simp [heq])
  | case4 depth seen c rest hopens hcloses ih =>
    obtain ⟨text, rest, htext, rfl, heq⟩ | heq := ih
    · refine .inl ⟨_, rest, .skip ?_ ?_ htext, rfl, by simp [heq]⟩
      · rintro ⟨tail, h⟩
        obtain ⟨rfl, rfl⟩ := List.cons.inj h
        exact hopens (tail ++ rest) rfl rfl
      · rintro ⟨tail, h⟩
        obtain ⟨rfl, rfl⟩ := List.cons.inj h
        exact hcloses (tail ++ rest) rfl rfl
    · exact .inr (by simp [heq])
  | case5 depth seen => exact .inr (by simp)

end Treewalk
