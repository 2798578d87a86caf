import Treewalk.Proofs.Lexing.Lexeme

/-!
# Maximal munch

The item stream of a source text is the one that its lexical grammar gives: the source is tiled by
blanks, comments, tokens and faults, each token is the longest lexeme that stands where it begins,
and a fault is a character that begins no lexeme, or else all that is left from an opening quote or
comment delimiter on that nothing closes.

## Main definitions

* `Piece.Fits` — what stands at the start of a source, given what is behind it
* `Lexes` — the item streams of the lexical grammar

## Main results

* `Piece.first_eq_iff` — the first piece of a source is the one that fits
* `Source.items_maximal_munch` — the item stream of a source text is the one that the lexical
  grammar gives
-/

namespace Treewalk

namespace Piece

/-- What may stand at the start of a source, where `rest` is behind it. -/
inductive Fits : Piece → List Char → Prop
  | blank {c : Char} {rest : List Char} (h : isBlank c) : Fits (trivia [c]) rest
  | lineComment {content rest : List Char} (h : '\n' ∉ content)
      (hrest : ∀ c ∈ rest.head?, c = '\n') : Fits (trivia ('/' :: '/' :: content)) rest
  | blockComment {body rest : List Char} (h : Closes 0 body) :
      Fits (trivia ('/' :: '*' :: body)) rest
  | token {kind : Kind} {text rest : List Char} (h : Lexeme kind text)
      (hcomment : ¬OpensComment (text ++ rest)) (hlongest : Lexeme.Longest text (text ++ rest)) :
      Fits (token kind text) rest
  | unexpected {c : Char} {rest : List Char} (hblank : ¬isBlank c)
      (h : ∀ kind text, ¬Lexeme kind (c :: text)) : Fits (fault .unexpectedCharacter [c]) rest
  | openString {content : List Char} (h : '"' ∉ content) :
      Fits (fault .unterminatedString ('"' :: content)) []
  | openComment {body : List Char} (h : ∀ text, text <+: body → ¬Closes 0 text) :
      Fits (fault .unterminatedComment ('/' :: '*' :: body)) []

variable {kind : Kind} {c : Char} {text rest : List Char}

/-! ### How the first piece is found -/

theorem first_of_isBlank (h : isBlank c) : first c rest = (trivia [c], rest) := by
  rw [first.eq_def, if_pos h]

theorem not_isBlank_of_startsWord (h : startsWord c) : ¬isBlank c := by
  intro hblank
  have := toNat_of_startsWord h
  have := toNat_of_isBlank hblank
  omega

theorem not_isBlank_of_isDigit (h : c.isDigit) : ¬isBlank c := by
  intro hblank
  have := toNat_of_isDigit h
  have := toNat_of_isBlank hblank
  omega

theorem first_of_startsWord (h : startsWord c) : first c rest =
    (token (wordKind (c :: rest.takeWhile continuesWord)) (c :: rest.takeWhile continuesWord),
      rest.dropWhile continuesWord) := by
  rw [first.eq_def, if_neg (not_isBlank_of_startsWord h), if_pos h]

theorem first_of_isDigit (h : c.isDigit) : first c rest = number (c :: rest) := by
  rw [first.eq_def, if_neg (not_isBlank_of_isDigit h), if_neg (not_startsWord_of_isDigit h),
    if_pos h]

theorem first_quote : first '"' rest = string rest := rfl

theorem first_lineComment : first '/' ('/' :: rest) = lineComment ('/' :: '/' :: rest) := rfl

theorem first_blockComment : first '/' ('*' :: rest) = blockComment 0 ['*', '/'] rest := rfl

theorem first_of_symbolWithEqual? {s : Symbol} (h : symbolWithEqual? c = some s) :
    first c ('=' :: rest) = (token (.symbol s) [c, '='], rest) := by
  unfold symbolWithEqual? at h
  split at h
  all_goals first
    | cases h
      rfl
    | cases h

/-- A character that begins neither a blank, a word, a number, a string nor a comment is a symbol by
itself or at fault, unless it is a symbol together with an equals sign behind it. -/
theorem first_eq_single (hblank : ¬isBlank c) (hword : ¬startsWord c) (hdigit : ¬c.isDigit)
    (hquote : c ≠ '"') (hcomment : ¬OpensComment (c :: rest))
    (hequal : ∀ s, symbolWithEqual? c = some s → rest.head? ≠ some '=') :
    first c rest = single c rest := by
  rw [first.eq_def, if_neg hblank, if_neg hword, if_neg hdigit, if_neg hquote]
  split
  · exact absurd (.inl ⟨_, rfl⟩) hcomment
  · exact absurd (.inr ⟨_, rfl⟩) hcomment
  · split
    · next s hs => exact absurd rfl (hequal s hs)
    · rfl
  · rfl

/-! ### What fits is found -/

theorem number_eq (h : Lexeme.Number kind text) (hs : kind.Stops text rest) :
    number (text ++ rest) = (token kind text, rest) := by
  cases h with
  | @whole c digits h =>
    obtain ⟨hdigit, hpoint⟩ := hs
    obtain ⟨htake, hdrop⟩ := Lexeme.span_append h hdigit
    have hnone : '.' ∉ c :: digits := fun hmem => absurd (h '.' hmem) (by decide)
    rw [number, htake, hdrop]
    split
    · next behind =>
      have hempty : behind.takeWhile Char.isDigit = [] := by
        cases behind with
        | nil => rfl
        | cons d behind => exact List.takeWhile_cons_of_neg (hpoint hnone d rfl rfl)
      simp [hempty]
    · rfl
  | @decimal c d digits fraction hdigits hfraction =>
    have hhead : ∀ e ∈ ('.' :: d :: fraction ++ rest).head?, ¬e.isDigit := by
      intro e he
      obtain rfl := Option.some.inj he
      decide
    obtain ⟨htake, hdrop⟩ := Lexeme.span_append hdigits hhead
    obtain ⟨htake', hdrop'⟩ := Lexeme.span_append hfraction hs.1
    rw [List.append_assoc, number, htake, hdrop]
    simp only [List.cons_append] at htake' hdrop' ⊢
    simp [htake', hdrop']

theorem first_eq_of_lexeme (h : Lexeme kind text) (hs : kind.Stops text rest) :
    ∃ c tail, text ++ rest = c :: tail ∧ first c tail = (token kind text, rest) := by
  have hword {c : Char} {tail : List Char} (hc : startsWord c) (htail : ∀ d ∈ tail, continuesWord d)
      (hs : ∀ d ∈ rest.head?, ¬continuesWord d) : first c (tail ++ rest) =
        (token (wordKind (c :: tail)) (c :: tail), rest) := by
    obtain ⟨htake, hdrop⟩ := Lexeme.span_append htail hs
    rw [first_of_startsWord hc, htake, hdrop]
  have hcomment := h.not_opensComment_of_stops hs
  cases h with
  | symbol s =>
    obtain ⟨c, ⟨hc, htext⟩ | ⟨hc, htext⟩⟩ := spelling_symbol s
    · obtain ⟨-, hblank, hword, hdigit, hquote⟩ := symbolOf?_spec hc
      rw [htext] at hcomment hs ⊢
      have hequal : ∀ s', symbolWithEqual? c = some s' → rest.head? ≠ some '=' :=
        fun s' hs' => hs.1 c s' rfl hs'
      have hfirst : first c rest = single c rest :=
        first_eq_single hblank hword hdigit hquote hcomment hequal
      refine ⟨c, rest, rfl, ?_⟩
      rw [hfirst, single, hc]
    · rw [htext]
      exact ⟨c, '=' :: rest, rfl, first_of_symbolWithEqual? hc⟩
  | keyword k =>
    obtain ⟨c, tail, htext, hc, htail⟩ := spelling_keyword k
    refine ⟨c, tail ++ rest, by rw [htext]; rfl, ?_⟩
    rw [hword hc htail hs, ← htext, wordKind_spelling]
  | @identifier c tail hc htail hne =>
    refine ⟨c, tail ++ rest, rfl, ?_⟩
    rw [hword hc htail hs, wordKind_of_ne hne]
  | @string content hcontent =>
    refine ⟨'"', content ++ '"' :: rest, by simp, ?_⟩
    have hquote : ∀ d ∈ content, d != '"' := by
      intro d hd
      exact bne_iff_ne.2 fun heq => hcontent (heq ▸ hd)
    have hclosed : ∀ d ∈ ('"' :: rest).head?, ¬(d != '"') := by simp
    obtain ⟨htake, hdrop⟩ := Lexeme.span_append hquote hclosed
    rw [first_quote, string, htake, hdrop]
  | number h =>
    obtain ⟨c, tail, rfl, hc⟩ := h.starts
    refine ⟨c, tail ++ rest, rfl, ?_⟩
    rw [first_of_isDigit hc]
    exact number_eq h hs

theorem starts_nothing (h : ∀ kind text, ¬Lexeme kind (c :: text)) :
    symbolOf? c = none ∧ ¬startsWord c ∧ ¬c.isDigit ∧ c ≠ '"' := by
  refine ⟨?_, fun hc => h _ [] (.word hc (List.forall_mem_nil _)),
    fun hc => h _ [] (.number (.whole (by simpa using hc))), ?_⟩
  · refine Option.eq_none_iff_forall_ne_some.2 fun s hs => h (.symbol s) [] ?_
    rw [← (symbolOf?_spec hs).1]
    exact .symbol s
  · rintro rfl
    have hempty : Lexeme (.string "") ['"', '"'] := .string List.not_mem_nil
    exact h _ _ hempty

/-- What fits at the start of a source is its first piece. -/
theorem Fits.first_eq {p : Piece} (h : p.Fits rest) :
    ∃ c tail, p.text ++ rest = c :: tail ∧ first c tail = (p, rest) := by
  cases h with
  | blank h => exact ⟨_, _, rfl, first_of_isBlank h⟩
  | @lineComment content _ h hrest =>
    refine ⟨'/', '/' :: (content ++ rest), rfl, ?_⟩
    have hline : ∀ d ∈ '/' :: '/' :: content, d != '\n' := by
      intro d hd
      refine bne_iff_ne.2 fun heq => ?_
      simp [heq, h] at hd
    obtain ⟨htake, hdrop⟩ := Lexeme.span_append (p := (· != '\n')) hline (by simpa using hrest)
    rw [first_lineComment, Piece.lineComment]
    exact Prod.ext (congrArg trivia htake) hdrop
  | @blockComment body _ h =>
    refine ⟨'/', '*' :: (body ++ rest), rfl, ?_⟩
    rw [first_blockComment, h.blockComment_eq]
    rfl
  | token h hcomment hlongest => exact first_eq_of_lexeme h (h.stops_of_longest hcomment hlongest)
  | @unexpected c _ hblank h =>
    obtain ⟨hsymbol, hword, hdigit, hquote⟩ := starts_nothing h
    have hcomment : ¬OpensComment (c :: rest) := by
      rintro (⟨tail, heq⟩ | ⟨tail, heq⟩)
      all_goals
        obtain ⟨rfl, -⟩ := List.cons.inj heq
        cases hsymbol
    have hequal : ∀ s, symbolWithEqual? c = some s → rest.head? ≠ some '=' := by
      intro s hs
      have hsome := (symbolWithEqual?_spec hs).2.1
      rw [hsymbol] at hsome
      cases hsome
    have hfirst : first c rest = single c rest :=
      first_eq_single hblank hword hdigit hquote hcomment hequal
    refine ⟨c, rest, rfl, ?_⟩
    rw [hfirst, single, hsymbol]
  | @openString content h =>
    refine ⟨'"', content, by simp [text], ?_⟩
    have hquote : ∀ d ∈ content, d != '"' := by
      intro d hd
      exact bne_iff_ne.2 fun heq => h (heq ▸ hd)
    have hend : ∀ d ∈ ([] : List Char).head?, ¬(d != '"') := by simp
    obtain ⟨htake, hdrop⟩ := Lexeme.span_append hquote hend
    rw [List.append_nil] at htake hdrop
    rw [first_quote, Piece.string, htake, hdrop]
  | @openComment body h =>
    refine ⟨'/', '*' :: body, by simp [text], ?_⟩
    obtain ⟨text, rest, htext, rfl, -⟩ | heq := blockComment_cases 0 ['*', '/'] body
    · exact absurd htext (h text ⟨rest, rfl⟩)
    · rw [first_blockComment, heq]
      rfl

theorem Fits.ne_nil {p : Piece} (h : p.Fits rest) : p.text ≠ [] := by
  obtain ⟨c, tail, -, hfirst⟩ := h.first_eq
  have hne := first_ne_nil c tail
  rwa [hfirst] at hne

/-! ### What is found fits -/

theorem fits_of_stops (h : Lexeme kind text) (hs : kind.Stops text rest) :
    Fits (token kind text) rest :=
  .token h (h.not_opensComment_of_stops hs) (h.longest_of_stops hs)

theorem head?_dropWhile {p : Char → Bool} (source : List Char) :
    ∀ d ∈ (source.dropWhile p).head?, ¬p d := by
  intro d hd
  have h := List.head?_dropWhile_not p source
  rw [Option.mem_def.1 hd] at h
  exact Bool.eq_false_iff.1 h

theorem stops_wordKind {word : List Char} (hs : ∀ d ∈ rest.head?, ¬continuesWord d) :
    (wordKind word).Stops text rest := by
  unfold wordKind
  split <;> exact hs

theorem number_fits (hc : c.isDigit) : Fits (number (c :: rest)).1 (number (c :: rest)).2 := by
  have hwhole : (c :: rest).takeWhile Char.isDigit = c :: rest.takeWhile Char.isDigit :=
    List.takeWhile_cons_of_pos hc
  have hdigits : ∀ d ∈ c :: rest.takeWhile Char.isDigit, d.isDigit := by
    rw [← hwhole]
    exact fun d hd => List.mem_takeWhile_imp hd
  have hhead : ∀ d ∈ ((c :: rest).dropWhile Char.isDigit).head?, ¬d.isDigit := head?_dropWhile _
  rw [number, hwhole]
  split
  · next behind hdrop =>
    rw [hdrop] at hhead
    cases hfraction : behind.takeWhile Char.isDigit with
    | nil =>
      refine fits_of_stops (.number (.whole hdigits)) ⟨hhead, fun _ d hd _ hdigit => ?_⟩
      obtain ⟨behind, rfl⟩ := List.head?_eq_some_iff.1 hd
      rw [List.takeWhile_cons_of_pos hdigit] at hfraction
      cases hfraction
    | cons d fraction =>
      have hfraction' : ∀ e ∈ d :: fraction, e.isDigit := by
        rw [← hfraction]
        exact fun e he => List.mem_takeWhile_imp he
      refine fits_of_stops (.number (.decimal hdigits hfraction')) ⟨head?_dropWhile _, ?_⟩
      exact fun hpoint => absurd (by simp) hpoint
  · next rest' hne =>
    refine fits_of_stops (.number (.whole hdigits)) ⟨hhead, fun _ d hd hpoint => ?_⟩
    obtain ⟨behind, hbehind⟩ := List.head?_eq_some_iff.1 hpoint
    exact absurd hbehind (hne behind)

theorem string_fits : Fits (string rest).1 (string rest).2 := by
  have hcontent : '"' ∉ rest.takeWhile (· != '"') := by
    intro hmem
    exact absurd (List.mem_takeWhile_imp hmem) (by decide)
  rw [string]
  split
  · exact fits_of_stops (.string hcontent) trivial
  · exact .openString hcontent

theorem lineComment_fits : Fits (first '/' ('/' :: rest)).1 (first '/' ('/' :: rest)).2 := by
  have htake : ('/' :: '/' :: rest).takeWhile (· != '\n') =
      '/' :: '/' :: rest.takeWhile (· != '\n') := rfl
  rw [first_lineComment, lineComment, htake]
  refine .lineComment (fun hmem => ?_) fun d hd => ?_
  · exact absurd (List.mem_takeWhile_imp hmem) (by decide)
  · simpa using head?_dropWhile _ d hd

theorem blockComment_fits : Fits (first '/' ('*' :: rest)).1 (first '/' ('*' :: rest)).2 := by
  rw [first_blockComment]
  obtain ⟨body, rest, hbody, rfl, heq⟩ | heq := blockComment_cases 0 ['*', '/'] rest
  · rw [heq]
    exact .blockComment hbody
  · rw [heq]
    refine .openComment fun body hprefix hbody => ?_
    -- a text that closes the comment would have been found
    obtain ⟨rest', rfl⟩ := hprefix
    rw [hbody.blockComment_eq] at heq
    cases heq

theorem single_fits (hblank : ¬isBlank c) (hword : ¬startsWord c) (hdigit : ¬c.isDigit)
    (hquote : c ≠ '"') (hcomment : ¬OpensComment (c :: rest))
    (hequal : ∀ s, symbolWithEqual? c = some s → rest.head? ≠ some '=') :
    Fits (single c rest).1 (single c rest).2 := by
  rw [single]
  split
  · next s hs =>
    have hlexeme : Lexeme (.symbol s) [c] := (symbolOf?_spec hs).1 ▸ .symbol s
    refine fits_of_stops hlexeme
      ⟨fun c' s' heq hs' => ?_, fun heq => ⟨fun hhead => ?_, fun hhead => ?_⟩⟩
    · obtain rfl := List.singleton_inj.1 heq
      exact hequal s' hs'
    all_goals
      obtain rfl := List.singleton_inj.1 heq
      obtain ⟨rest', rfl⟩ := List.head?_eq_some_iff.1 hhead
    · exact hcomment (.inl ⟨rest', rfl⟩)
    · exact hcomment (.inr ⟨rest', rfl⟩)
  · next hnone =>
    refine .unexpected hblank fun kind text h => ?_
    obtain ⟨c', rest', heq, ⟨s, -, hs⟩ | ⟨hc, -⟩ | ⟨hc, -⟩ | ⟨hc, -⟩⟩ := h.starts
    all_goals obtain ⟨rfl, -⟩ := List.cons.inj heq
    · have hsome := Lexeme.isSome_symbolOf? hs
      rw [hnone] at hsome
      cases hsome
    · exact hword hc
    · exact hdigit hc
    · exact hquote hc

/-- The first piece of a source fits. -/
theorem first_fits (c : Char) (rest : List Char) : Fits (first c rest).1 (first c rest).2 := by
  by_cases hblank : isBlank c
  · rw [first_of_isBlank hblank]
    exact .blank hblank
  by_cases hword : startsWord c
  · rw [first_of_startsWord hword]
    refine fits_of_stops (.word hword fun d hd => List.mem_takeWhile_imp hd) ?_
    exact stops_wordKind (head?_dropWhile rest)
  by_cases hdigit : c.isDigit
  · rw [first_of_isDigit hdigit]
    exact number_fits hdigit
  by_cases hquote : c = '"'
  · rw [hquote, first_quote]
    exact string_fits
  by_cases hcomment : OpensComment (c :: rest)
  · obtain ⟨body, heq⟩ | ⟨body, heq⟩ := hcomment
    all_goals obtain ⟨rfl, rfl⟩ := List.cons.inj heq
    · exact lineComment_fits
    · exact blockComment_fits
  by_cases hequal : ∃ s, symbolWithEqual? c = some s ∧ rest.head? = some '='
  · obtain ⟨s, hs, hhead⟩ := hequal
    obtain ⟨behind, rfl⟩ := List.head?_eq_some_iff.1 hhead
    rw [first_of_symbolWithEqual? hs]
    refine fits_of_stops ((symbolWithEqual?_spec hs).1 ▸ .symbol s) ⟨fun c' s' heq => ?_, ?_⟩
    · cases heq
    · intro heq
      cases heq
  · have hequal : ∀ s, symbolWithEqual? c = some s → rest.head? ≠ some '=' :=
      fun s hs hhead => hequal ⟨s, hs, hhead⟩
    rw [first_eq_single hblank hword hdigit hquote hcomment hequal]
    exact single_fits hblank hword hdigit hquote hcomment hequal

/-- The first piece of a source is the one that fits. -/
theorem first_eq_iff {p : Piece} :
    first c text = (p, rest) ↔ p.Fits rest ∧ p.text ++ rest = c :: text := by
  constructor
  · intro h
    have hfits := first_fits c text
    have htiles := first_tiles c text
    rw [h] at hfits htiles
    exact ⟨hfits, htiles⟩
  · rintro ⟨hfits, htiles⟩
    obtain ⟨c', text', heq, hfirst⟩ := hfits.first_eq
    obtain ⟨rfl, rfl⟩ := List.cons.inj (htiles.symm.trans heq)
    exact hfirst

theorem split_of_fits {p : Piece} (h : p.Fits rest) : split (p.text ++ rest) = p :: split rest := by
  obtain ⟨c, tail, heq, hfirst⟩ := h.first_eq
  rw [heq, split_cons, hfirst]

/-- A source is empty, or begins with what fits there. -/
@[elab_as_elim]
theorem split_induction {motive : List Char → List Piece → Prop} (nil : motive [] [])
    (cons : ∀ p rest, p.Fits rest → motive rest (split rest) →
      motive (p.text ++ rest) (p :: split rest)) (source : List Char) :
    motive source (split source) := by
  induction h : source.length using Nat.strongRecOn generalizing source with
  | ind n ih =>
    cases source with
    | nil =>
      rw [split_nil]
      exact nil
    | cons c tail =>
      have hrest := ih _ (h ▸ length_first_lt c tail) _ rfl
      rw [split_cons, ← first_tiles c tail]
      exact cons _ _ (first_fits c tail) hrest

end Piece

/-! ### Item streams -/

/-- The item streams that the lexical grammar gives for a source that begins on `line`. What fits at
the start of the source comes first, and what the rest gives comes behind it. -/
inductive Lexes : Nat → List Char → List Item → Prop
  | endOfInput {line : Nat} : Lexes line [] [.token ⟨.endOfInput, "", line⟩]
  | trivia {line : Nat} {text rest : List Char} {items : List Item}
      (h : (Piece.trivia text).Fits rest) (hrest : Lexes (line + text.count '\n') rest items) :
      Lexes line (text ++ rest) items
  | token {line : Nat} {kind : Kind} {text rest : List Char} {items : List Item}
      (h : (Piece.token kind text).Fits rest)
      (hrest : Lexes (line + text.count '\n') rest items) :
      Lexes line (text ++ rest)
        (.token ⟨kind, String.ofList text, line + text.count '\n'⟩ :: items)
  | fault {line : Nat} {cause : LexicalFault} {text rest : List Char} {items : List Item}
      (h : (Piece.fault cause text).Fits rest)
      (hrest : Lexes (line + text.count '\n') rest items) :
      Lexes line (text ++ rest) (.fault (line + text.count '\n') cause :: items)

/-- No other item stream is given for a source than that of its pieces. -/
theorem Lexes.eq_items {line : Nat} {source : List Char} {items : List Item}
    (h : Lexes line source items) : items = Piece.items line (Piece.split source) := by
  induction h with
  | endOfInput => rw [Piece.split_nil, Piece.items]
  | trivia h hrest ih | token h hrest ih | fault h hrest ih =>
    have hsplit := Piece.split_of_fits h
    rw [Piece.text] at hsplit
    rw [hsplit, ih]
    rfl

/-- The pieces of a source give an item stream of the lexical grammar. -/
theorem lexes_split (line : Nat) (source : List Char) :
    Lexes line source (Piece.items line (Piece.split source)) := by
  induction source using Piece.split_induction generalizing line with
  | nil => exact .endOfInput
  | cons p rest hfits ih =>
    have hrest := ih (line + p.newlines)
    cases p with
    | trivia text => exact .trivia hfits hrest
    | token kind text => exact .token hfits hrest
    | fault cause text => exact .fault hfits hrest

theorem lexes_iff {line : Nat} {source : List Char} {items : List Item} :
    Lexes line source items ↔ items = Piece.items line (Piece.split source) :=
  ⟨Lexes.eq_items, fun h => h ▸ lexes_split line source⟩

theorem Lexeme.kind_ne_endOfInput {kind : Kind} {text : List Char} (h : Lexeme kind text) :
    kind ≠ .endOfInput := by
  rintro rfl
  cases h with
  | number h => cases h

/-- A lexeme does not go on with a blank, nor at the end of the source. -/
theorem Lexeme.stops_of_isBlank {kind : Kind} {text rest : List Char} (h : Lexeme kind text)
    (hrest : ∀ c ∈ rest.head?, Piece.isBlank c) : kind.Stops text rest := by
  have hne {c : Char} (hc : ¬Piece.isBlank c) : rest.head? ≠ some c := fun hhead => hc (hrest c hhead)
  cases h with
  | symbol s =>
    exact ⟨fun _ _ _ _ => hne (by decide), fun _ => ⟨hne (by decide), hne (by decide)⟩⟩
  | keyword | identifier =>
    intro c hc hcontinues
    obtain hword | hdigit := Piece.continuesWord_iff.1 hcontinues
    · exact Piece.not_isBlank_of_startsWord hword (hrest c hc)
    · exact Piece.not_isBlank_of_isDigit hdigit (hrest c hc)
  | string => trivial
  | number h =>
    have hstops : (∀ c ∈ rest.head?, ¬c.isDigit) ∧ ('.' ∉ text → ∀ c ∈ rest.tail.head?,
        rest.head? = some '.' → ¬c.isDigit) :=
      ⟨fun c hc hdigit => Piece.not_isBlank_of_isDigit hdigit (hrest c hc),
        fun _ _ _ hpoint => absurd hpoint (hne (by decide))⟩
    cases h <;> exact hstops

theorem Lexeme.kind_unique {kind kind' : Kind} {text : List Char} (h : Lexeme kind text)
    (h' : Lexeme kind' text) : kind' = kind := by
  have hend : ∀ c ∈ ([] : List Char).head?, Piece.isBlank c := nofun
  obtain ⟨c, tail, heq, hfirst⟩ := Piece.first_eq_of_lexeme h (h.stops_of_isBlank hend)
  obtain ⟨c', tail', heq', hfirst'⟩ := Piece.first_eq_of_lexeme h' (h'.stops_of_isBlank hend)
  obtain ⟨rfl, rfl⟩ := List.cons.inj (heq.symm.trans heq')
  rw [hfirst] at hfirst'
  cases hfirst'
  rfl

/-- The end of the input is the last item, and no other item is one. -/
theorem Lexes.exists_eq_append {line : Nat} {source : List Char} {items : List Item}
    (h : Lexes line source items) : ∃ before,
      items = before ++ [.token ⟨.endOfInput, "", line + source.count '\n'⟩] ∧
        ∀ t, .token t ∈ before → t.kind ≠ .endOfInput := by
  induction h with
  | endOfInput => exact ⟨[], rfl, nofun⟩
  | trivia h hrest ih =>
    obtain ⟨before, rfl, hbefore⟩ := ih
    exact ⟨before, by rw [List.count_append, Nat.add_assoc], hbefore⟩
  | token h hrest ih =>
    obtain ⟨before, rfl, hbefore⟩ := ih
    refine ⟨_ :: before, by rw [List.count_append, Nat.add_assoc]; rfl, fun t ht => ?_⟩
    obtain heq | ht := List.mem_cons.1 ht
    · obtain rfl := Item.token.inj heq
      cases h with
      | token h => exact h.kind_ne_endOfInput
    · exact hbefore t ht
  | fault h hrest ih =>
    obtain ⟨before, rfl, hbefore⟩ := ih
    refine ⟨_ :: before, by rw [List.count_append, Nat.add_assoc]; rfl, fun t ht => ?_⟩
    obtain heq | ht := List.mem_cons.1 ht
    · cases heq
    · exact hbefore t ht

namespace Source

/-- **Maximal munch.** The item stream of a source text is the one that the lexical grammar gives
for it. The text of a token tells its kind, and with it the text of a string and the value of a
number. The end of the input is the last item, and no other item is one. -/
theorem items_maximal_munch (source : String) :
    (∀ items, Lexes 1 source.toList items ↔ items = Source.items source) ∧
      (∀ kind kind' text, Lexeme kind text → Lexeme kind' text → kind' = kind) ∧
      ∃ before, Source.items source =
          before ++ [.token ⟨.endOfInput, "", 1 + source.toList.count '\n'⟩] ∧
        ∀ t, .token t ∈ before → t.kind ≠ .endOfInput :=
  ⟨fun _ => lexes_iff, fun _ _ _ h h' => h.kind_unique h',
    (lexes_split 1 source.toList).exists_eq_append⟩

end Source

end Treewalk
