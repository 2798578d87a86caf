import Treewalk.Proofs.Lexing.Changes

/-!
# Scanning lexemes again

The lexemes of a text may be taken apart and put together again: with blanks and closed block
comments between them they are read as the same tokens, because a blank stops every lexeme. Only
the lines may be others.

## Main definitions

* `Source.IsSingle` — a text that is one token and nothing else
* `Source.IsSeparator` — blanks and closed block comments that begin and end with a blank
* `Source.Joined` — texts with separators between them

## Main results

* `Source.tokens_joined` — the tokens of texts that are joined, and of the lexemes of a text
-/

namespace Treewalk

/-- A kind, with the text of a string and the value of a number, and a lexeme. -/
def Token.spelling (t : Token) : Kind × String := (t.kind, t.lexeme)

namespace Source

/-- The lexemes of the tokens of a text. -/
def lexemes (source : String) : List String := (content source).map Token.lexeme

/-- The items of the text are one token, spelled by the whole text, and the end of the input. -/
def IsSingle (text : String) : Prop :=
  ∃ kind line line', items text =
    [.token ⟨kind, text, line⟩, .token ⟨.endOfInput, "", line'⟩]

/-- Blanks and closed block comments. -/
inductive Skipped : List Char → Prop
  | nil : Skipped []
  | blank {c : Char} {rest : List Char} (hc : Piece.isBlank c) (hrest : Skipped rest) :
      Skipped (c :: rest)
  | comment {body rest : List Char} (hbody : Closes 0 body) (hrest : Skipped rest) :
      Skipped ('/' :: '*' :: body ++ rest)

/-- Blanks and closed block comments, with a blank at the beginning and at the end. -/
structure IsSeparator (text : List Char) : Prop where
  skipped : Skipped text
  begins : ∃ c ∈ text.head?, Piece.isBlank c
  ends : ∃ c ∈ text.getLast?, Piece.isBlank c

/-- Texts, one behind the other, with a separator between any two of them. -/
inductive Joined : List String → String → Prop
  | nil : Joined [] ""
  | single (text : String) : Joined [text] text
  | cons {text next source separator : String} {texts : List String}
      (hseparator : IsSeparator separator.toList) (h : Joined (next :: texts) source) :
      Joined (text :: next :: texts) (text ++ separator ++ source)

end Source

/-! ### Texts that are one token -/

theorem Lexes.lexeme_of_mem {line : Nat} {source : List Char} {items : List Item} {t : Token}
    (h : Lexes line source items) (ht : .token t ∈ items) (hkind : t.kind ≠ .endOfInput) :
    Lexeme t.kind t.lexeme.toList := by
  induction h with
  | endOfInput =>
    obtain rfl := Item.token.inj (List.mem_singleton.1 ht)
    exact absurd rfl hkind
  | trivia h hrest ih => exact ih ht
  | token h hrest ih =>
    obtain heq | ht := List.mem_cons.1 ht
    · obtain rfl := Item.token.inj heq
      cases h with
      | token h => rwa [String.toList_ofList]
    · exact ih ht
  | fault h hrest ih =>
    obtain heq | ht := List.mem_cons.1 ht
    · cases heq
    · exact ih ht

namespace Source

variable {source text : String} {kind : Kind}

theorem lexes_of_lexeme (h : Lexeme kind text.toList) (line : Nat) :
    let last := line + text.toList.count '\n'
    Lexes line text.toList [.token ⟨kind, text, last⟩, .token ⟨.endOfInput, "", last⟩] := by
  intro last
  have hend : ∀ c ∈ ([] : List Char).head?, Piece.isBlank c := nofun
  have hrest : Lexes last [] _ := .endOfInput
  have htoken := Lexes.token (Piece.fits_of_stops h (h.stops_of_isBlank hend)) hrest
  rwa [List.append_nil, String.ofList_toList] at htoken

theorem isSingle_iff : IsSingle text ↔ ∃ kind, Lexeme kind text.toList := by
  constructor
  · rintro ⟨kind, line, line', hitems⟩
    have hlexes := lexes_split 1 text.toList
    obtain ⟨before, heq, hbefore⟩ := hlexes.exists_eq_append
    have hitems' : Piece.items 1 (Piece.split text.toList) = _ := hitems
    have hlast : [Item.token ⟨kind, text, line⟩] = before := by
      refine List.append_inj_left' (hitems'.symm.trans heq) rfl
    have hkind := hbefore ⟨kind, text, line⟩ (hlast ▸ .head _)
    exact ⟨kind, hlexes.lexeme_of_mem (hitems' ▸ .head _) hkind⟩
  · rintro ⟨kind, h⟩
    exact ⟨kind, _, _, (lexes_of_lexeme h 1).eq_items.symm⟩

/-- A lexeme by itself is a text with one token. -/
theorem content_of_lexeme (h : Lexeme kind text.toList) :
    content text = [⟨kind, text, 1 + text.toList.count '\n'⟩] := by
  refine (content_of_lexes (lexes_of_lexeme h 1) (fun t ht => ?_) rfl).2
  obtain rfl := List.mem_singleton.1 ht
  simpa [Token.isEnd] using h.kind_ne_endOfInput

/-! ### Texts that are joined -/

/-- What is skipped is no item. -/
theorem Skipped.lexes {skipped rest : List Char} {items : List Item} (h : Skipped skipped)
    {line : Nat} (hrest : Lexes (line + skipped.count '\n') rest items) :
    Lexes line (skipped ++ rest) items := by
  induction h generalizing line with
  | nil => exact hrest
  | @blank c behind hc _ ih =>
    rw [← List.singleton_append, List.count_append, ← Nat.add_assoc] at hrest
    rw [List.cons_append, ← List.singleton_append]
    exact .trivia (.blank hc) (ih hrest)
  | @comment body behind hbody _ ih =>
    rw [List.count_append, ← Nat.add_assoc] at hrest
    rw [List.append_assoc]
    exact .trivia (.blockComment hbody) (ih hrest)

/-- A separator stops every lexeme. -/
theorem IsSeparator.fits {separator text : List Char} (h : IsSeparator separator)
    (hlexeme : Lexeme kind text) (rest : List Char) :
    (Piece.token kind text).Fits (separator ++ rest) := by
  obtain ⟨c, hhead, hc⟩ := h.begins
  obtain ⟨tail, rfl⟩ := List.head?_eq_some_iff.1 hhead
  refine Piece.fits_of_stops hlexeme (hlexeme.stops_of_isBlank fun d hd => ?_)
  obtain rfl : c = d := Option.some.inj hd
  exact hc

/-- The tokens of single texts that are joined, up to their lines. -/
theorem Joined.exists_lexes {texts : List String} (h : Joined texts source)
    (hsingle : ∀ text ∈ texts, IsSingle text) (line : Nat) :
    ∃ ts : List Token, Lexes line source.toList (ts.map .token) ∧ ts.map Token.spelling =
      (texts.flatMap fun text => (content text).map Token.spelling) ++ [(.endOfInput, "")] := by
  induction h generalizing line with
  | nil => exact ⟨[⟨.endOfInput, "", line⟩], .endOfInput, rfl⟩
  | single text =>
    obtain ⟨kind, hlexeme⟩ := isSingle_iff.1 (hsingle text (.head _))
    refine ⟨[_, _], lexes_of_lexeme hlexeme line, ?_⟩
    rw [List.flatMap_singleton, content_of_lexeme hlexeme]
    rfl
  | @cons text next source separator texts hseparator h ih =>
    obtain ⟨hfirst, hrest⟩ := List.forall_mem_cons.1 hsingle
    obtain ⟨kind, hlexeme⟩ := isSingle_iff.1 hfirst
    obtain ⟨ts, hlexes, hspelling⟩ := ih hrest
      (line + text.toList.count '\n' + separator.toList.count '\n')
    have hwhole := Lexes.token (hseparator.fits hlexeme _) (hseparator.skipped.lexes hlexes)
    rw [String.ofList_toList] at hwhole
    refine ⟨_ :: ts, by simpa using hwhole, ?_⟩
    rw [List.flatMap_cons, content_of_lexeme hlexeme, List.map_cons, hspelling]
    rfl

theorem Joined.tokens {texts : List String} (h : Joined texts source)
    (hsingle : ∀ text ∈ texts, IsSingle text) : lexicalFaults source = [] ∧
      (tokens source).map Token.spelling =
        (texts.flatMap fun text => (content text).map Token.spelling) ++ [(.endOfInput, "")] := by
  obtain ⟨ts, hlexes, hspelling⟩ := h.exists_lexes hsingle 1
  obtain ⟨hfaults, htokens⟩ := tokens_of_lexes hlexes
  exact ⟨hfaults, htokens ▸ hspelling⟩

/-! ### The lexemes of a text -/

/-- A single space is a separator. -/
theorem isSeparator_space : IsSeparator " ".toList where
  skipped := .blank (by decide) .nil
  begins := ⟨' ', rfl, by decide⟩
  ends := ⟨' ', rfl, by decide⟩

theorem joined_intercalate (texts : List String) : Joined texts (" ".intercalate texts) := by
  induction texts with
  | nil => exact .nil
  | cons text rest ih =>
    cases rest with
    | nil =>
      rw [String.intercalate_singleton]
      exact .single text
    | cons next texts =>
      rw [String.intercalate_cons_cons]
      exact .cons isSeparator_space ih

theorem lexeme_of_mem_content {t : Token} (h : t ∈ content source) :
    Lexeme t.kind t.lexeme.toList := by
  have hkind : t.kind ≠ .endOfInput := by simpa [Token.isEnd] using not_isEnd_of_mem_content h
  have hmem : t ∈ Source.tokens source := List.takeWhile_subset _ h
  obtain ⟨item, hitem, ht⟩ := List.mem_filterMap.1 hmem
  cases item with
  | fault => cases ht
  | token t' =>
    obtain rfl := Option.some.inj ht
    exact (lexes_split 1 source.toList).lexeme_of_mem hitem hkind

/-- Each lexeme of a text is one token, namely that of which it is the lexeme. -/
theorem flatMap_lexemes (source : String) :
    ((lexemes source).flatMap fun text => (content text).map Token.spelling) =
      (content source).map Token.spelling := by
  rw [lexemes, List.flatMap_map, ← List.flatMap_singleton' ((content source).map Token.spelling),
    List.flatMap_map]
  refine List.flatMap_congr fun t ht => ?_
  rw [content_of_lexeme (lexeme_of_mem_content ht)]
  rfl

/-- **Lexemes are read again as the same tokens.** Texts that are one token each, with separators
between them, have no faults and the tokens of the texts, up to their lines. The lexemes of any text
are such texts, and single spaces are separators. -/
theorem tokens_joined :
    (∀ texts source, (∀ text ∈ texts, IsSingle text) → Joined texts source →
      lexicalFaults source = [] ∧ (tokens source).map Token.spelling =
        (texts.flatMap fun text => (content text).map Token.spelling) ++ [(.endOfInput, "")]) ∧
    ∀ source, (∀ text ∈ lexemes source, IsSingle text) ∧
      Joined (lexemes source) (" ".intercalate (lexemes source)) ∧
      lexicalFaults (" ".intercalate (lexemes source)) = [] ∧
      (tokens (" ".intercalate (lexemes source))).map Token.spelling =
        (tokens source).map Token.spelling := by
  refine ⟨fun texts source hsingle hjoined => hjoined.tokens hsingle, fun source => ?_⟩
  have hsingle : ∀ text ∈ lexemes source, IsSingle text := by
    intro text htext
    obtain ⟨t, ht, rfl⟩ := List.mem_map.1 htext
    exact isSingle_iff.2 ⟨_, lexeme_of_mem_content ht⟩
  have hjoined := joined_intercalate (lexemes source)
  obtain ⟨hfaults, htokens⟩ := hjoined.tokens hsingle
  refine ⟨hsingle, hjoined, hfaults, ?_⟩
  rw [htokens, flatMap_lexemes, tokens_eq source, List.map_append]
  rfl

/-- A comment inside a comment, between blanks. -/
theorem isSeparator_nested : IsSeparator " /* /**/ */\n".toList where
  skipped := by
    have hbody : Closes 0 " /**/ */".toList :=
      .skip (by decide) (by decide) (.enter (.leave (.skip (by decide) (by decide) .close)))
    exact .blank (by decide) (.comment hbody (.blank (by decide) .nil))
  begins := ⟨' ', rfl, by decide⟩
  ends := ⟨'\n', rfl, by decide⟩

def slashes : List String := ["/", "/", "\"*/\""]

/-- Without separators the slashes would begin a comment. -/
def slashesText : String := "/" ++ " /* /**/ */\n" ++ ("/" ++ " " ++ "\"*/\"")

theorem isSingle_of_mem_slashes : ∀ text ∈ slashes, IsSingle text := by
  have hslash : IsSingle "/" := ⟨.symbol .slash, 1, 1, by cbv⟩
  have hstring : IsSingle "\"*/\"" := ⟨.string "*/", 1, 1, by cbv⟩
  intro text htext
  simp only [slashes, List.mem_cons, List.not_mem_nil, or_false] at htext
  obtain rfl | rfl | rfl := htext
  · exact hslash
  · exact hslash
  · exact hstring

theorem tokens_joined_slashes :
    (∀ text ∈ slashes, IsSingle text) ∧ Joined slashes slashesText ∧
      lexicalFaults slashesText = [] ∧ (tokens slashesText).map Token.spelling =
        [(.symbol .slash, "/"), (.symbol .slash, "/"), (.string "*/", "\"*/\""),
          (.endOfInput, "")] := by
  have hjoined : Joined slashes slashesText :=
    .cons isSeparator_nested (.cons isSeparator_space (.single _))
  obtain ⟨hfaults, htokens⟩ := tokens_joined.1 _ _ isSingle_of_mem_slashes hjoined
  have hspelling : (slashes.flatMap fun text => (content text).map Token.spelling) =
      [(.symbol .slash, "/"), (.symbol .slash, "/"), (.string "*/", "\"*/\"")] := by cbv
  rw [hspelling] at htokens
  exact ⟨isSingle_of_mem_slashes, hjoined, hfaults, htokens⟩

end Source

end Treewalk
