import Mathlib
import Treewalk.Proofs.Grammar.Twins
import Treewalk.Proofs.Lexing.Munch

/-!
# Changes to a source text

What becomes of the items of a source text when another text is put behind it, on a line of its
own, and when some of its identifiers are replaced. The longest lexeme at the start of a text stays
the longest one if what is behind it begins in a similar way.

## Main definitions

* `BeginsAlike` — whatever the first text stops is stopped by the second one
* `Item.IsUnterminated` — a string or comment that is still open at the end of its text
* `Source.lower` — a text below empty lines

## Main results

* `Source.items_append_line` — the items of two texts, one below the other
* `Source.content_append` — their tokens, if there are no faults
* `Source.items_lower` — the items of a text below empty lines
* `Source.exists_respelled` — a text with other identifiers
-/

namespace Treewalk

/-- Whatever the first text stops is stopped by the second one. This one begins with the same
character, or with a letter as the first one does, or with a new line where the first one is at its
end; and no digit comes to stand behind a point. -/
structure BeginsAlike (rest rest' : List Char) : Prop where
  head : ∀ c' ∈ rest'.head?, rest.head? = some c' ∨ rest = [] ∧ c' = '\n' ∨
    ∃ c, rest.head? = some c ∧ Piece.startsWord c ∧ Piece.startsWord c'
  point : ∀ d ∈ rest'.tail.head?, d.isDigit → rest'.head? = some '.' →
    rest.head? = some '.' ∧ rest.tail.head? = some d

namespace BeginsAlike

variable {rest rest' : List Char} {c : Char}

/-- A character that is no letter and no new line begins both texts or none. -/
theorem head?_eq (h : BeginsAlike rest rest') (hword : ¬Piece.startsWord c) (hline : c ≠ '\n')
    (hc : rest'.head? = some c) : rest.head? = some c := by
  obtain hsame | ⟨-, heq⟩ | ⟨-, -, -, hc'⟩ := h.head c hc
  · exact hsame
  · exact absurd heq hline
  · exact absurd hc' hword

theorem head?_eq_of_isDigit (h : BeginsAlike rest rest') (hdigit : c.isDigit)
    (hc : rest'.head? = some c) : rest.head? = some c := by
  refine h.head?_eq (Piece.not_startsWord_of_isDigit hdigit) ?_ hc
  rintro rfl
  exact absurd hdigit (by decide)

theorem stops_word (h : BeginsAlike rest rest') (hrest : ∀ c ∈ rest.head?, ¬Piece.continuesWord c) :
    ∀ c ∈ rest'.head?, ¬Piece.continuesWord c := by
  intro c hc hcontinues
  obtain hsame | ⟨-, rfl⟩ | ⟨d, hd, hword, -⟩ := h.head c hc
  · exact hrest c hsame hcontinues
  · exact absurd hcontinues (by decide)
  · exact hrest d hd (Piece.continuesWord_iff.2 (.inl hword))

theorem stops {kind : Kind} {text : List Char} (h : BeginsAlike rest rest')
    (hs : kind.Stops text rest) : kind.Stops text rest' := by
  cases kind with
  | symbol s =>
    have hnone {c : Char} (hword : ¬Piece.startsWord c) (hline : c ≠ '\n')
        (hrest : rest.head? ≠ some c) : rest'.head? ≠ some c :=
      fun hc => hrest (h.head?_eq hword hline hc)
    exact ⟨fun c s' htext hs' => hnone (by decide) (by decide) (hs.1 c s' htext hs'), fun htext =>
      ⟨hnone (by decide) (by decide) (hs.2 htext).1, hnone (by decide) (by decide) (hs.2 htext).2⟩⟩
  | keyword | identifier => exact h.stops_word hs
  | number =>
    refine ⟨fun c hc hdigit => ?_, fun hpoint d hd hhead hdigit => ?_⟩
    · exact hs.1 c (h.head?_eq_of_isDigit hdigit hc) hdigit
    · obtain ⟨hhead', hd'⟩ := h.point d hd hdigit hhead
      exact hs.2 hpoint d hd' hhead' hdigit
  | string | endOfInput => trivial

theorem fits_token {kind : Kind} {text : List Char} (h : BeginsAlike rest rest')
    (hfits : (Piece.token kind text).Fits rest) : (Piece.token kind text).Fits rest' := by
  cases hfits with
  | token hlexeme hcomment hlongest =>
    exact Piece.fits_of_stops hlexeme (h.stops (hlexeme.stops_of_longest hcomment hlongest))

theorem fits_trivia {text : List Char} (h : BeginsAlike rest rest')
    (hfits : (Piece.trivia text).Fits rest) : (Piece.trivia text).Fits rest' := by
  cases hfits with
  | blank hblank => exact .blank hblank
  | blockComment hbody => exact .blockComment hbody
  | lineComment hcontent hrest =>
    refine .lineComment hcontent fun c hc => ?_
    obtain hsame | ⟨-, heq⟩ | ⟨d, hd, hword, -⟩ := h.head c hc
    · exact hrest c hsame
    · exact heq
    · exact absurd (hrest d hd ▸ hword) (by decide)

/-- A text goes on alike if what is behind its first character begins alike. -/
theorem append (h : BeginsAlike rest rest') {text : List Char} (htext : text ≠ []) :
    BeginsAlike (text ++ rest) (text ++ rest') := by
  obtain ⟨c, text, rfl⟩ := List.exists_cons_of_ne_nil htext
  refine ⟨fun c' hc' => .inl hc', fun d hd hdigit hhead => ⟨hhead, ?_⟩⟩
  cases text with
  | nil => exact h.head?_eq_of_isDigit hdigit hd
  | cons e text => exact hd

/-- A new line may follow at the end. -/
theorem append_line (rest behind : List Char) : BeginsAlike rest (rest ++ '\n' :: behind) := by
  cases rest with
  | nil =>
    refine ⟨fun c hc => .inr (.inl ⟨rfl, (Option.some.inj hc).symm⟩), fun d hd hdigit hhead => ?_⟩
    cases hhead
  | cons c rest =>
    refine ⟨fun c' hc' => .inl hc', fun d hd hdigit hhead => ⟨hhead, ?_⟩⟩
    cases rest with
    | nil =>
      obtain rfl := Option.some.inj hd
      exact absurd hdigit (by decide)
    | cons e rest => exact hd

theorem word {c c' : Char} (hc : Piece.startsWord c) (hc' : Piece.startsWord c')
    (rest rest' : List Char) : BeginsAlike (c :: rest) (c' :: rest') := by
  refine ⟨fun d hd => .inr (.inr ⟨c, rfl, hc, ?_⟩), fun d hd hdigit hhead => ?_⟩
  · obtain rfl := Option.some.inj hd
    exact hc'
  · obtain rfl := Option.some.inj hhead
    exact absurd hc' (by decide)

end BeginsAlike

/-! ### A text below another one -/

/-- An item as it is found some lines further down. -/
def Item.down (lines : Nat) : Item → Item
  | token t => token (t.down lines)
  | fault line cause => fault (line + lines) cause

theorem Lexes.down {line : Nat} {source : List Char} {items : List Item}
    (h : Lexes line source items) (lines : Nat) :
    Lexes (line + lines) source (items.map (Item.down lines)) := by
  induction h with
  | endOfInput => exact .endOfInput
  | trivia h hrest ih =>
    rw [Nat.add_right_comm] at ih
    exact .trivia h ih
  | @token line kind text rest items h hrest ih =>
    rw [Nat.add_right_comm] at ih
    have hitem : Item.down lines (.token ⟨kind, String.ofList text, line + text.count '\n'⟩) =
        .token ⟨kind, String.ofList text, line + lines + text.count '\n'⟩ := by
      rw [Nat.add_right_comm line lines]
      rfl
    rw [List.map_cons, hitem]
    exact .token h ih
  | @fault line cause text rest items h hrest ih =>
    rw [Nat.add_right_comm] at ih
    have hitem : Item.down lines (.fault (line + text.count '\n') cause) =
        .fault (line + lines + text.count '\n') cause := by
      rw [Nat.add_right_comm line lines]
      rfl
    rw [List.map_cons, hitem]
    exact .fault h ih

/-- The string or the comment that a text ends in is not closed. -/
def Item.IsUnterminated : Item → Prop
  | fault _ cause => cause = .unterminatedString ∨ cause = .unterminatedComment
  | token _ => False

/-- A character at fault is at fault whatever follows. -/
theorem Piece.Fits.of_not_unterminated {line : Nat} {cause : LexicalFault} {text rest : List Char}
    (h : (Piece.fault cause text).Fits rest) (hclosed : ¬(Item.fault line cause).IsUnterminated)
    (rest' : List Char) : (Piece.fault cause text).Fits rest' := by
  cases h with
  | unexpected hblank hnone => exact .unexpected hblank hnone
  | openString => exact absurd (.inl rfl) hclosed
  | openComment => exact absurd (.inr rfl) hclosed

/-- The items of a text that leaves no string and no comment open, and those of a text below it. -/
theorem Lexes.append_line {line : Nat} {source : List Char} {items : List Item}
    (h : Lexes line source items) (hclosed : ∀ item ∈ items, ¬item.IsUnterminated) :
    ∃ before, items = before ++ [.token ⟨.endOfInput, "", line + source.count '\n'⟩] ∧
      ∀ other items', Lexes (line + source.count '\n' + 1) other items' →
        Lexes line (source ++ '\n' :: other) (before ++ items') := by
  induction h with
  | @endOfInput line =>
    refine ⟨[], rfl, fun other items' hother => ?_⟩
    have hblank : (Piece.trivia ['\n']).Fits other := .blank (by decide)
    have hbelow : Lexes line (['\n'] ++ other) items' := .trivia hblank hother
    exact hbelow
  | @trivia line text rest items h hrest ih =>
    obtain ⟨before, rfl, hbefore⟩ := ih hclosed
    refine ⟨before, by rw [List.count_append, Nat.add_assoc], fun other items' hother => ?_⟩
    rw [List.append_assoc]
    refine .trivia ((BeginsAlike.append_line rest other).fits_trivia h) (hbefore other items' ?_)
    rwa [List.count_append, ← Nat.add_assoc] at hother
  | @token line kind text rest items h hrest ih =>
    obtain ⟨before, rfl, hbefore⟩ := ih fun item hmem => hclosed item (.tail _ hmem)
    refine ⟨_ :: before, by rw [List.count_append, Nat.add_assoc]; rfl,
      fun other items' hother => ?_⟩
    rw [List.append_assoc]
    refine .token ((BeginsAlike.append_line rest other).fits_token h) (hbefore other items' ?_)
    rwa [List.count_append, ← Nat.add_assoc] at hother
  | @fault line cause text rest items h hrest ih =>
    obtain ⟨before, rfl, hbefore⟩ := ih fun item hmem => hclosed item (.tail _ hmem)
    refine ⟨_ :: before, by rw [List.count_append, Nat.add_assoc]; rfl,
      fun other items' hother => ?_⟩
    rw [List.append_assoc]
    refine .fault (h.of_not_unterminated (hclosed _ (.head _)) _) (hbefore other items' ?_)
    rwa [List.count_append, ← Nat.add_assoc] at hother

/-- The same for whole texts. -/
theorem Lexes.append_below {source : List Char} {items : List Item} (h : Lexes 1 source items)
    (hclosed : ∀ item ∈ items, ¬item.IsUnterminated) :
    ∃ before, items = before ++ [.token ⟨.endOfInput, "", 1 + source.count '\n'⟩] ∧
      ∀ other items', Lexes 1 other items' → Lexes 1 (source ++ '\n' :: other)
        (before ++ items'.map (Item.down (source.count '\n' + 1))) := by
  obtain ⟨before, hbefore, happend⟩ := h.append_line hclosed
  refine ⟨before, hbefore, fun other items' hother => happend other _ ?_⟩
  rw [Nat.add_assoc]
  exact hother.down _

/-- Empty lines above a text change nothing but the line on which it begins. -/
theorem Lexes.below_lines {line lines : Nat} {source : List Char} {items : List Item}
    (h : Lexes (line + lines) source items) :
    Lexes line (List.replicate lines '\n' ++ source) items := by
  induction lines generalizing line with
  | zero => exact h
  | succ lines ih =>
    rw [← Nat.add_assoc, Nat.add_right_comm] at h
    have hblank : (Piece.trivia ['\n']).Fits (List.replicate lines '\n' ++ source) :=
      .blank (by decide)
    have hlexes : Lexes line (['\n'] ++ (List.replicate lines '\n' ++ source)) items :=
      .trivia hblank (ih h)
    exact hlexes

/-- All tokens of a text end on its lines. -/
theorem Lexes.line_bounds {line : Nat} {source : List Char} {items : List Item}
    (h : Lexes line source items) {t : Token} (ht : .token t ∈ items) :
    line ≤ t.line ∧ t.line ≤ line + source.count '\n' := by
  induction h with
  | endOfInput =>
    obtain rfl : t = _ := Item.token.inj (List.mem_singleton.1 ht)
    exact ⟨le_rfl, Nat.le_add_right _ _⟩
  | trivia h hrest ih =>
    rw [List.count_append]
    have := ih ht
    omega
  | token h hrest ih =>
    rw [List.count_append]
    obtain heq | hmem := List.mem_cons.1 ht
    · obtain rfl : t = _ := Item.token.inj heq
      dsimp only
      omega
    · have := ih hmem
      omega
  | fault h hrest ih =>
    rw [List.count_append]
    obtain heq | hmem := List.mem_cons.1 ht
    · cases heq
    · have := ih hmem
      omega

/-! ### Other identifiers -/

theorem Piece.IsName.lexeme {text : List Char} (h : IsName text) : Lexeme .identifier text := by
  obtain ⟨c, rest, rfl, hc, hrest⟩ := h.word
  rw [← h.kind_eq]
  exact .word hc hrest

theorem Lexeme.exists_word {text : List Char} (h : Lexeme .identifier text) :
    ∃ c rest, text = c :: rest ∧ Piece.startsWord c ∧ text.count '\n' = 0 := by
  cases h with
  | @identifier c rest hc hrest hne =>
    refine ⟨c, rest, rfl, hc, List.count_eq_zero.2 fun hmem => ?_⟩
    obtain rfl | hmem := List.mem_cons.1 hmem
    · exact absurd hc (by decide)
    · exact absurd (hrest _ hmem) (by decide)
  | number h => cases h

/-- Identifiers of a text without faults may be replaced by another one. -/
theorem Lexes.exists_respelled {r : Edit} (hnew : Piece.IsName r.new.toList) (hlines : r.lines = 0)
    {line : Nat} {source : List Char} {items : List Item} (h : Lexes line source items)
    {ts ts' : List Token} (hitems : items = ts.map .token)
    (htwin : List.Forall₂ (TokenTwin r) ts ts') :
    ∃ source', Lexes line source' (ts'.map .token) ∧ BeginsAlike source source' := by
  induction h generalizing ts ts' with
  | @endOfInput line =>
    obtain ⟨t, rfl, ht⟩ : ∃ t, ts = [t] ∧ Item.token ⟨.endOfInput, "", line⟩ = .token t := by
      obtain _ | ⟨t, _ | ⟨t', rest⟩⟩ := ts
      · cases hitems
      · exact ⟨t, rfl, (List.cons.inj hitems).1⟩
      · cases hitems
    obtain rfl := Item.token.inj ht
    obtain _ | ⟨⟨hkind, hline, hlexeme⟩, hrest⟩ := htwin
    cases hrest
    obtain hlexeme | ⟨hidentifier, -⟩ := hlexeme
    · rename_i t'
      obtain ⟨kind, lexeme, line'⟩ := t'
      obtain rfl : kind = .endOfInput := hkind
      obtain rfl : line' = line := hline.trans (by rw [hlines]; rfl)
      obtain rfl : lexeme = "" := hlexeme
      exact ⟨[], .endOfInput, ⟨nofun, nofun⟩⟩
    · cases hidentifier
  | @trivia line text rest items h hrest ih =>
    obtain ⟨rest', hrest', halike⟩ := ih hitems htwin
    exact ⟨text ++ rest', .trivia (halike.fits_trivia h) hrest', halike.append h.ne_nil⟩
  | @token line kind text rest items h hrest ih =>
    obtain _ | ⟨t, ts⟩ := ts
    · cases hitems
    obtain ⟨ht, hrestItems⟩ := List.cons.inj hitems
    obtain rfl := Item.token.inj ht
    obtain _ | @⟨_, t', _, ts', ⟨hkind, hdown, hlexeme⟩, hts⟩ := htwin
    obtain ⟨rest', hrest', halike⟩ := ih hrestItems hts
    obtain ⟨kind', lexeme, line'⟩ := t'
    obtain rfl : kind' = kind := hkind
    obtain rfl : line' = line + text.count '\n' := by
      have hdown : line' = line + text.count '\n' + r.lines := hdown
      rw [hdown, hlines, Nat.add_zero]
    obtain hlexeme | ⟨hidentifier, -, hlexeme⟩ := hlexeme
    · obtain rfl : lexeme = String.ofList text := hlexeme
      exact ⟨text ++ rest', .token (halike.fits_token h) hrest', halike.append h.ne_nil⟩
    · -- a word stands in the place of another word
      obtain rfl : lexeme = r.new := hlexeme
      obtain rfl : kind' = .identifier := by simpa [Token.isIdentifier] using hidentifier
      cases h with
      | token hold hcomment hlongest =>
        obtain ⟨c, tail, rfl, hc, hcount⟩ := hold.exists_word
        obtain ⟨c', tail', hnew', hc', hcount'⟩ := hnew.lexeme.exists_word
        have hstops := halike.stops (hold.stops_of_longest hcomment hlongest)
        have hfits : (Piece.token .identifier r.new.toList).Fits rest' :=
          Piece.fits_of_stops hnew.lexeme hstops
        rw [hcount, ← hcount'] at hrest' ⊢
        refine ⟨r.new.toList ++ rest', ?_, ?_⟩
        · have htoken := Lexes.token hfits hrest'
          rwa [String.ofList_toList] at htoken
        · rw [hnew']
          exact .word hc hc' _ _
  | fault h hrest ih =>
    cases ts <;> cases hitems

/-! ### Source texts -/

namespace Source

variable {source : String} {w : List Token} {last : Token}

/-- The tokens of a text before its end. -/
def content (source : String) : List Token := (tokens source).takeWhile (!·.isEnd)

/-- The last token of a text. -/
def lastToken (source : String) : Token := ⟨.endOfInput, "", 1 + source.toList.count '\n'⟩

theorem not_isEnd_of_mem_content {t : Token} (h : t ∈ content source) : (!t.isEnd) = true :=
  List.mem_takeWhile_imp (p := fun t : Token => !t.isEnd) h

/-- No token but the last one is the end of the input. -/
theorem tokens_eq (source : String) : tokens source = content source ++ [lastToken source] := by
  obtain ⟨before, hitems, hbefore⟩ := (lexes_split 1 source.toList).exists_eq_append
  have hitems : items source = before ++ [.token (lastToken source)] := hitems
  have htokens : tokens source = before.filterMap Item.token? ++ [lastToken source] := by
    rw [tokens, hitems, List.filterMap_append]
    rfl
  have hw : ∀ t ∈ before.filterMap Item.token?, (!t.isEnd) = true := by
    intro t ht
    obtain ⟨item, hitem, heq⟩ := List.mem_filterMap.1 ht
    cases item with
    | token t' =>
      obtain rfl := Option.some.inj heq
      simpa [Token.isEnd] using hbefore t' hitem
    | fault => cases heq
  rw [content, htokens, List.takeWhile_append_of_pos hw]
  simp [Token.isEnd, lastToken]

theorem eq_map_of_faults_eq_nil {items : List Item} (h : items.filterMap Item.diagnostic? = []) :
    items = (items.filterMap Item.token?).map .token := by
  induction items with
  | nil => rfl
  | cons item rest ih =>
    cases item with
    | token t => exact congrArg (List.cons _) (ih h)
    | fault => cases h

/-- A text without faults is made of its tokens only. -/
theorem lexes_content (h : lexicalFaults source = []) :
    Lexes 1 source.toList ((content source ++ [lastToken source]).map .token) := by
  rw [← tokens_eq, tokens, ← eq_map_of_faults_eq_nil h]
  exact lexes_split 1 source.toList

theorem tokens_of_lexes {ts : List Token} (h : Lexes 1 source.toList (ts.map .token)) :
    lexicalFaults source = [] ∧ tokens source = ts := by
  have hitems : items source = ts.map .token := h.eq_items.symm
  rw [lexicalFaults, tokens, hitems, List.filterMap_map, List.filterMap_map]
  exact ⟨List.filterMap_eq_nil_iff.2 fun _ _ => rfl, List.filterMap_some⟩

theorem content_of_lexes (h : Lexes 1 source.toList ((w ++ [last]).map .token))
    (hw : ∀ t ∈ w, (!t.isEnd) = true) (hlast : last.isEnd) :
    lexicalFaults source = [] ∧ content source = w := by
  obtain ⟨hfaults, htokens⟩ := tokens_of_lexes h
  refine ⟨hfaults, ?_⟩
  rw [content, htokens, List.takeWhile_append_of_pos hw]
  simp [hlast]

/-- A text without faults leaves nothing open. -/
theorem not_isUnterminated_of_map (w : List Token) :
    ∀ item ∈ w.map Item.token, ¬item.IsUnterminated := by
  intro item hitem
  obtain ⟨t, -, rfl⟩ := List.mem_map.1 hitem
  exact id

theorem toList_append_line (source source' : String) :
    (source ++ "\n" ++ source').toList = source.toList ++ '\n' :: source'.toList := by
  simp

/-- A text with another one below it has the tokens of both. -/
theorem content_append {source' : String} (h : lexicalFaults source = [])
    (h' : lexicalFaults source' = []) :
    lexicalFaults (source ++ "\n" ++ source') = [] ∧ content (source ++ "\n" ++ source') =
      content source ++ (content source').map (·.down (source.toList.count '\n' + 1)) := by
  obtain ⟨before, hbefore, happend⟩ :=
    (lexes_content h).append_below (not_isUnterminated_of_map _)
  obtain rfl : (content source).map .token = before := by
    rw [List.map_append] at hbefore
    exact List.append_inj_left' hbefore rfl
  have hwhole := happend _ _ (lexes_content h')
  -- the items of the whole text are the tokens of both and the last token of the second
  have hitems : (content source).map Item.token ++
      ((content source' ++ [lastToken source']).map .token).map
        (Item.down (source.toList.count '\n' + 1)) =
      ((content source ++ (content source').map (·.down (source.toList.count '\n' + 1))) ++
        [(lastToken source').down (source.toList.count '\n' + 1)]).map .token := by
    simp only [List.map_append, List.map_map, List.append_assoc]
    rfl
  rw [hitems, ← toList_append_line] at hwhole
  refine content_of_lexes hwhole (fun t ht => ?_) rfl
  obtain ht | ht := List.mem_append.1 ht
  · exact not_isEnd_of_mem_content ht
  · obtain ⟨t', ht', rfl⟩ := List.mem_map.1 ht
    rw [Token.isEnd, Token.kind_down]
    exact not_isEnd_of_mem_content ht'

/-- All tokens of a text end on its lines. -/
theorem line_bounds_of_mem_tokens {t : Token} (ht : t ∈ tokens source) :
    1 ≤ t.line ∧ t.line ≤ source.toList.count '\n' + 1 := by
  obtain ⟨item, hitem, heq⟩ := List.mem_filterMap.1 ht
  cases item with
  | token t' =>
    obtain rfl := Option.some.inj heq
    have := (lexes_split 1 source.toList).line_bounds hitem
    omega
  | fault => cases heq

/-- A text below empty lines. -/
def lower (lines : Nat) (source : String) : String :=
  String.ofList (List.replicate lines '\n') ++ source

theorem items_lower (lines : Nat) (source : String) :
    items (lower lines source) = (items source).map (Item.down lines) := by
  have hlexes := ((lexes_split 1 source.toList).down lines).below_lines
  rw [items, lower, String.toList_append, String.toList_ofList]
  exact hlexes.eq_items.symm

theorem tokens_lower (lines : Nat) (source : String) :
    tokens (lower lines source) = (tokens source).map (·.down lines) := by
  rw [tokens, items_lower, tokens, List.filterMap_map, List.map_filterMap]
  refine List.filterMap_congr fun item _ => ?_
  cases item <;> rfl

/-- A text without faults has none below empty lines. -/
theorem content_lower (h : lexicalFaults source = []) (lines : Nat) :
    lexicalFaults (lower lines source) = [] ∧
      content (lower lines source) = (content source).map (·.down lines) := by
  refine ⟨?_, ?_⟩
  · rw [lexicalFaults, items_lower, List.filterMap_map, List.filterMap_eq_nil_iff]
    intro item hitem
    cases item with
    | token t => rfl
    | fault line cause =>
      have := List.filterMap_eq_nil_iff.1 h _ hitem
      cases this
  · rw [content, tokens_lower, List.takeWhile_map]
    rfl

theorem not_isUnterminated_of_message (h : ∀ d ∈ lexicalFaults source,
    d.message ≠ "Unterminated string." ∧ d.message ≠ "Unterminated block comment.") :
    ∀ item ∈ items source, ¬item.IsUnterminated := by
  rintro item hitem hopen
  cases item with
  | token t => exact hopen
  | fault line cause =>
    obtain ⟨hstring, hcomment⟩ := h (.lexical line cause) (List.mem_filterMap.2 ⟨_, hitem, rfl⟩)
    obtain rfl | rfl := hopen
    · exact hstring rfl
    · exact hcomment rfl

/-- **Lexing composes at new lines.** If no string and no block comment of the first text is left
open, the items of two texts, one below the other, are those of the first text without the end of
the input and those of the second one, faults included, with their lines counted on. -/
theorem items_append_line {source : String} (h : ∀ d ∈ lexicalFaults source,
    d.message ≠ "Unterminated string." ∧ d.message ≠ "Unterminated block comment.")
    (source' : String) : ∃ before, items source = before ++ [.token (lastToken source)] ∧
      items (source ++ "\n" ++ source') =
        before ++ (items source').map (Item.down (source.toList.count '\n' + 1)) := by
  obtain ⟨before, hbefore, happend⟩ :=
    (lexes_split 1 source.toList).append_below (not_isUnterminated_of_message h)
  refine ⟨before, hbefore, ?_⟩
  have hwhole := happend _ _ (lexes_split 1 source'.toList)
  rw [← toList_append_line] at hwhole
  exact hwhole.eq_items.symm

/-- A comment over two lines, a character that begins no token, and a line comment at the end. -/
def seamText : String := "/*\n*/ a.é // x"

set_option maxRecDepth 100000 in
theorem lexicalFaults_seamText : lexicalFaults seamText = [.lexical 2 .unexpectedCharacter] := by
  cbv

theorem items_openString : items "!\n\"y" =
    [.token ⟨.symbol .bang, "!", 1⟩, .fault 2 .unterminatedString, .token ⟨.endOfInput, "", 2⟩] := by
  cbv

/-- Below it stands a string that nothing closes. -/
theorem items_append_line_seamText :
    (∀ d ∈ lexicalFaults seamText,
      d.message ≠ "Unterminated string." ∧ d.message ≠ "Unterminated block comment.") ∧
    ∃ before, items seamText = before ++ [.token ⟨.endOfInput, "", 2⟩] ∧
      items (seamText ++ "\n" ++ "!\n\"y") = before ++ [.token ⟨.symbol .bang, "!", 3⟩,
        .fault 4 .unterminatedString, .token ⟨.endOfInput, "", 4⟩] := by
  have hclosed : ∀ d ∈ lexicalFaults seamText,
      d.message ≠ "Unterminated string." ∧ d.message ≠ "Unterminated block comment." := by
    rw [lexicalFaults_seamText]
    decide
  obtain ⟨before, hbefore, hwhole⟩ := items_append_line hclosed "!\n\"y"
  rw [items_openString] at hwhole
  exact ⟨hclosed, before, hbefore, hwhole⟩

/-- If some of its identifiers are replaced by a name, there is a text that has these tokens. -/
theorem exists_respelled {r : Edit} (hnew : Piece.IsName r.new.toList) (hlines : r.lines = 0)
    (h : lexicalFaults source = []) (htwin : TokensTwin r (content source) w) :
    ∃ source', lexicalFaults source' = [] ∧ content source' = w := by
  have hlast : TokenTwin r (lastToken source) (lastToken source) :=
    ⟨rfl, by rw [hlines, Nat.add_zero], .inl rfl⟩
  obtain ⟨text, hlexes, -⟩ := (lexes_content h).exists_respelled hnew hlines rfl
    (List.rel_append htwin (.cons hlast .nil))
  have hw : ∀ t' ∈ w, (!t'.isEnd) = true := by
    intro t' ht'
    obtain ⟨t, ht, hkind, -, -⟩ := exists_tokenTwin htwin ht'
    rw [Token.isEnd, hkind]
    exact not_isEnd_of_mem_content ht
  rw [← String.toList_ofList (l := text)] at hlexes
  exact ⟨String.ofList text, content_of_lexes hlexes hw rfl⟩

end Source

end Treewalk
