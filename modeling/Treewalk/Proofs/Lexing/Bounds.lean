import Treewalk.Proofs.Lexing.Encoding

/-!
# Scanning stays inside the source

The scanner that moves byte by byte never breaks off. Wherever it reads a byte there is one,
wherever it cuts out a text the positions are in order and on character boundaries, and none of its
loops goes round too often. What it comes to is what the grammar of lexemes gives, character by
character.

The places where the scanner stops are boundaries because it looks for ASCII characters only, and
for first bytes: no byte inside of a character is one of these. The exception is a block comment,
where the scanner does stand inside of characters, but cuts nothing out there.

## Main definitions

* `Bytewise.Head.Reads` — what has been read is a text, and what is ahead is one too
* `Bytewise.outcome` — what a step finds, for each piece of a source
* `Bytewise.Completes` — running a part of the scanner reads the rest of a piece

## Main results

* `Bytewise.completes_scanToken` — a step reads the piece that stands ahead, up to its end
* `Bytewise.run_next`, `Bytewise.run_drainNext` — from one item to the next, and to the last
* `Bytewise.scan_eq_items` — scanning byte by byte gives the items of the source
-/

namespace Treewalk

namespace Bytewise

open Source (bytes newline)

/-! ### Places in a text -/

/-- The scanner has read `before`, and `behind` is left. -/
structure Head.Reads (s : Head) (before behind : List Char) : Prop where
  source_eq : s.source = String.ofList (before ++ behind)
  curr_eq : s.curr = (bytes before).length

variable {s : Head} {c : Char} {before text rest behind : List Char}

namespace Head.Reads

theorem ahead_eq (h : s.Reads before behind) : s.ahead = bytes behind := by
  rw [ahead, Head.input, h.source_eq, String.toList_ofList, Source.bytes_append, h.curr_eq,
    List.drop_left]

theorem pass (h : s.Reads before (text ++ behind)) :
    (s.pass (Source.bytes text)).Reads (before ++ text) behind where
  source_eq := by
    rw [List.append_assoc]
    exact h.source_eq
  curr_eq := by
    rw [Source.bytes_append, List.length_append, ← h.curr_eq]
    rfl

theorem curr_le (h : s.Reads before behind) : s.curr ≤ s.length := by
  rw [h.curr_eq, ← s.length_input, Head.input, h.source_eq, String.toList_ofList,
    Source.bytes_append, List.length_append]
  exact Nat.le_add_right _ _

theorem length_bytes_le (h : s.Reads before behind) :
    (Source.bytes behind).length ≤ s.length := by
  rw [← h.ahead_eq]
  exact s.length_ahead_le

theorem run_advance (h : s.Reads before (c :: rest)) (hc : c.toNat < 128) :
    advance.run s = pure (code c, s.skip 1) :=
  Bytewise.run_advance (h.ahead_eq.trans (bytes_cons_of_ascii hc rest))

theorem run_matchByte (h : s.Reads before (c :: rest)) (hc : c.toNat < 128)
    (hline : code c ≠ newline) :
    (matchByte (code c)).run s = pure (true, s.pass (bytes [c])) := by
  rw [run_matchByte_of_eq (h.ahead_eq.trans (bytes_cons_of_ascii hc rest)),
    s.skip_one_eq_pass hline, bytes_singleton hc]

theorem run_matchByte_of_ne (h : s.Reads before rest) (hc : c.toNat < 128)
    (hne : rest.head? ≠ some c) : (matchByte (code c)).run s = pure (false, s) := by
  refine Bytewise.run_matchByte_of_ne ?_
  rwa [h.ahead_eq, ne_eq, head?_bytes_eq_some_iff hc]

theorem run_skipAll {p : UInt8 → Bool} {q : Char → Bool} (h : s.Reads before (text ++ rest))
    (hpq : ∀ c, ∀ b ∈ String.utf8EncodeChar c, p b = q c) (hzero : p 0 = false)
    (hline : p newline = false) (htext : ∀ d ∈ text, q d) (hrest : ∀ d ∈ rest.head?, ¬q d) :
    (skipAll p).run s = pure ((), s.pass (bytes text)) := by
  rw [Bytewise.run_skipAll hzero hline, h.ahead_eq, takeWhile_bytes hpq,
    (Lexeme.span_append htext hrest).1]

/-- The text of the lexeme that has been read. -/
theorem run_slice (h : s.Reads (before ++ text) behind)
    (hstart : s.start = (Source.bytes before).length) :
    (slice s.start s.curr).run s = pure (String.ofList text, s) :=
  Bytewise.run_slice h.source_eq hstart h.curr_eq

end Head.Reads

/-! ### Words and numbers -/

theorem eq_false_of_le_toNat {q : Char → Bool} (hq : ∀ c, q c → c.toNat < 128) (c : Char)
    (hc : 128 ≤ c.toNat) : q c = false :=
  Bool.eq_false_iff.2 fun h => absurd (hq c h) (Nat.not_lt.2 hc)

theorem toNat_lt_of_isDigit (c : Char) (h : c.isDigit) : c.toNat < 128 := by
  have := Piece.toNat_of_isDigit h
  omega

theorem toNat_lt_of_startsWord (c : Char) (h : Piece.startsWord c) : c.toNat < 128 := by
  have := Piece.toNat_of_startsWord h
  omega

theorem toNat_lt_of_continuesWord (c : Char) (h : Piece.continuesWord c) : c.toNat < 128 :=
  (Piece.continuesWord_iff.1 h).elim (toNat_lt_of_startsWord c) (toNat_lt_of_isDigit c)

theorem isDigit_eq (c : Char) (b : UInt8) (hb : b ∈ String.utf8EncodeChar c) :
    isDigit b = c.isDigit := letter_of_mem (eq_false_of_le_toNat toNat_lt_of_isDigit) hb

theorem continuesWord_eq (c : Char) (b : UInt8) (hb : b ∈ String.utf8EncodeChar c) :
    continuesWord b = Piece.continuesWord c :=
  letter_of_mem (eq_false_of_le_toNat toNat_lt_of_continuesWord) hb

section Words

variable {tail : List Char}

theorem run_word (h : s.Reads (before ++ [c]) (tail ++ rest))
    (hstart : s.start = (bytes before).length) (htail : ∀ d ∈ tail, Piece.continuesWord d)
    (hrest : ∀ d ∈ rest.head?, ¬Piece.continuesWord d) :
    word.run s = pure (.token (Piece.wordKind (c :: tail)), s.pass (bytes tail)) := by
  have hskip := h.run_skipAll continuesWord_eq rfl rfl htail hrest
  have hpass : (s.pass (bytes tail)).Reads (before ++ c :: tail) rest := by
    simpa using h.pass
  rw [word, run_bind hskip, run_bind (StateT.run_get _), run_bind (hpass.run_slice hstart),
    String.toList_ofList]
  rfl

/-- What follows the digits of a number that has no fraction. -/
theorem run_fraction_of_stops (h : s.Reads before rest)
    (hrest : ∀ d ∈ rest.tail.head?, rest.head? = some '.' → ¬d.isDigit) :
    fraction.run s = pure ((), s) := by
  have hnot : ¬(s.ahead.headD 0 = code '.' ∧ isDigit (s.ahead.tail.headD 0)) := by
    rintro ⟨hpoint, hdigit⟩
    rw [h.ahead_eq, headD_bytes_eq_iff (by decide) (by decide)] at hpoint
    obtain ⟨behind, rfl⟩ := List.head?_eq_some_iff.1 hpoint
    rw [h.ahead_eq, bytes_cons_of_ascii (by decide), List.tail_cons, headD_bytes rfl isDigit_eq]
      at hdigit
    cases behind with
    | nil => cases hdigit
    | cons d behind => exact hrest d rfl rfl hdigit
  rw [fraction, run_bind (run_peek s), run_bind (run_peekNext s), if_neg hnot]
  rfl

theorem run_fraction {d : Char} (h : s.Reads before ('.' :: (d :: text) ++ rest))
    (htext : ∀ e ∈ d :: text, e.isDigit) (hrest : ∀ e ∈ rest.head?, ¬e.isDigit) :
    fraction.run s = pure ((), s.pass (bytes ('.' :: d :: text))) := by
  have hyes : s.ahead.headD 0 = code '.' ∧ isDigit (s.ahead.tail.headD 0) := by
    rw [h.ahead_eq, headD_bytes_eq_iff (by decide) (by decide), List.cons_append,
      bytes_cons_of_ascii (by decide), List.tail_cons, headD_bytes rfl isDigit_eq]
    exact ⟨rfl, htext d List.mem_cons_self⟩
  have hpass : s.skip 1 = s.pass (bytes ['.']) := s.skip_one_eq_pass (by decide)
  have hpoint : s.Reads before (['.'] ++ (d :: text ++ rest)) := h
  rw [fraction, run_bind (run_peek s), run_bind (run_peekNext s), if_pos hyes,
    run_bind (h.run_advance (by decide)), hpass,
    hpoint.pass.run_skipAll isDigit_eq rfl rfl htext hrest, s.pass_pass]
  rfl

theorem valueOf_eq {kind : Kind} (h : Lexeme.Number kind text) :
    kind = .number (valueOf text) := by
  cases h with
  | whole hdigits =>
    rw [valueOf, List.dropWhile_eq_nil_iff.2 hdigits]
  | @decimal c d digits fraction hdigits hfraction =>
    have hpoint : ∀ e ∈ ('.' :: d :: fraction).head?, ¬e.isDigit := by
      rintro e ⟨⟩
      decide
    obtain ⟨htake, hdrop⟩ := Lexeme.span_append hdigits hpoint
    rw [valueOf, hdrop, htake]
    rfl

theorem run_digits {kind : Kind} (hnumber : Lexeme.Number kind (c :: tail))
    (hstops : kind.Stops (c :: tail) rest) (h : s.Reads (before ++ [c]) (tail ++ rest)) :
    digits.run s = pure ((), s.pass (bytes tail)) := by
  generalize htext : c :: tail = text at hnumber hstops
  cases hnumber with
  | @whole c digits hdigits =>
    obtain ⟨rfl, rfl⟩ := List.cons.inj htext
    obtain ⟨hdigit, hpoint⟩ := hstops
    have hnone : '.' ∉ c :: tail := fun hmem => absurd (hdigits '.' hmem) (by decide)
    have htail := (List.forall_mem_cons.1 hdigits).2
    rw [digits, run_bind (h.run_skipAll isDigit_eq rfl rfl htail hdigit)]
    exact run_fraction_of_stops h.pass (hpoint hnone)
  | @decimal c d digits fraction hdigits hfraction =>
    obtain ⟨rfl, rfl⟩ := List.cons.inj htext
    have htail := (List.forall_mem_cons.1 hdigits).2
    have hwhole : s.Reads (before ++ [c]) (digits ++ ('.' :: (d :: fraction) ++ rest)) := by
      simpa using h
    have hpoint : ∀ e ∈ ('.' :: (d :: fraction) ++ rest).head?, ¬e.isDigit := by
      rintro e ⟨⟩
      decide
    rw [Bytewise.digits, run_bind (hwhole.run_skipAll isDigit_eq rfl rfl htail hpoint),
      run_fraction hwhole.pass hfraction hstops.1, s.pass_pass, ← Source.bytes_append]
    rfl

theorem run_number {kind : Kind} (hnumber : Lexeme.Number kind (c :: tail))
    (hstops : kind.Stops (c :: tail) rest) (h : s.Reads (before ++ [c]) (tail ++ rest))
    (hstart : s.start = (bytes before).length) :
    number.run s = pure (.token kind, s.pass (bytes tail)) := by
  have hpass : (s.pass (bytes tail)).Reads (before ++ c :: tail) rest := by simpa using h.pass
  rw [number, run_bind (run_digits hnumber hstops h), run_bind (StateT.run_get _),
    run_bind (hpass.run_slice hstart), String.toList_ofList, ← valueOf_eq hnumber]
  rfl

end Words

/-! ### Strings and comments -/

section Strings

variable {content : List Char}

theorem run_stringBody_text (h : s.Reads before (content ++ rest)) (hcontent : '"' ∉ content)
    (hrest : ∀ d ∈ rest.head?, d = '"') :
    (stringBody (s.length + 2)).run s = pure ((), s.pass (bytes content)) := by
  rw [run_stringBody (length_takeWhile_lt s _), h.ahead_eq,
    takeWhile_ne_bytes (by decide) hcontent hrest]

theorem run_string (h : s.Reads (before ++ ['"']) (content ++ '"' :: rest))
    (hstart : s.start = (bytes before).length) (hcontent : '"' ∉ content) :
    string.run s =
      pure (.token (.string (String.ofList content)), s.pass (bytes (content ++ ['"']))) := by
  have hbody := run_stringBody_text h hcontent (by simp)
  have hpass := h.pass
  have hquote : (s.pass (bytes content)).skip 1 = s.pass (bytes (content ++ ['"'])) := by
    rw [Source.bytes_append]
    exact s.pass_skip_one (bytes content) (by decide)
  have hslice : (slice (s.start + 1) ((s.pass (bytes (content ++ ['"']))).curr - 1)).run
      (s.pass (bytes (content ++ ['"']))) =
      pure (String.ofList content, s.pass (bytes (content ++ ['"']))) := by
    refine Bytewise.run_slice hpass.source_eq ?_ ?_
    · rw [hstart, Source.bytes_append, List.length_append]
      rfl
    · rw [← hpass.curr_eq, ← hquote]
      rfl
  rw [string, run_bind (run_limit s), run_bind hbody, run_bind (run_isAtEnd _), hpass.ahead_eq,
    bytes_cons_of_ascii (by decide), List.isEmpty_cons, if_neg Bool.false_ne_true,
    run_bind (hpass.run_advance (by decide)), hquote, run_bind (StateT.run_get _)]
  exact run_bind hslice

theorem run_string_open (h : s.Reads before content) (hcontent : '"' ∉ content) :
    string.run s = pure (.fault (s.pass (bytes content)).line .unterminatedString,
      s.pass (bytes content)) := by
  have hreads : s.Reads before (content ++ []) := by rwa [List.append_nil]
  have hbody := run_stringBody_text hreads hcontent nofun
  rw [string, run_bind (run_limit s), run_bind hbody, run_bind (run_isAtEnd _),
    hreads.pass.ahead_eq]
  rfl

end Strings

theorem run_lineComment_text (h : s.Reads before (text ++ rest)) (htext : '\n' ∉ text)
    (hrest : ∀ d ∈ rest.head?, d = '\n') :
    lineComment.run s = pure (.nothing, s.pass (bytes text)) := by
  rw [run_lineComment h.curr_le, h.ahead_eq, takeWhile_ne_bytes (by decide) htext hrest]

/-! ### Block comments -/

/-- What a step finds if it reads the piece and comes to the line. -/
def outcome (line : Nat) : Piece → Outcome
  | .trivia _ => .nothing
  | .token kind _ => .token kind
  | .fault cause _ => .fault line cause

/-- The work reads the rest of a piece, of which `seen` was read before, last character first. -/
def Completes (work : Scan Outcome) (s : Head) (seen : List Char) (p : Piece) : Prop :=
  ∃ text, p.text = seen.reverse ++ text ∧
    work.run s = pure (outcome (s.pass (bytes text)).line p, s.pass (bytes text))

theorem Completes.step {work work' : Scan Outcome} {seen : List Char} {p : Piece} (text : List Char)
    (h : Completes work' (s.pass (bytes text)) (text.reverse ++ seen) p)
    (hrun : work.run s = work'.run (s.pass (bytes text))) : Completes work s seen p := by
  obtain ⟨tail, htext, hwork⟩ := h
  refine ⟨text ++ tail, by simp [htext], ?_⟩
  rw [hrun, hwork, s.pass_pass, Source.bytes_append]

/-- A character that neither opens nor closes a comment is passed. -/
theorem run_blockComment_char {depth fuel : Nat} (h : s.ahead = bytes (c :: rest))
    (hopen : ¬(c = '/' ∧ rest.head? = some '*')) (hclose : ¬(c = '*' ∧ rest.head? = some '/')) :
    (blockComment (depth + 1) (fuel + (bytes [c]).length)).run s =
      (blockComment (depth + 1) fuel).run (s.pass (bytes [c])) := by
  by_cases hc : c.toNat < 128
  · rw [bytes_cons_of_ascii hc] at h
    have hcode {d : Char} (hd : d.toNat < 128) : code c = code d ↔ c = d :=
      eq_code_iff hd (by rw [utf8EncodeChar_of_ascii hc]; exact List.mem_singleton_self _)
    rw [bytes_singleton hc]
    refine run_blockComment_step h ?_ ?_
    · rwa [hcode (by decide), headD_bytes_eq_iff (by decide) (by decide)]
    · rwa [hcode (by decide), headD_bytes_eq_iff (by decide) (by decide)]
  · have hbytes : bytes [c] = String.utf8EncodeChar c := List.append_nil _
    rw [Source.bytes_cons] at h
    rw [hbytes]
    exact run_blockComment_pass h fun b hb =>
      Source.le_toNat_of_mem_utf8EncodeChar hb (Nat.lt_of_succ_le (Nat.le_of_not_lt hc))

theorem exists_fuel {text : List Char} (htext : text ≠ []) (rest : List Char) {fuel : Nat}
    (h : (bytes (text ++ rest)).length < fuel) :
    ∃ fuel', fuel = fuel' + 1 ∧ (bytes rest).length < fuel' := by
  have hpos : 0 < (bytes text).length :=
    List.length_pos_iff.2 fun hnil => htext (Source.bytes_eq_nil_iff.1 hnil)
  rw [Source.bytes_append, List.length_append] at h
  exact ⟨fuel - 1, by omega, by omega⟩

theorem completes_blockComment {depth fuel : Nat} {seen source : List Char}
    (h : s.ahead = bytes source) (hfuel : (bytes source).length < fuel) :
    Completes (blockComment (depth + 1) fuel) s seen (Piece.blockComment depth seen source).1 := by
  fun_induction Piece.blockComment depth seen source generalizing s fuel with
  | case1 depth seen rest ih =>
    obtain ⟨fuel, rfl, hrest⟩ := exists_fuel (List.cons_ne_nil '/' ['*']) rest hfuel
    exact .step ['/', '*'] (ih (s.ahead_pass h) hrest) (run_blockComment_enter h)
  | case2 seen rest =>
    obtain ⟨fuel, rfl, -⟩ := exists_fuel (List.cons_ne_nil '*' ['/']) rest hfuel
    refine ⟨['*', '/'], by simp [Piece.text], ?_⟩
    rw [run_blockComment_leave h, blockComment]
    rfl
  | case3 seen rest outer ih =>
    obtain ⟨fuel, rfl, hrest⟩ := exists_fuel (List.cons_ne_nil '*' ['/']) rest hfuel
    exact .step ['*', '/'] (ih (s.ahead_pass h) hrest) (run_blockComment_leave h)
  | case4 depth seen c rest hopen hclose ih =>
    have hopen' : ¬(c = '/' ∧ rest.head? = some '*') := by
      rintro ⟨hc, hrest⟩
      obtain ⟨tail, rfl⟩ := List.head?_eq_some_iff.1 hrest
      exact hopen tail hc rfl
    have hclose' : ¬(c = '*' ∧ rest.head? = some '/') := by
      rintro ⟨hc, hrest⟩
      obtain ⟨tail, rfl⟩ := List.head?_eq_some_iff.1 hrest
      exact hclose tail hc rfl
    have hbytes : bytes (c :: rest) = bytes [c] ++ bytes rest := Source.bytes_append [c] rest
    rw [hbytes, List.length_append] at hfuel
    obtain ⟨fuel, rfl⟩ : ∃ fuel', fuel = fuel' + (bytes [c]).length :=
      ⟨fuel - (bytes [c]).length, by omega⟩
    exact .step [c] (ih (s.ahead_pass (h.trans hbytes)) (by omega))
      (run_blockComment_char h hopen' hclose')
  | case5 depth seen =>
    obtain ⟨fuel, rfl⟩ := Nat.exists_eq_succ_of_ne_zero (Nat.ne_zero_of_lt hfuel)
    refine ⟨[], by simp [Piece.text], ?_⟩
    rw [blockComment, run_bind (run_isAtEnd s), h]
    rfl

/-! ### Steps -/

theorem Completes.scanToken {p : Piece} (h : s.Reads before (c :: rest)) (hc : c.toNat < 128)
    (hline : c ≠ '\n') (hlexeme : Completes (lexeme c) (s.pass (bytes [c])) [c] p) :
    Completes scanToken s [] p := by
  have hmem : code c ∈ String.utf8EncodeChar c := by
    rw [utf8EncodeChar_of_ascii hc]
    exact List.mem_singleton_self _
  have hne : code c ≠ newline := fun heq => hline ((eq_code_iff (by decide) hmem).1 heq)
  have hpass : s.skip 1 = s.pass (bytes [c]) := by
    rw [bytes_singleton hc, s.skip_one_eq_pass hne]
  refine .step [c] hlexeme ?_
  rw [Bytewise.scanToken, run_bind (h.run_advance hc), letter_code hc, hpass]

theorem ne_newline_of_not_isBlank (h : ¬Piece.isBlank c) : c ≠ '\n' := by
  rintro rfl
  exact h rfl

theorem lexeme_of_startsWord (h : Piece.startsWord c) : lexeme c = word := by
  have hblank := Piece.not_isBlank_of_startsWord h
  have hdigit : ¬c.isDigit := fun hdigit => Piece.not_startsWord_of_isDigit hdigit h
  have hslash : c ≠ '/' := by
    rintro rfl
    cases h
  have hquote : c ≠ '"' := by
    rintro rfl
    cases h
  rw [lexeme, if_neg (ne_newline_of_not_isBlank hblank), if_neg hblank, if_neg hslash,
    if_neg hquote, if_neg hdigit, if_pos h]

theorem lexeme_of_isDigit (h : c.isDigit) : lexeme c = number := by
  have hblank := Piece.not_isBlank_of_isDigit h
  have hslash : c ≠ '/' := by
    rintro rfl
    cases h
  have hquote : c ≠ '"' := by
    rintro rfl
    cases h
  rw [lexeme, if_neg (ne_newline_of_not_isBlank hblank), if_neg hblank, if_neg hslash,
    if_neg hquote, if_pos h]

theorem lexeme_of_symbolOf? {symbol : Symbol} (h : Piece.symbolOf? c = some symbol)
    (hslash : c ≠ '/') : lexeme c = Bytewise.symbol c symbol := by
  obtain ⟨-, hblank, hword, hdigit, hquote⟩ := Piece.symbolOf?_spec h
  rw [lexeme, if_neg (ne_newline_of_not_isBlank hblank), if_neg hblank, if_neg hslash,
    if_neg hquote, if_neg hdigit, if_neg hword, h]

theorem lexeme_of_none (h : Piece.symbolOf? c = none) (hblank : ¬Piece.isBlank c)
    (hword : ¬Piece.startsWord c) (hdigit : ¬c.isDigit) (hquote : c ≠ '"') :
    lexeme c = unexpected := by
  have hslash : c ≠ '/' := by
    rintro rfl
    cases h
  rw [lexeme, if_neg (ne_newline_of_not_isBlank hblank), if_neg hblank, if_neg hslash,
    if_neg hquote, if_neg hdigit, if_neg hword, h]

theorem toNat_lt_of_symbolOf? {symbol : Symbol} (h : Piece.symbolOf? c = some symbol) :
    c.toNat < 128 := by
  unfold Piece.symbolOf? at h
  split at h
  all_goals first
    | decide
    | cases h

/-! ### Symbols -/

theorem run_symbol {alone : Symbol} (h : s.Reads before rest)
    (hequal : ∀ s', Piece.symbolWithEqual? c = some s' → rest.head? ≠ some '=') :
    (symbol c alone).run s = pure (.token (.symbol alone), s) := by
  rw [symbol]
  cases hc : Piece.symbolWithEqual? c with
  | none => rfl
  | some withEqual =>
    exact run_bind (h.run_matchByte_of_ne (by decide) (hequal withEqual hc))

theorem run_symbol_equal {alone withEqual : Symbol} (h : s.Reads before ('=' :: rest))
    (hc : Piece.symbolWithEqual? c = some withEqual) :
    (symbol c alone).run s = pure (.token (.symbol withEqual), s.pass (bytes ['='])) := by
  rw [symbol, hc]
  exact run_bind (h.run_matchByte (by decide) (by decide))

theorem run_slash_line (h : s.Reads before ('/' :: text ++ rest)) (htext : '\n' ∉ text)
    (hrest : ∀ d ∈ rest.head?, d = '\n') :
    slash.run s = pure (.nothing, s.pass (bytes ('/' :: text))) := by
  have hslash : s.Reads before (['/'] ++ (text ++ rest)) := h
  rw [slash, run_bind (h.run_matchByte (by decide) (by decide)), if_pos rfl,
    run_lineComment_text hslash.pass htext hrest, s.pass_pass]
  rfl

theorem completes_slash_block (h : s.Reads before ('*' :: text)) :
    Completes slash s ['/'] (Piece.blockComment 0 ['*', '/'] text).1 := by
  have hstar : s.Reads before (['*'] ++ text) := h
  have hfuel : (bytes text).length < s.length + 2 :=
    Nat.lt_add_right 1 (Nat.lt_succ_of_le hstar.pass.length_bytes_le)
  have hline : ('*' :: text).head? ≠ some '/' := by
    rw [List.head?_cons]
    decide
  refine .step ['*'] (completes_blockComment hstar.pass.ahead_eq hfuel) ?_
  rw [slash, run_bind (h.run_matchByte_of_ne (by decide) hline), if_neg Bool.false_ne_true,
    run_bind (h.run_matchByte (by decide) (by decide)), if_pos rfl, run_bind (run_limit _)]
  rfl

theorem run_slash (h : s.Reads before rest) (hline : rest.head? ≠ some '/')
    (hblock : rest.head? ≠ some '*') : slash.run s = pure (.token (.symbol .slash), s) := by
  rw [slash, run_bind (h.run_matchByte_of_ne (by decide) hline), if_neg Bool.false_ne_true,
    run_bind (h.run_matchByte_of_ne (by decide) hblock), if_neg Bool.false_ne_true]
  rfl

/-! ### Unexpected characters -/

theorem takeWhile_isContinuation {tail : List UInt8} (h : ∀ b ∈ tail, isContinuation b)
    (rest : List Char) : (tail ++ bytes rest).takeWhile isContinuation = tail := by
  have hrest : (bytes rest).takeWhile isContinuation = [] := by
    cases rest with
    | nil => rfl
    | cons c rest =>
      obtain ⟨b, tail, heq, hb, -⟩ := exists_utf8EncodeChar_eq c
      rw [Source.bytes_cons, heq]
      exact List.takeWhile_cons_of_neg hb
  rw [List.takeWhile_append_of_pos h, hrest, List.append_nil]

theorem toNat_lt_of_isBlank (c : Char) (h : Piece.isBlank c) : c.toNat < 128 := by
  have := Piece.toNat_of_isBlank h
  omega

/-- The first byte of a character begins a lexeme just if the character does. -/
theorem lexeme_letter {b : UInt8} (hb : b ∈ String.utf8EncodeChar c)
    (hsymbol : Piece.symbolOf? c = none) (hblank : ¬Piece.isBlank c) (hword : ¬Piece.startsWord c)
    (hdigit : ¬c.isDigit) (hquote : c ≠ '"') : lexeme (letter b) = unexpected := by
  have hnone : ∀ d : Char, 128 ≤ d.toNat → Piece.symbolOf? d = none := fun d hd =>
    Option.eq_none_iff_forall_ne_some.2 fun s hs =>
      absurd (toNat_lt_of_symbolOf? hs) (Nat.not_lt.2 hd)
  have hne : ∀ d : Char, 128 ≤ d.toNat → (d == '"') = false :=
    eq_false_of_le_toNat fun d hd => by
      obtain rfl := beq_iff_eq.1 hd
      decide
  refine lexeme_of_none ?_ ?_ ?_ ?_ ?_
  · rwa [letter_of_mem hnone hb]
  · rwa [letter_of_mem (eq_false_of_le_toNat toNat_lt_of_isBlank) hb]
  · rwa [letter_of_mem (eq_false_of_le_toNat toNat_lt_of_startsWord) hb]
  · rwa [letter_of_mem (eq_false_of_le_toNat toNat_lt_of_isDigit) hb]
  · rw [ne_eq, ← beq_iff_eq, letter_of_mem hne hb, beq_iff_eq]
    exact hquote

theorem completes_unexpected (h : s.Reads before (c :: rest))
    (hstart : s.start = (bytes before).length) (hsymbol : Piece.symbolOf? c = none)
    (hblank : ¬Piece.isBlank c) (hword : ¬Piece.startsWord c) (hdigit : ¬c.isDigit)
    (hquote : c ≠ '"') : Completes scanToken s [] (.fault .unexpectedCharacter [c]) := by
  obtain ⟨b, tail, heq, -, htail⟩ := exists_utf8EncodeChar_eq c
  have hb : b ∈ String.utf8EncodeChar c := heq ▸ List.mem_cons_self
  have hbytes : bytes [c] = b :: tail := (List.append_nil _).trans heq
  have hahead : s.ahead = [b] ++ (tail ++ bytes rest) := by
    rw [h.ahead_eq, Source.bytes_cons, heq]
    rfl
  have hne : b ≠ newline := fun hb' =>
    ne_newline_of_not_isBlank hblank ((eq_code_iff (by decide) hb).1 hb')
  have hskip : (skipAll isContinuation).run (s.pass [b]) = pure ((), s.pass (bytes [c])) := by
    rw [run_skipAll rfl rfl, s.ahead_pass hahead, takeWhile_isContinuation htail, s.pass_pass,
      hbytes]
    rfl
  have hreads : s.Reads before ([c] ++ rest) := h
  have hpass := hreads.pass
  refine ⟨[c], rfl, ?_⟩
  rw [scanToken, run_bind (run_advance hahead), s.skip_one_eq_pass hne,
    lexeme_letter hb hsymbol hblank hword hdigit hquote, unexpected, run_bind hskip,
    run_bind (StateT.run_get _), run_bind (hpass.run_slice hstart)]
  rfl

/-! ### What a step finds -/

theorem not_continuesWord_of_stops {word : List Char}
    (h : (Piece.wordKind word).Stops text rest) : ∀ d ∈ rest.head?, ¬Piece.continuesWord d := by
  unfold Piece.wordKind at h
  split at h <;> exact h

theorem completes_token {kind : Kind} (hlexeme : Lexeme kind text) (hstops : kind.Stops text rest)
    (h : s.Reads before (text ++ rest)) (hstart : s.start = (bytes before).length) :
    Completes scanToken s [] (.token kind text) := by
  obtain ⟨c, tail, rfl, hcase⟩ := hlexeme.starts
  have hreads : s.Reads before ([c] ++ (tail ++ rest)) := h
  have hpass := hreads.pass
  obtain ⟨sym, rfl, hsymbol⟩ | ⟨hc, htail, rfl⟩ | ⟨hc, hnumber⟩ |
    ⟨rfl, content, hcontent, rfl, rfl⟩ := hcase
  · obtain ⟨hc, rfl⟩ | ⟨hc, rfl⟩ := hsymbol
    · obtain ⟨-, hblank, -⟩ := Piece.symbolOf?_spec hc
      refine .scanToken h (toNat_lt_of_symbolOf? hc) (ne_newline_of_not_isBlank hblank)
        ⟨[], rfl, ?_⟩
      by_cases hslash : c = '/'
      · subst hslash
        obtain rfl : Symbol.slash = sym := Option.some.inj hc
        exact run_slash hpass (hstops.2 rfl).1 (hstops.2 rfl).2
      · rw [lexeme_of_symbolOf? hc hslash]
        exact run_symbol hpass fun s' hs' => hstops.1 c s' rfl hs'
    · obtain ⟨-, hsome, hslash⟩ := Piece.symbolWithEqual?_spec hc
      obtain ⟨alone, halone⟩ := Option.isSome_iff_exists.1 hsome
      obtain ⟨-, hblank, -⟩ := Piece.symbolOf?_spec halone
      refine .scanToken h (toNat_lt_of_symbolOf? halone) (ne_newline_of_not_isBlank hblank)
        ⟨['='], rfl, ?_⟩
      rw [lexeme_of_symbolOf? halone hslash]
      exact run_symbol_equal hpass hc
  · refine .scanToken h (toNat_lt_of_startsWord c hc)
      (ne_newline_of_not_isBlank (Piece.not_isBlank_of_startsWord hc)) ⟨tail, rfl, ?_⟩
    rw [lexeme_of_startsWord hc]
    exact run_word hpass hstart htail (not_continuesWord_of_stops hstops)
  · refine .scanToken h (toNat_lt_of_isDigit c hc)
      (ne_newline_of_not_isBlank (Piece.not_isBlank_of_isDigit hc)) ⟨tail, rfl, ?_⟩
    rw [lexeme_of_isDigit hc]
    exact run_number hnumber hstops hpass hstart
  · refine .scanToken h (by decide) (by decide) ⟨content ++ ['"'], rfl, ?_⟩
    have hstring : (s.pass (bytes ['"'])).Reads (before ++ ['"']) (content ++ '"' :: rest) := by
      simpa using hpass
    exact run_string hstring hstart hcontent

/-- What fits at the place of the scanner is found by a step. -/
theorem completes_scanToken {p : Piece} (hp : p.Fits rest) (h : s.Reads before (p.text ++ rest))
    (hstart : s.start = (bytes before).length) : Completes scanToken s [] p := by
  have hfirst {c : Char} {tail : List Char} (htext : p.text ++ rest = c :: tail) :
      Piece.first c tail = (p, rest) := Piece.first_eq_iff.2 ⟨hp, htext⟩
  cases hp with
  | @blank c _ hblank =>
    by_cases hc : c = '\n'
    · subst hc
      refine ⟨['\n'], rfl, ?_⟩
      rw [scanToken, run_bind (h.run_advance (by decide))]
      rfl
    · have hlexeme : lexeme c = pure .nothing := by rw [lexeme, if_neg hc, if_pos hblank]
      refine .scanToken h (toNat_lt_of_isBlank c hblank) hc ⟨[], rfl, ?_⟩
      rw [hlexeme]
      rfl
  | @lineComment content _ hcontent hrest =>
    have hslash : s.Reads before (['/'] ++ ('/' :: content ++ rest)) := h
    exact .scanToken h (by decide) (by decide)
      ⟨'/' :: content, rfl, run_slash_line hslash.pass hcontent hrest⟩
  | @blockComment body _ hbody =>
    have hslash : s.Reads before (['/'] ++ ('*' :: (body ++ rest))) := h
    have hcomment := completes_slash_block hslash.pass
    have heq : Piece.first '/' ('*' :: (body ++ rest)) = _ := hfirst rfl
    rw [← Piece.first_blockComment, heq] at hcomment
    exact .scanToken h (by decide) (by decide) hcomment
  | token hlexeme hcomment hlongest =>
    exact completes_token hlexeme (hlexeme.stops_of_longest hcomment hlongest) h hstart
  | unexpected hblank hnone =>
    obtain ⟨hsymbol, hword, hdigit, hquote⟩ := Piece.starts_nothing hnone
    exact completes_unexpected h hstart hsymbol hblank hword hdigit hquote
  | @openString content hcontent =>
    have hquote : s.Reads before (['"'] ++ content) := by simpa [Piece.text] using h
    exact .scanToken hquote (by decide) (by decide)
      ⟨content, rfl, run_string_open hquote.pass hcontent⟩
  | @openComment body hopen =>
    have hslash : s.Reads before (['/'] ++ ('*' :: body)) := by simpa [Piece.text] using h
    have hcomment := completes_slash_block hslash.pass
    rw [← Piece.first_blockComment, hfirst (List.append_nil _)] at hcomment
    exact .scanToken hslash (by decide) (by decide) hcomment

/-! ### Items -/

/-- The next item is the one that the piece ahead becomes, if it becomes one. -/
theorem run_next {p : Piece} (fuel : Nat) (hp : p.Fits rest)
    (h : s.Reads before (p.text ++ rest)) :
    ∃ s' : Head, s'.Reads (before ++ p.text) rest ∧ s'.line = s.line + p.newlines ∧
      (next (fuel + 1)).run s =
        match p.item? s'.line with
        | some item => pure (some item, s')
        | none => (next fuel).run s' := by
  have hlt : s.curr < s.length := by
    refine Nat.lt_of_not_le fun hle => hp.ne_nil ?_
    have hnil := s.ahead_eq_nil_iff.2 hle
    rw [h.ahead_eq, Source.bytes_eq_nil_iff] at hnil
    exact (List.append_eq_nil_iff.1 hnil).1
  have hstart : ({ s with start := s.curr } : Head).Reads before (p.text ++ rest) :=
    ⟨h.source_eq, h.curr_eq⟩
  obtain ⟨text, htext, hrun⟩ := completes_scanToken hp hstart h.curr_eq
  obtain rfl : p.text = text := by simpa using htext
  have hpass := hstart.pass
  refine ⟨_, hpass, ?_, ?_⟩
  · rw [Piece.newlines, ← Source.count_newline_bytes]
    rfl
  · rw [next, run_bind (StateT.run_get s), if_neg (by omega), if_neg (by omega),
      run_bind (StateT.run_modify _ _), run_bind hrun]
    cases p with
    | trivia text => rfl
    | fault cause text => rfl
    | token kind text =>
      have hslice := hpass.run_slice h.curr_eq
      exact (run_bind (StateT.run_get _)).trans (run_bind hslice)

/-- A source has no more pieces than bytes. -/
theorem length_split_le (source : List Char) :
    (Piece.split source).length ≤ (bytes source).length := by
  induction source using Piece.split_induction with
  | nil => exact Nat.le_refl 0
  | cons p rest hp ih =>
    have hpos : 0 < (bytes p.text).length :=
      List.length_pos_iff.2 fun hnil => hp.ne_nil (Source.bytes_eq_nil_iff.1 hnil)
    rw [Source.bytes_append, List.length_append, List.length_cons]
    omega

theorem Head.Reads.length_split_le (h : s.Reads before behind) :
    (Piece.split behind).length ≤ s.length :=
  (Bytewise.length_split_le behind).trans h.length_bytes_le

/-- The items that are left, where the next one is found after less than `fuel` steps. -/
def drainNext (fuel rounds : Nat) : Scan (List Item) := do
  match ← next fuel with
  | none => return []
  | some item => return item :: (← drain rounds)

theorem run_drainNext {source : List Char} {fuel rounds : Nat} (h : s.Reads before source)
    (hfuel : (Piece.split source).length < fuel) (hrounds : (Piece.split source).length < rounds) :
    ∃ s', (drainNext fuel rounds).run s =
      pure (Piece.items s.line (Piece.split source), s') := by
  induction source using Piece.split_induction generalizing s before fuel rounds with
  | nil =>
    obtain ⟨fuel, rfl⟩ := Nat.exists_eq_succ_of_ne_zero (Nat.ne_zero_of_lt hfuel)
    obtain ⟨rounds, rfl⟩ := Nat.exists_eq_succ_of_ne_zero (Nat.ne_zero_of_lt hrounds)
    have hend : s.curr = s.length := by
      have hle := s.ahead_eq_nil_iff.1 h.ahead_eq
      have hge := h.curr_le
      omega
    have hnext : (next (fuel + 1)).run s =
        pure (some (.token ⟨.endOfInput, "", s.line⟩), s.skip 1) := by
      rw [next, run_bind (StateT.run_get s), if_neg (by omega), if_pos hend]
      rfl
    have hover : (s.skip 1).length < (s.skip 1).curr := Nat.lt_succ_of_le (Nat.le_of_eq hend.symm)
    have hnone : (next ((s.skip 1).length + 2)).run (s.skip 1) = pure (none, s.skip 1) := by
      rw [next, run_bind (StateT.run_get _), if_pos hover]
      rfl
    have hdrain : (drain (rounds + 1)).run (s.skip 1) = pure ([], s.skip 1) :=
      (run_bind (run_limit _)).trans (run_bind hnone)
    exact ⟨s.skip 1, (run_bind hnext).trans (run_bind hdrain)⟩
  | cons p rest hp ih =>
    obtain ⟨fuel, rfl⟩ := Nat.exists_eq_succ_of_ne_zero (Nat.ne_zero_of_lt hfuel)
    obtain ⟨rounds, rfl⟩ := Nat.exists_eq_succ_of_ne_zero (Nat.ne_zero_of_lt hrounds)
    rw [List.length_cons] at hfuel hrounds
    obtain ⟨s', hs', hline, hrun⟩ := run_next fuel hp h
    rw [Piece.items, ← hline]
    cases hitem : p.item? s'.line with
    | none =>
      rw [hitem] at hrun
      have hnext : (next (fuel + 1)).run s = (next fuel).run s' := hrun
      obtain ⟨last, hlast⟩ := ih hs' (Nat.lt_of_succ_lt_succ hfuel) (Nat.lt_of_succ_lt hrounds)
      have hdrain : (drainNext (fuel + 1) (rounds + 1)).run s =
          (drainNext fuel (rounds + 1)).run s' := by
        rw [drainNext, drainNext, StateT.run_bind, hnext, StateT.run_bind]
      exact ⟨last, hdrain.trans hlast⟩
    | some item =>
      rw [hitem] at hrun
      have hlimit : (Piece.split rest).length < s'.length + 2 := by
        have := hs'.length_split_le
        omega
      obtain ⟨last, hlast⟩ := ih hs' hlimit (Nat.lt_of_succ_lt_succ hrounds)
      have hdrain : (drain (rounds + 1)).run s' = _ := (run_bind (run_limit s')).trans hlast
      exact ⟨last, (run_bind hrun).trans (run_bind hdrain)⟩

/-- **Scanning stays inside the source.** Scanning byte by byte does not break off, whatever the
source: no byte is read outside, and each text that is cut out begins and ends on a character
boundary. It gives the items of the source. -/
theorem scan_eq_items (source : String) : scan source = .ok (Source.items source) := by
  have hstart : (Head.at source).Reads [] source.toList := ⟨String.ofList_toList.symm, rfl⟩
  have hfuel : (Piece.split source.toList).length < (Head.at source).length + 1 :=
    Nat.lt_succ_of_le hstart.length_split_le
  obtain ⟨last, hlast⟩ := run_drainNext hstart (Nat.lt_succ_of_lt hfuel) hfuel
  have hdrain : (do drain (← limit) : Scan (List Item)).run (.at source) = _ :=
    (run_bind (run_limit _)).trans ((run_bind (run_limit _)).trans hlast)
  rw [scan, StateT.run'_eq, hdrain]
  rfl

example : scan "é\"∀" = .ok [.fault 1 .unexpectedCharacter, .fault 1 .unterminatedString,
    .token ⟨.endOfInput, "", 1⟩] := by cbv

end Bytewise

end Treewalk
