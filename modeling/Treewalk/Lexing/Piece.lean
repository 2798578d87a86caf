import Treewalk.Diagnostic
import Treewalk.Number.Double
import Treewalk.Token.Basic

/-!
# Splitting a source text into pieces

A source text is cut from left to right into pieces: blanks and comments, tokens, and faults. The
pieces are never empty and nothing is lost between them, so their texts put together are the source
again.

## Main definitions

* `Piece` — a stretch of the source and what it is
* `Piece.first` — the piece at the start of a non-empty source, and the rest
* `Piece.split` — all pieces

## Main results

* `Piece.first_tiles`, `Piece.first_ne_nil` — the first piece is not empty and the rest follows it
* `Piece.flatten_split` — the texts of the pieces put together are the source
-/

namespace Treewalk

/-- A stretch of the source: skipped, read as a token, or at fault. -/
inductive Piece
  | trivia (text : List Char)
  | token (kind : Kind) (text : List Char)
  | fault (cause : LexicalFault) (text : List Char)
deriving DecidableEq

namespace Piece

def text : Piece → List Char
  | trivia text => text
  | token _ text => text
  | fault _ text => text

/-! ### Character classes -/

def isBlank (c : Char) : Bool := c == ' ' || c == '\t' || c == '\r' || c == '\n'

/-- A letter of the ASCII alphabet or an underscore. -/
def startsWord (c : Char) : Bool := c.isAlpha || c == '_'

def continuesWord (c : Char) : Bool := c.isAlphanum || c == '_'

/-- The symbol a single character spells. -/
def symbolOf? : Char → Option Symbol
  | '(' => some .leftParen
  | ')' => some .rightParen
  | '\x7b' => some .leftBrace
  | '\x7d' => some .rightBrace
  | ',' => some .comma
  | '.' => some .dot
  | '-' => some .minus
  | '+' => some .plus
  | ';' => some .semicolon
  | '/' => some .slash
  | '*' => some .star
  | '!' => some .bang
  | '=' => some .equal
  | '>' => some .greater
  | '<' => some .less
  | _ => none

/-- The symbol a character spells together with an equals sign behind it. -/
def symbolWithEqual? : Char → Option Symbol
  | '!' => some .bangEqual
  | '=' => some .equalEqual
  | '>' => some .greaterEqual
  | '<' => some .lessEqual
  | _ => none

/-! ### Words, numbers, strings and comments -/

/-- A word is a keyword if it is spelled like one, and an identifier otherwise. -/
def wordKind (word : List Char) : Kind :=
  match Keyword.all.find? (·.spelling.toList == word) with
  | some keyword => .keyword keyword
  | none => .identifier

/-- The value of the digits before and behind a decimal point. -/
def numberValue (whole fraction : List Char) : Float :=
  Number.nearest (Nat.ofDigitChars 10 (whole ++ fraction) 0) (Nat.pow 10 fraction.length)

/-- A number is a run of digits, which a point and a second run may follow. A point that no digit
follows is not part of it. -/
def number (source : List Char) : Piece × List Char :=
  let whole := source.takeWhile Char.isDigit
  match source.dropWhile Char.isDigit with
  | '.' :: rest =>
    let fraction := rest.takeWhile Char.isDigit
    if fraction.isEmpty then (token (.number (numberValue whole [])) whole, '.' :: rest)
    else
      (token (.number (numberValue whole fraction)) (whole ++ '.' :: fraction),
        rest.dropWhile Char.isDigit)
  | rest => (token (.number (numberValue whole [])) whole, rest)

/-- A string, read from behind its opening quote, ends at the next quote. -/
def string (body : List Char) : Piece × List Char :=
  let content := body.takeWhile (· != '"')
  match body.dropWhile (· != '"') with
  | _ :: rest => (token (.string (String.ofList content)) ('"' :: content ++ ['"']), rest)
  | [] => (fault .unterminatedString ('"' :: content), [])

/-- A line comment reaches up to the end of the line. -/
def lineComment (source : List Char) : Piece × List Char :=
  (trivia (source.takeWhile (· != '\n')), source.dropWhile (· != '\n'))

/-- The inside of a block comment, from where `depth + 1` comments are open: `seen` is what was read
before, last character first. -/
def blockComment (depth : Nat) (seen : List Char) : List Char → Piece × List Char
  | '/' :: '*' :: rest => blockComment (depth + 1) ('*' :: '/' :: seen) rest
  | '*' :: '/' :: rest =>
    match depth with
    | 0 => (trivia ('/' :: '*' :: seen).reverse, rest)
    | outer + 1 => blockComment outer ('/' :: '*' :: seen) rest
  | c :: rest => blockComment depth (c :: seen) rest
  | [] => (fault .unterminatedComment seen.reverse, [])

/-- A single character that is a symbol by itself, or no start of any token. -/
def single (c : Char) (rest : List Char) : Piece × List Char :=
  match symbolOf? c with
  | some symbol => (token (.symbol symbol) [c], rest)
  | none => (fault .unexpectedCharacter [c], rest)

/-- The piece at the start of the source `c :: rest`, and the source behind it. -/
def first (c : Char) (rest : List Char) : Piece × List Char :=
  if isBlank c then (trivia [c], rest)
  else if startsWord c then
    let word := c :: rest.takeWhile continuesWord
    (token (wordKind word) word, rest.dropWhile continuesWord)
  else if c.isDigit then number (c :: rest)
  else if c = '"' then string rest
  else match c, rest with
    | '/', '/' :: _ => lineComment (c :: rest)
    | '/', '*' :: body => blockComment 0 ['*', '/'] body
    | c, '=' :: behind =>
      match symbolWithEqual? c with
      | some symbol => (token (.symbol symbol) [c, '='], behind)
      | none => single c rest
    | c, rest => single c rest

/-! ### Nothing is lost -/

theorem number_tiles (source : List Char) :
    (number source).1.text ++ (number source).2 = source := by
  rw [number]
  split
  · rename_i rest h
    have hs := List.takeWhile_append_dropWhile (p := Char.isDigit) (l := source)
    rw [h] at hs
    have hr := List.takeWhile_append_dropWhile (p := Char.isDigit) (l := rest)
    dsimp only
    split
    · simpa [text] using hs
    · simp only [text, List.append_assoc, List.cons_append, hr]
      exact hs
  · simp [text, List.takeWhile_append_dropWhile]

theorem string_tiles (body : List Char) :
    (string body).1.text ++ (string body).2 = '"' :: body := by
  have hs := List.takeWhile_append_dropWhile (p := (· != '"')) (l := body)
  rw [string]
  split
  · rename_i c rest h
    have hc := List.head?_dropWhile_not (· != '"') body
    rw [h] at hs hc
    simp at hc
    subst hc
    simp [text, hs]
  · rename_i h
    rw [h] at hs
    simpa [text] using hs

theorem blockComment_tiles (depth : Nat) (seen source : List Char) :
    (blockComment depth seen source).1.text ++ (blockComment depth seen source).2 =
      seen.reverse ++ source := by
  fun_induction blockComment depth seen source <;> simp_all [text]

theorem single_tiles (c : Char) (rest : List Char) :
    (single c rest).1.text ++ (single c rest).2 = c :: rest := by
  rw [single]
  split <;> simp [text]

/-- The first piece and the rest put together are the source. -/
theorem first_tiles (c : Char) (rest : List Char) :
    (first c rest).1.text ++ (first c rest).2 = c :: rest := by
  rw [first.eq_def]
  split
  · simp [text]
  split
  · simp [text, List.takeWhile_append_dropWhile]
  split
  · exact number_tiles _
  split
  · rename_i h
    rw [string_tiles, h]
  split
  · simp [lineComment, text, List.takeWhile_append_dropWhile]
  · simp [blockComment_tiles]
  · split
    · simp [text]
    · exact single_tiles _ _
  · exact single_tiles _ _

theorem blockComment_ne_nil (depth : Nat) {seen : List Char} (h : seen ≠ []) (source : List Char) :
    (blockComment depth seen source).1.text ≠ [] := by
  fun_induction blockComment depth seen source <;> simp_all [text]

/-- No piece is empty. -/
theorem first_ne_nil (c : Char) (rest : List Char) : (first c rest).1.text ≠ [] := by
  rw [first.eq_def]
  split
  · simp [text]
  split
  · simp [text]
  split
  · rename_i h
    rw [number]
    split
    · dsimp only
      split <;> simp [text, h]
    · simp [text, h]
  split
  · rw [string]
    split <;> simp [text]
  split
  · simp [lineComment, text]
  · exact blockComment_ne_nil 0 (by simp) _
  · split
    · simp [text]
    · rw [single]; split <;> simp [text]
  · rw [single]; split <;> simp [text]

theorem length_first_lt (c : Char) (rest : List Char) :
    (first c rest).2.length < (c :: rest).length := by
  have h := congrArg List.length (first_tiles c rest)
  have hn := List.length_pos_iff.2 (first_ne_nil c rest)
  simp only [List.length_append] at h
  omega

/-! ### All pieces -/

/-- The pieces of a source, behind those already `done`, last piece first. -/
def splitOnto (done : List Piece) : List Char → List Piece
  | [] => done.reverse
  | c :: rest => splitOnto ((first c rest).1 :: done) (first c rest).2
termination_by source => source.length
decreasing_by exact length_first_lt c rest

/-- The pieces of a source, in order. -/
def split (source : List Char) : List Piece := splitOnto [] source

theorem splitOnto_eq (done : List Piece) (source : List Char) :
    splitOnto done source = done.reverse ++ split source := by
  induction h : source.length using Nat.strongRecOn generalizing done source with
  | ind n ih =>
    cases source with
    | nil => simp [split, splitOnto]
    | cons c rest =>
      have hlt := h ▸ length_first_lt c rest
      rw [split, splitOnto, splitOnto, ih _ hlt _ _ rfl, ih _ hlt [_] _ rfl]
      simp

@[simp] theorem split_nil : split [] = [] := by simp [split, splitOnto]

theorem split_cons (c : Char) (rest : List Char) :
    split (c :: rest) = (first c rest).1 :: split (first c rest).2 := by
  rw [split, splitOnto, splitOnto_eq]
  simp

/-- The texts of the pieces put together are the source. -/
theorem flatten_split (source : List Char) : (split source).flatMap text = source := by
  induction h : source.length using Nat.strongRecOn generalizing source with
  | ind n ih =>
    cases source with
    | nil => simp
    | cons c rest =>
      rw [split_cons, List.flatMap_cons, ih _ (h ▸ length_first_lt c rest) _ rfl, first_tiles]

end Piece

end Treewalk
