import Treewalk.Proofs.Lexing.Lines

/-!
# Scanning byte by byte

A scanner over the bytes of a source text. It moves byte by byte, also where a character has several
of them, and cuts the texts of tokens out of the source by the positions it has come to. Each time
it reads a byte or cuts out a text it is checked that the positions allow it, and scanning breaks
off if they do not.

## Main definitions

* `Bytewise.Halt` — why scanning breaks off
* `Bytewise.Head` — where the scanner is
* `Bytewise.advance`, `Bytewise.peek`, `Bytewise.slice` — the ways in which it gets at the source
* `Bytewise.scanToken` — one step, from one piece of the source to the next
* `Bytewise.scan` — the items of a source

## Implementation notes

A loop breaks off with `Halt.exhausted` when it has gone round more often than the source has bytes.
That is kept apart from what is wrong with positions.
-/

namespace Treewalk

namespace Bytewise

/-! ### Reading the source -/

/-- Why scanning breaks off: a byte is read that the source does not have, a part of the source is
cut out that does not begin and end on character boundaries, in this order, or a loop goes on for
too long. -/
inductive Halt
  | outOfBounds (index : Nat)
  | badSlice (start stop : Nat)
  | exhausted
deriving DecidableEq, Repr

/-- Where the scanner is: the current lexeme begins at the byte `start`, and the bytes before `curr`
have been read. -/
structure Head where
  source : String
  start : Nat
  curr : Nat
  line : Nat

/-- The place before the first byte. -/
def Head.at (source : String) : Head := ⟨source, 0, 0, 1⟩

def Head.length (s : Head) : Nat := s.source.utf8ByteSize

abbrev Scan := StateT Head (Except Halt)

def byteAt (index : Nat) : Scan UInt8 := do
  match (← get).source.toByteArray[index]? with
  | some b => return b
  | none => throw (.outOfBounds index)

/-- The part of the source from the byte `start` up to the byte `stop`. -/
def slice (start stop : Nat) : Scan String := do
  let source := (← get).source
  if h : start ≤ stop ∧ (⟨start⟩ : String.Pos.Raw).IsValid source ∧
      (⟨stop⟩ : String.Pos.Raw).IsValid source then
    return source.extract (source.pos ⟨start⟩ h.2.1) (source.pos ⟨stop⟩ h.2.2)
  else
    throw (.badSlice start stop)

/-- The bytes from `start` on. -/
def bytesFrom (start : Nat) : Scan (List UInt8) := do
  let s ← get
  if start ≤ s.length then
    return s.source.toByteArray.data.toList.drop start
  else
    throw (.badSlice start s.length)

def isAtEnd : Scan Bool := do
  let s ← get
  return s.length ≤ s.curr

/-- Reads a byte and goes on to the next. -/
def advance : Scan UInt8 := do
  let b ← byteAt (← get).curr
  modify fun s => { s with curr := s.curr + 1 }
  return b

/-- The byte ahead, or zero at the end. -/
def peek : Scan UInt8 := do
  if ← isAtEnd then return 0
  byteAt (← get).curr

/-- The byte behind the one ahead, or zero. -/
def peekNext : Scan UInt8 := do
  let s ← get
  if s.length ≤ s.curr + 1 then return 0
  byteAt (s.curr + 1)

/-- Reads the byte ahead if it is the expected one. -/
def matchByte (expected : UInt8) : Scan Bool := do
  if ← isAtEnd then return false
  if (← peek) = expected then
    let _ ← advance
    return true
  return false

def newLine : Scan Unit := modify fun s => { s with line := s.line + 1 }

/-- A bound for the rounds of a loop. -/
def limit : Scan Nat := return (← get).length + 2

/-- Goes on while the bytes ahead satisfy `p`, for less than `fuel` rounds. -/
def skipWhile (p : UInt8 → Bool) : Nat → Scan Unit
  | 0 => throw .exhausted
  | fuel + 1 => do
    if p (← peek) then
      let _ ← advance
      skipWhile p fuel

def skipAll (p : UInt8 → Bool) : Scan Unit := do skipWhile p (← limit)

/-! ### Lexemes -/

/-- The character that a byte is by itself, in ASCII. -/
def letter (b : UInt8) : Char := Char.ofNat b.toNat

/-- The byte of an ASCII character. -/
def code (c : Char) : UInt8 := UInt8.ofNat c.toNat

/-- A byte inside a character, behind its first one. -/
def isContinuation (b : UInt8) : Bool := b &&& 0xC0 == 0x80

/-- What a step finds: nothing but blanks or a comment, a token, or a fault. -/
inductive Outcome
  | nothing
  | token (kind : Kind)
  | fault (line : Nat) (cause : LexicalFault)

/-- The inside of `depth` block comments, for less than `fuel` rounds. -/
def blockComment : Nat → Nat → Scan Outcome
  | 0, _ => return .nothing
  | _ + 1, 0 => throw .exhausted
  | depth + 1, fuel + 1 => do
    if ← isAtEnd then return .fault (← get).line .unterminatedComment
    let b ← advance
    if b = code '\n' then
      newLine
      blockComment (depth + 1) fuel
    else if b = code '/' ∧ (← peek) = code '*' then
      let _ ← advance
      blockComment (depth + 2) fuel
    else if b = code '*' ∧ (← peek) = code '/' then
      let _ ← advance
      blockComment depth fuel
    else
      blockComment (depth + 1) fuel

/-- The rest of a line. The newline is left. -/
def lineComment : Scan Outcome := do
  let ahead ← bytesFrom (← get).curr
  match ahead.findIdx? (· == code '\n') with
  | some index => modify fun s => { s with curr := s.curr + index }
  | none => modify fun s => { s with curr := s.length }
  return .nothing

/-- Reads a byte, which may be a newline. -/
def advanceCounting : Scan Unit := do
  if (← advance) = code '\n' then newLine

/-- The inside of a string, up to the closing quote, for less than `fuel` rounds. -/
def stringBody : Nat → Scan Unit
  | 0 => throw .exhausted
  | fuel + 1 => do
    if !(← isAtEnd) && (← peek) != code '"' then
      advanceCounting
      stringBody fuel

def string : Scan Outcome := do
  stringBody (← limit)
  if ← isAtEnd then return .fault (← get).line .unterminatedString
  let _ ← advance
  let s ← get
  let content ← slice (s.start + 1) (s.curr - 1)
  return .token (.string content)

/-- The value of a number, from its text. -/
def valueOf (text : List Char) : Float :=
  match text.dropWhile Char.isDigit with
  | '.' :: fraction => Piece.numberValue (text.takeWhile Char.isDigit) fraction
  | _ => Piece.numberValue text []

def isDigit (b : UInt8) : Bool := (letter b).isDigit

/-- A decimal point and the digits behind it, if there are any. -/
def fraction : Scan Unit := do
  if (← peek) = code '.' ∧ isDigit (← peekNext) then
    let _ ← advance
    skipAll isDigit

def digits : Scan Unit := do
  skipAll isDigit
  fraction

def number : Scan Outcome := do
  digits
  let s ← get
  let text ← slice s.start s.curr
  return .token (.number (valueOf text.toList))

def continuesWord (b : UInt8) : Bool := Piece.continuesWord (letter b)

def word : Scan Outcome := do
  skipAll continuesWord
  let s ← get
  let text ← slice s.start s.curr
  return .token (Piece.wordKind text.toList)

/-- A character that begins no lexeme is skipped with all its bytes. -/
def unexpected : Scan Outcome := do
  skipAll isContinuation
  let s ← get
  let _ ← slice s.start s.curr
  return .fault s.line .unexpectedCharacter

/-- A symbol that begins with the character `c`, which has been read. -/
def symbol (c : Char) (alone : Symbol) : Scan Outcome := do
  match Piece.symbolWithEqual? c with
  | some withEqual =>
    if ← matchByte (code '=') then return .token (.symbol withEqual)
    return .token (.symbol alone)
  | none => return .token (.symbol alone)

def slash : Scan Outcome := do
  if ← matchByte (code '/') then lineComment
  else if ← matchByte (code '*') then blockComment 1 (← limit)
  else return .token (.symbol .slash)

/-- What begins with the character `c`, which has been read. -/
def lexeme (c : Char) : Scan Outcome :=
  if c = '\n' then do
    newLine
    return .nothing
  else if Piece.isBlank c then return .nothing
  else if c = '/' then slash
  else if c = '"' then string
  else if c.isDigit then number
  else if Piece.startsWord c then word
  else
    match Piece.symbolOf? c with
    | some alone => symbol c alone
    | none => unexpected

/-- One step, at a byte that there is. -/
def scanToken : Scan Outcome := do lexeme (letter (← advance))

/-! ### Items -/

/-- The next item, if there is one, after less than `fuel` steps. Behind the last byte there is the
end of the input, and nothing behind that. -/
def next : Nat → Scan (Option Item)
  | 0 => throw .exhausted
  | fuel + 1 => do
    let s ← get
    if s.length < s.curr then return none
    else if s.curr = s.length then
      modify fun s => { s with curr := s.curr + 1 }
      return some (.token ⟨.endOfInput, "", s.line⟩)
    else
      modify fun s => { s with start := s.curr }
      match ← scanToken with
      | .nothing => next fuel
      | .fault line cause => return some (.fault line cause)
      | .token kind =>
        let s ← get
        let lexeme ← slice s.start s.curr
        return some (.token ⟨kind, lexeme, s.line⟩)

/-- The items that are left, if they are less than `fuel`. -/
def drain : Nat → Scan (List Item)
  | 0 => throw .exhausted
  | fuel + 1 => do
    match ← next (← limit) with
    | none => return []
    | some item => return item :: (← drain fuel)

/-- The items of a source, or why scanning it breaks off. -/
def scan (source : String) : Except Halt (List Item) :=
  (do drain (← limit) : Scan (List Item)).run' (.at source)

open Source (newline)

/-! ### What is ahead -/

namespace Head

/-- The bytes of the source. -/
def input (s : Head) : List UInt8 := Source.bytes s.source.toList

/-- The bytes that have not been read. -/
def ahead (s : Head) : List UInt8 := s.input.drop s.curr

/-- The scanner `n` bytes further on, with nothing else changed. -/
def skip (s : Head) (n : Nat) : Head := { s with curr := s.curr + n }

/-- The scanner behind the bytes that are passed, with their newlines counted. -/
def pass (s : Head) (passed : List UInt8) : Head :=
  { s with curr := s.curr + passed.length, line := s.line + passed.count newline }

variable (s : Head) {passed rest : List UInt8}

theorem input_eq : s.input = s.source.toByteArray.data.toList := Source.bytes_toList s.source

theorem length_input : s.input.length = s.length := by
  rw [input_eq, length, ← String.size_toByteArray]
  rfl

theorem getElem?_toByteArray (index : Nat) : s.source.toByteArray[index]? = s.input[index]? := by
  rw [input_eq, Array.getElem?_toList]
  rfl

theorem ahead_eq_nil_iff : s.ahead = [] ↔ s.length ≤ s.curr := by
  rw [ahead, List.drop_eq_nil_iff, length_input]

theorem head?_ahead : s.ahead.head? = s.input[s.curr]? := List.head?_drop

theorem length_ahead_le : s.ahead.length ≤ s.length := by
  rw [ahead, List.length_drop, length_input]
  exact Nat.sub_le _ _

theorem ahead_pass (h : s.ahead = passed ++ rest) : (s.pass passed).ahead = rest := by
  have hdrop : (s.pass passed).ahead = s.ahead.drop passed.length := List.drop_drop.symm
  rw [hdrop, h, List.drop_left]

theorem pass_pass (passed passed' : List UInt8) :
    (s.pass passed).pass passed' = s.pass (passed ++ passed') := by
  simp [pass, Nat.add_assoc]

theorem skip_eq_pass (h : newline ∉ passed) : s.skip passed.length = s.pass passed := by
  simp [skip, pass, List.count_eq_zero.2 h]

theorem skip_one_eq_pass {b : UInt8} (h : b ≠ newline) : s.skip 1 = s.pass [b] := by
  have hmem : newline ∉ [b] := by simpa using h.symm
  exact s.skip_eq_pass hmem

theorem pass_skip_one (passed : List UInt8) {b : UInt8} (h : b ≠ newline) :
    (s.pass passed).skip 1 = s.pass (passed ++ [b]) := by
  rw [skip_one_eq_pass _ h, pass_pass]

end Head

/-! ### Steps -/

variable {s : Head} {b : UInt8} {rest : List UInt8}

theorem run_bind {α β : Type} {m : Scan α} {f : α → Scan β} {a : α} {s' : Head}
    (h : m.run s = pure (a, s')) : (m >>= f).run s = (f a).run s' := by
  rw [StateT.run_bind, h, pure_bind]

theorem run_isAtEnd (s : Head) : isAtEnd.run s = pure (s.ahead.isEmpty, s) := by
  have h : decide (s.length ≤ s.curr) = s.ahead.isEmpty := by
    rw [Bool.eq_iff_iff, decide_eq_true_iff, List.isEmpty_iff, s.ahead_eq_nil_iff]
  rw [← h]
  rfl

theorem run_byteAt {index : Nat} (h : s.input[index]? = some b) :
    (byteAt index).run s = pure (b, s) := by
  rw [byteAt, run_bind (StateT.run_get s), s.getElem?_toByteArray, h]
  rfl

theorem run_advance (h : s.ahead = b :: rest) : advance.run s = pure (b, s.skip 1) := by
  have hbyte : s.input[s.curr]? = some b := by rw [← s.head?_ahead, h, List.head?_cons]
  rw [advance, run_bind (StateT.run_get s), run_bind (run_byteAt hbyte)]
  rfl

theorem run_peek (s : Head) : peek.run s = pure (s.ahead.headD 0, s) := by
  rw [peek, run_bind (run_isAtEnd s)]
  cases h : s.ahead with
  | nil => rfl
  | cons b rest =>
    have hbyte : s.input[s.curr]? = some b := by rw [← s.head?_ahead, h, List.head?_cons]
    exact run_byteAt hbyte

theorem run_peekNext (s : Head) : peekNext.run s = pure (s.ahead.tail.headD 0, s) := by
  have htail : s.ahead.tail.headD 0 = s.input[s.curr + 1]?.getD 0 := by
    rw [List.headD_eq_head?_getD, Head.ahead, List.tail_drop, List.head?_drop]
  rw [peekNext, run_bind (StateT.run_get s), htail]
  split
  · next h =>
    rw [List.getElem?_eq_none (by rwa [s.length_input])]
    rfl
  · next h =>
    have hlt : s.curr + 1 < s.input.length := by
      rw [s.length_input]
      omega
    rw [List.getElem?_eq_getElem hlt]
    exact run_byteAt (List.getElem?_eq_getElem hlt)

theorem run_matchByte_of_eq (h : s.ahead = b :: rest) :
    (matchByte b).run s = pure (true, s.skip 1) := by
  rw [matchByte, run_bind (run_isAtEnd s), h, List.isEmpty_cons, if_neg Bool.false_ne_true,
    run_bind (run_peek s), h, List.headD_cons, if_pos rfl, run_bind (run_advance h)]
  rfl

theorem run_matchByte_of_ne (h : s.ahead.head? ≠ some b) :
    (matchByte b).run s = pure (false, s) := by
  rw [matchByte, run_bind (run_isAtEnd s)]
  cases hahead : s.ahead with
  | nil => rfl
  | cons first rest =>
    have hne : first ≠ b := fun heq => h (by rw [hahead, heq, List.head?_cons])
    rw [List.isEmpty_cons, if_neg Bool.false_ne_true, run_bind (run_peek s), hahead,
      List.headD_cons, if_neg hne]
    rfl

/-! ### Loops -/

theorem run_skipWhile {p : UInt8 → Bool} (hzero : p 0 = false) (hline : p newline = false)
    {fuel : Nat} (hfuel : (s.ahead.takeWhile p).length < fuel) :
    (skipWhile p fuel).run s = pure ((), s.pass (s.ahead.takeWhile p)) := by
  induction fuel generalizing s with
  | zero => cases hfuel
  | succ fuel ih =>
    rw [skipWhile, run_bind (run_peek s)]
    cases hahead : s.ahead with
    | nil =>
      rw [List.headD_nil, hzero]
      rfl
    | cons b rest =>
      rw [List.headD_cons]
      cases hb : p b with
      | false =>
        rw [List.takeWhile_cons_of_neg (by simp [hb])]
        rfl
      | true =>
        have hne : b ≠ newline := fun heq => by simp [heq, hline] at hb
        have hpass : s.skip 1 = s.pass [b] := s.skip_one_eq_pass hne
        have hrest : (s.pass [b]).ahead = rest := s.ahead_pass hahead
        rw [hahead, List.takeWhile_cons_of_pos hb, List.length_cons] at hfuel
        rw [if_pos rfl, run_bind (run_advance hahead), hpass, ih (by rw [hrest]; omega), hrest,
          s.pass_pass, List.takeWhile_cons_of_pos hb]
        rfl

theorem run_advanceCounting (h : s.ahead = b :: rest) :
    advanceCounting.run s = pure ((), s.pass [b]) := by
  rw [advanceCounting, run_bind (run_advance h)]
  by_cases hb : b = newline
  · subst hb
    rfl
  · have hne : b ≠ code '\n' := hb
    rw [if_neg hne, s.skip_one_eq_pass hb]
    rfl

theorem run_stringBody {fuel : Nat}
    (hfuel : (s.ahead.takeWhile (· != code '"')).length < fuel) :
    (stringBody fuel).run s = pure ((), s.pass (s.ahead.takeWhile (· != code '"'))) := by
  induction fuel generalizing s with
  | zero => cases hfuel
  | succ fuel ih =>
    rw [stringBody, run_bind (run_isAtEnd s), run_bind (run_peek s)]
    cases hahead : s.ahead with
    | nil => rfl
    | cons b rest =>
      have hrest : (s.pass [b]).ahead = rest := s.ahead_pass hahead
      rw [List.isEmpty_cons, List.headD_cons, Bool.not_false, Bool.true_and]
      by_cases hb : b != code '"'
      · have htake := List.takeWhile_cons_of_pos (p := (· != code '"')) (l := rest) hb
        rw [hahead, htake, List.length_cons] at hfuel
        rw [if_pos hb, run_bind (run_advanceCounting hahead), ih (by rw [hrest]; omega), hrest,
          s.pass_pass, htake]
        rfl
      · rw [if_neg hb, List.takeWhile_cons_of_neg (p := (· != code '"')) hb]
        rfl

theorem run_bytesFrom (h : s.curr ≤ s.length) :
    (bytesFrom s.curr).run s = pure (s.ahead, s) := by
  rw [bytesFrom, run_bind (StateT.run_get s), if_pos h, Head.ahead, s.input_eq]
  rfl

theorem length_takeWhile_ne {α : Type} [BEq α] (a : α) (l : List α) :
    (l.takeWhile (· != a)).length = (l.findIdx? (· == a)).getD l.length := by
  rw [← List.findIdx_eq_getD_findIdx?, List.takeWhile_eq_take_findIdx_not, List.length_take,
    Nat.min_eq_left (by simp [List.findIdx_le_length])]
  simp [bne]

theorem run_lineComment (h : s.curr ≤ s.length) :
    lineComment.run s = pure (.nothing, s.pass (s.ahead.takeWhile (· != code '\n'))) := by
  have hline : newline ∉ s.ahead.takeWhile (· != code '\n') := by
    intro hmem
    exact absurd (List.mem_takeWhile_imp hmem) (by decide)
  rw [lineComment, run_bind (StateT.run_get s), run_bind (run_bytesFrom h), ← s.skip_eq_pass hline,
    length_takeWhile_ne]
  cases hindex : s.ahead.findIdx? (· == code '\n') with
  | some index => rfl
  | none =>
    have hend : s.curr + s.ahead.length = s.length := by
      rw [Head.ahead, List.length_drop, s.length_input]
      omega
    rw [Option.getD_none, Head.skip, hend]
    rfl

theorem run_limit (s : Head) : limit.run s = pure (s.length + 2, s) := rfl

theorem length_takeWhile_lt (s : Head) (p : UInt8 → Bool) :
    (s.ahead.takeWhile p).length < s.length + 2 := by
  have htake := (List.takeWhile_prefix (l := s.ahead) p).length_le
  have hahead := s.length_ahead_le
  omega

theorem run_skipAll {p : UInt8 → Bool} (hzero : p 0 = false) (hline : p newline = false)
    (s : Head) : (skipAll p).run s = pure ((), s.pass (s.ahead.takeWhile p)) := by
  rw [skipAll, run_bind (run_limit s)]
  exact run_skipWhile hzero hline (length_takeWhile_lt s p)

/-! ### Block comments -/

section BlockComment

variable {depth fuel : Nat}

theorem run_blockComment_enter (h : s.ahead = code '/' :: code '*' :: rest) :
    (blockComment (depth + 1) (fuel + 1)).run s =
      (blockComment (depth + 2) fuel).run (s.pass [code '/', code '*']) := by
  have hslash : s.skip 1 = s.pass [code '/'] := s.skip_one_eq_pass (by decide)
  have hahead : (s.pass [code '/']).ahead = code '*' :: rest := s.ahead_pass h
  have hstar : (s.pass [code '/']).skip 1 = s.pass [code '/', code '*'] :=
    s.pass_skip_one [code '/'] (by decide)
  rw [blockComment, run_bind (run_isAtEnd s), h, List.isEmpty_cons, if_neg Bool.false_ne_true,
    run_bind (run_advance h), if_neg (by decide), hslash, run_bind (run_peek _), hahead,
    List.headD_cons, if_pos ⟨rfl, rfl⟩, run_bind (run_advance hahead), hstar]

theorem run_blockComment_leave (h : s.ahead = code '*' :: code '/' :: rest) :
    (blockComment (depth + 1) (fuel + 1)).run s =
      (blockComment depth fuel).run (s.pass [code '*', code '/']) := by
  have hstar : s.skip 1 = s.pass [code '*'] := s.skip_one_eq_pass (by decide)
  have hahead : (s.pass [code '*']).ahead = code '/' :: rest := s.ahead_pass h
  have hslash : (s.pass [code '*']).skip 1 = s.pass [code '*', code '/'] :=
    s.pass_skip_one [code '*'] (by decide)
  rw [blockComment, run_bind (run_isAtEnd s), h, List.isEmpty_cons, if_neg Bool.false_ne_true,
    run_bind (run_advance h), if_neg (by decide), hstar, run_bind (run_peek _), hahead,
    List.headD_cons, if_neg (by decide), run_bind (run_peek _), hahead, List.headD_cons,
    if_pos ⟨rfl, rfl⟩, run_bind (run_advance hahead), hslash]

theorem run_blockComment_step (h : s.ahead = b :: rest)
    (hopen : ¬(b = code '/' ∧ rest.headD 0 = code '*'))
    (hclose : ¬(b = code '*' ∧ rest.headD 0 = code '/')) :
    (blockComment (depth + 1) (fuel + 1)).run s =
      (blockComment (depth + 1) fuel).run (s.pass [b]) := by
  rw [blockComment, run_bind (run_isAtEnd s), h, List.isEmpty_cons, if_neg Bool.false_ne_true,
    run_bind (run_advance h)]
  by_cases hb : b = code '\n'
  · rw [if_pos hb]
    subst hb
    rfl
  · have hskip : s.skip 1 = s.pass [b] := s.skip_one_eq_pass hb
    have hahead : (s.pass [b]).ahead = rest := s.ahead_pass h
    rw [if_neg hb, hskip, run_bind (run_peek _), hahead, if_neg hopen, run_bind (run_peek _),
      hahead, if_neg hclose]

/-- Bytes beyond ASCII are passed one by one. -/
theorem run_blockComment_pass {passed : List UInt8} (h : s.ahead = passed ++ rest)
    (hpassed : ∀ b ∈ passed, 128 ≤ b.toNat) :
    (blockComment (depth + 1) (fuel + passed.length)).run s =
      (blockComment (depth + 1) fuel).run (s.pass passed) := by
  induction passed generalizing s with
  | nil => rfl
  | cons b passed ih =>
    obtain ⟨hb, hpassed⟩ := List.forall_mem_cons.1 hpassed
    have hne {c : UInt8} (hc : c.toNat < 128) : b ≠ c := fun heq => by
      subst heq
      omega
    rw [List.length_cons, ← Nat.add_assoc, run_blockComment_step h
      (fun hopen => hne (by decide) hopen.1) (fun hclose => hne (by decide) hclose.1),
      ih (s.ahead_pass h) hpassed, s.pass_pass]
    rfl

end BlockComment

end Bytewise

end Treewalk
