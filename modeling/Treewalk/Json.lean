/-!
# JSON documents

A JSON document and its two texts: on one line without spaces, and over several lines with two
spaces of indentation. Members of an object stay in the order in which they are given.

## Main definitions

* `Json`
* `Json.quote` — a string between quotes, with its escapes
* `Json.compact`, `Json.pretty` — the two texts

## Implementation notes

A number is given by its text, so that the choice of digits belongs to whoever builds the document.
-/

namespace Treewalk

inductive Json
  | text (value : String)
  | number (literal : String)
  | array (items : List Json)
  | object (members : List (String × Json))
deriving Inhabited

namespace Json

/-! ### Strings -/

def hexDigit (n : Nat) : Char := Nat.digitChar (n % 16)

/-- Quotes, backslashes and control characters are escaped, the latter by a letter where JSON has
one; every other character stands for itself. -/
def escape (c : Char) : List Char :=
  match c with
  | '"' => ['\\', '"']
  | '\\' => ['\\', '\\']
  | '\n' => ['\\', 'n']
  | '\r' => ['\\', 'r']
  | '\t' => ['\\', 't']
  | '\x08' => ['\\', 'b']
  | '\x0c' => ['\\', 'f']
  | c =>
    if c.toNat < 0x20 then ['\\', 'u', '0', '0', hexDigit (c.toNat / 16), hexDigit c.toNat] else [c]

def quote (s : String) : String := String.ofList ('"' :: s.toList.flatMap escape ++ ['"'])

/-! ### On one line -/

def comma (parts : List String) : String := ",".intercalate parts

mutual

/-- The text without any space. -/
def compact : Json → String
  | text s => quote s
  | number literal => literal
  | array items => "[" ++ comma (compactItems items) ++ "]"
  | object members => "\x7b" ++ comma (compactMembers members) ++ "\x7d"

def compactItems : List Json → List String
  | [] => []
  | item :: rest => compact item :: compactItems rest

def compactMembers : List (String × Json) → List String
  | [] => []
  | (key, value) :: rest => (quote key ++ ":" ++ compact value) :: compactMembers rest

end

/-! ### Over several lines -/

def newline (depth : Nat) : String := String.ofList ('\n' :: List.replicate (2 * depth) ' ')

/-- Brackets around parts that stand on lines of their own, one level deeper than the brackets;
nothing stands between the brackets of an empty list. -/
def bracketed (left right : String) (depth : Nat) (parts : List String) : String :=
  if parts.isEmpty then left ++ right
  else
    let indent := newline (depth + 1)
    left ++ indent ++ ("," ++ indent).intercalate parts ++ newline depth ++ right

mutual

/-- The text with every item and member on a line of its own; `depth` counts the brackets around
it. -/
def pretty (depth : Nat) : Json → String
  | text s => quote s
  | number literal => literal
  | array items => bracketed "[" "]" depth (prettyItems (depth + 1) items)
  | object members => bracketed "\x7b" "\x7d" depth (prettyMembers (depth + 1) members)

def prettyItems (depth : Nat) : List Json → List String
  | [] => []
  | item :: rest => pretty depth item :: prettyItems depth rest

def prettyMembers (depth : Nat) : List (String × Json) → List String
  | [] => []
  | (key, value) :: rest => (quote key ++ ": " ++ pretty depth value) :: prettyMembers depth rest

end

end Json

end Treewalk
