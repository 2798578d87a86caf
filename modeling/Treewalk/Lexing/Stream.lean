import Treewalk.Lexing.Piece

/-!
# The item stream of a source text

Pieces become items once they are given lines: the line of an item is one more than the number of
newlines up to the end of its text. Trivia only count towards the lines. The end of the input is an
item of its own, the last one.

## Main definitions

* `Item` — a token, or a fault with its line
* `Source.items` — the stream of a source text
* `Source.tokens`, `Source.lexicalFaults` — its two halves
-/

namespace Treewalk

/-- What lexing yields: a token, or a fault with its line. -/
inductive Item
  | token (token : Token)
  | fault (line : Nat) (cause : LexicalFault)
deriving DecidableEq

namespace Item

def line : Item → Nat
  | token t => t.line
  | fault line _ => line

def token? : Item → Option Token
  | token t => some t
  | fault _ _ => none

def diagnostic? : Item → Option Diagnostic
  | token _ => none
  | fault line cause => some (.lexical line cause)

end Item

def Piece.newlines (p : Piece) : Nat := p.text.count '\n'

/-- The item a piece becomes when its text ends on `line`. -/
def Piece.item? (line : Nat) : Piece → Option Item
  | .trivia _ => none
  | .token kind text => some (.token ⟨kind, String.ofList text, line⟩)
  | .fault cause _ => some (.fault line cause)

/-- The items of pieces the first of which starts on `line`, and the end of the input. -/
def Piece.items (line : Nat) : List Piece → List Item
  | [] => [.token ⟨.endOfInput, "", line⟩]
  | piece :: rest =>
    let line := line + piece.newlines
    match piece.item? line with
    | some item => item :: Piece.items line rest
    | none => Piece.items line rest

namespace Source

/-- The item stream of a source text. -/
def items (source : String) : List Item := Piece.items 1 (Piece.split source.toList)

def tokens (source : String) : List Token := (items source).filterMap Item.token?

def lexicalFaults (source : String) : List Diagnostic := (items source).filterMap Item.diagnostic?

end Source

end Treewalk
