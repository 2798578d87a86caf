import Treewalk.Json
import Treewalk.Number.Layout
import Treewalk.Token.Basic

/-!
# Token listings

A token list is shown one token a line — kind, text and literal — or as a JSON document.

## Main definitions

* `Token.listed` — one line of the plain listing
* `Token.toJson`, `Token.document` — a token and a token list as JSON
-/

namespace Treewalk

/-- The literal column: the text of a string, the value of a number, `null` for all else. -/
def Kind.literal : Kind → String
  | .string text => text
  | .number value => Number.listed value
  | _ => "null"

def Token.listed (t : Token) : String :=
  t.kind.name ++ " " ++ t.lexeme ++ " " ++ t.kind.literal

/-- A kind with a literal is an object of one member, any other kind its name. -/
def Kind.toJson : Kind → Json
  | .string text => .object [("STRING", .text text)]
  | .number value => .object [("NUMBER", .number (Number.json value))]
  | kind => .text kind.name

def Token.toJson (t : Token) : Json :=
  .object [
    ("token_type", t.kind.toJson),
    ("lexeme", .text t.lexeme),
    ("line", .number (Number.digitText t.line))]

/-- The JSON document of a token list. -/
def Token.document (tokens : List Token) : Json := .array (tokens.map Token.toJson)

end Treewalk
