import Treewalk.Text.Visible

/-!
# Quoted text

A text between double quotes, all of it visible. The quote and the backslash stand behind a
backslash, a few control characters are a backslash and a letter, and any other character that is
not visible is shown by its code point in hexadecimal digits.

## Main definitions

* `letter?` — the character that stands behind a backslash
* `quote`
-/

namespace Treewalk.Text

/-- What a character with an escape of its own is written as behind a backslash. -/
def letter? : Char → Option Char
  | '"' => some '"'
  | '\\' => some '\\'
  | '\t' => some 't'
  | '\n' => some 'n'
  | '\r' => some 'r'
  | '\x00' => some '0'
  | _ => none

/-- A character inside quotes. -/
def escape (c : Char) : List Char :=
  match letter? c with
  | some letter => ['\\', letter]
  | none =>
    if isVisible c then [c]
    else '\\' :: 'u' :: '\x7b' :: Nat.toDigits 16 c.toNat ++ ['\x7d']

def quote (text : String) : String :=
  String.ofList ('"' :: text.toList.flatMap escape ++ ['"'])

end Treewalk.Text
