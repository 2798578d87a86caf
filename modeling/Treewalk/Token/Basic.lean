/-!
# Tokens

A token is a kind together with the text it was read from and the line it ends on. Symbols and
keywords have one spelling each; identifiers, strings and numbers have many.

## Main definitions

* `Symbol`, `Keyword` — the fixed words, with `spelling` and `name`
* `Kind`, `Token`

## Implementation notes

`name` is the upper-case word a listing shows for the kind. It ignores the text of a string and the
value of a number.
-/

namespace Treewalk

/-- Punctuation and operators. -/
inductive Symbol
  | leftParen | rightParen | leftBrace | rightBrace
  | comma | dot | minus | plus | semicolon | slash | star
  | bang | bangEqual | equal | equalEqual
  | greater | greaterEqual | less | lessEqual
deriving DecidableEq, Repr, Inhabited

def Symbol.spelling : Symbol → String
  | leftParen => "("
  | rightParen => ")"
  | leftBrace => "\x7b"
  | rightBrace => "\x7d"
  | comma => ","
  | dot => "."
  | minus => "-"
  | plus => "+"
  | semicolon => ";"
  | slash => "/"
  | star => "*"
  | bang => "!"
  | bangEqual => "!="
  | equal => "="
  | equalEqual => "=="
  | greater => ">"
  | greaterEqual => ">="
  | less => "<"
  | lessEqual => "<="

def Symbol.name : Symbol → String
  | leftParen => "LEFT_PAREN"
  | rightParen => "RIGHT_PAREN"
  | leftBrace => "LEFT_BRACE"
  | rightBrace => "RIGHT_BRACE"
  | comma => "COMMA"
  | dot => "DOT"
  | minus => "MINUS"
  | plus => "PLUS"
  | semicolon => "SEMICOLON"
  | slash => "SLASH"
  | star => "STAR"
  | bang => "BANG"
  | bangEqual => "BANG_EQUAL"
  | equal => "EQUAL"
  | equalEqual => "EQUAL_EQUAL"
  | greater => "GREATER"
  | greaterEqual => "GREATER_EQUAL"
  | less => "LESS"
  | lessEqual => "LESS_EQUAL"

def Symbol.all : List Symbol :=
  [leftParen, rightParen, leftBrace, rightBrace, comma, dot, minus, plus, semicolon, slash, star,
    bang, bangEqual, equal, equalEqual, greater, greaterEqual, less, lessEqual]

/-- Reserved words. -/
inductive Keyword
  | and | «class» | «else» | false | «fun» | «for» | «if» | nil | or | print | «return»
  | super | this | true | var | «while»
deriving DecidableEq, Repr, Inhabited

def Keyword.spelling : Keyword → String
  | and => "and"
  | «class» => "class"
  | «else» => "else"
  | false => "false"
  | «fun» => "fun"
  | «for» => "for"
  | «if» => "if"
  | nil => "nil"
  | or => "or"
  | print => "print"
  | «return» => "return"
  | super => "super"
  | this => "this"
  | true => "true"
  | var => "var"
  | «while» => "while"

def Keyword.name : Keyword → String
  | and => "AND"
  | «class» => "CLASS"
  | «else» => "ELSE"
  | false => "FALSE"
  | «fun» => "FUN"
  | «for» => "FOR"
  | «if» => "IF"
  | nil => "NIL"
  | or => "OR"
  | print => "PRINT"
  | «return» => "RETURN"
  | super => "SUPER"
  | this => "THIS"
  | true => "TRUE"
  | var => "VAR"
  | «while» => "WHILE"

def Keyword.all : List Keyword :=
  [and, «class», «else», false, «fun», «for», «if», nil, or, print, «return», super, this, true,
    var, «while»]

/-- What a token is. A string carries its text without the quotes, a number its value. -/
inductive Kind
  | symbol (symbol : Symbol)
  | keyword (keyword : Keyword)
  | identifier
  | string (text : String)
  | number (value : Float)
  | endOfInput
deriving DecidableEq, Inhabited

def Kind.name : Kind → String
  | symbol s => s.name
  | keyword k => k.name
  | identifier => "IDENTIFIER"
  | string _ => "STRING"
  | number _ => "NUMBER"
  | endOfInput => "EOF"

/-- A kind, the source text it was read from, and the line on which that text ends. -/
structure Token where
  kind : Kind
  lexeme : String
  line : Nat
deriving DecidableEq, Inhabited

def Token.isSymbol (t : Token) (s : Symbol) : Bool := t.kind = .symbol s

def Token.isKeyword (t : Token) (k : Keyword) : Bool := t.kind = .keyword k

def Token.isIdentifier (t : Token) : Bool := t.kind = .identifier

def Token.isEnd (t : Token) : Bool := t.kind = .endOfInput

theorem Symbol.mem_all (s : Symbol) : s ∈ Symbol.all := by cases s <;> decide

theorem Keyword.mem_all (k : Keyword) : k ∈ Keyword.all := by cases k <;> decide

theorem Keyword.spelling_inj {a b : Keyword} (h : a.spelling = b.spelling) : a = b := by
  revert h
  cases a <;> cases b <;> decide

theorem Symbol.spelling_inj {a b : Symbol} (h : a.spelling = b.spelling) : a = b := by
  revert h
  cases a <;> cases b <;> decide

end Treewalk
