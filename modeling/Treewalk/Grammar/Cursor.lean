import Treewalk.Diagnostic
import Treewalk.Tree.Basic

/-!
# Reading a token list

The state of reading a program: the tokens still ahead, the token that ends the input, the next
node number and the faults met so far. A fault is reported in one of two ways. Most of them abandon
the declaration being read, and reading goes on at the next statement boundary; a few are noted down
and reading goes on as if nothing had happened.

## Main definitions

* `Cursor`, `Reading` — the state, and computations on it
* `peek`, `accept?`, `expect`, `expectName` — looking at and taking the next token
* `resync` — the tokens left after the one at fault, up to a statement boundary
* `recover` — reads a declaration, or skips to the next statement boundary

## Main results

* `startsStatement_iff` — the eight words that start a statement

## Implementation notes

Readers recurse on a fuel argument. `Stop.exhausted` is kept apart from every fault, so that running
out of fuel is never taken for an answer about the program.
-/

namespace Treewalk.Grammar

/-- The state of reading a token list. `finish` stands behind the tokens ahead and is never taken;
`faults` holds the latest fault first. -/
structure Cursor where
  ahead : List Token
  finish : Token
  nextId : NodeId
  faults : List Diagnostic

/-- Why a reader gives no result. -/
inductive Stop
  | fault (anchor : Token) (cause : GrammarFault)
  | exhausted

abbrev Reading := EStateM Stop Cursor

/-! ### The next token -/

/-- The next token, which is the end of the input when nothing is ahead. -/
def Cursor.next (c : Cursor) : Token := c.ahead.headD c.finish

def peek : Reading Token := do return (← get).next

/-- Takes the next token if there is one and it satisfies `p`. -/
def takeIf? (p : Token → Bool) : Reading (Option Token) := fun c =>
  match c.ahead with
  | t :: rest => if p t then .ok (some t) { c with ahead := rest } else .ok none c
  | [] => .ok none c

def accept? (s : Symbol) : Reading (Option Token) := takeIf? (·.isSymbol s)

def acceptWord? (k : Keyword) : Reading (Option Token) := takeIf? (·.isKeyword k)

/-- Whether the next token is `s`; nothing is taken. -/
def nextIs (s : Symbol) : Reading Bool := do
  return (← get).ahead.head?.any (·.isSymbol s)

def atEnd : Reading Bool := do return (← get).ahead.isEmpty

/-! ### Faults -/

/-- Abandons what is being read, at the next token. -/
def fail (cause : GrammarFault) : Reading α := do throw (.fault (← peek) cause)

/-- Notes down a fault and goes on. -/
def report (anchor : Token) (cause : GrammarFault) : Reading Unit :=
  modify fun c => { c with faults := .grammar anchor cause :: c.faults }

def expect (s : Symbol) (place : SymbolPlace) : Reading Token := do
  match ← accept? s with
  | some t => return t
  | none => fail (.missingSymbol s place)

def expectName (place : NamePlace) : Reading Token := do
  match ← takeIf? Token.isIdentifier with
  | some t => return t
  | none => fail (.missingName place)

def freshId : Reading NodeId :=
  modifyGet fun c => (c.nextId, { c with nextId := c.nextId + 1 })

/-! ### Statement boundaries -/

/-- The keywords that can only stand at the start of a declaration or statement. -/
def startsStatement (t : Token) : Bool :=
  match t.kind with
  | .keyword .class | .keyword .fun | .keyword .var | .keyword .for | .keyword .if
  | .keyword .while | .keyword .print | .keyword .return => true
  | _ => false

theorem startsStatement_iff {t : Token} : startsStatement t ↔
    ∃ k ∈ [Keyword.class, .fun, .var, .for, .if, .while, .print, .return], t.kind = .keyword k := by
  obtain ⟨kind, lexeme, line⟩ := t
  cases kind with
  | keyword k => cases k <;> simp [startsStatement]
  | _ => simp [startsStatement]

theorem startsStatement_eq_false {t : Token} {s : Symbol} (h : t.isSymbol s) :
    startsStatement t = false := by
  rw [startsStatement, of_decide_eq_true h]

/-- What is left from the first statement boundary on: behind a semicolon, or before a token that
starts a statement. -/
def fromBoundary : List Token → List Token
  | [] => []
  | t :: rest =>
    if startsStatement t then t :: rest
    else if t.isSymbol .semicolon then rest
    else fromBoundary rest

/-- What is left after a fault at the head of the list. The token at fault is dropped whatever it
is, so that reading always gets on. -/
def resync : List Token → List Token
  | [] => []
  | t :: rest => if t.isSymbol .semicolon then rest else fromBoundary rest

/-- The result of `read`; if it is abandoned, the fault is noted down and the tokens up to the next
statement boundary are skipped. -/
def recover (read : Reading α) : Reading (Option α) := fun c =>
  match read c with
  | .ok a c => .ok (some a) c
  | .error (.fault anchor cause) c =>
    .ok none { c with faults := .grammar anchor cause :: c.faults, ahead := resync c.ahead }
  | .error .exhausted c => .error .exhausted c

end Treewalk.Grammar
