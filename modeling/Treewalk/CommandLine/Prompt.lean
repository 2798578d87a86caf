import Treewalk.CommandLine.Failure
import Treewalk.Session.Basic

/-!
# The prompt

The prompt shows a mark, reads a line, runs it in a session, and starts again. A line that fails is
reported and changes nothing else; the end of the input ends the prompt.

## Main definitions

* `Transcript` — what a command writes, and the exit status it ends with
* `answer` — what the session shows for one line
* `lines` — the lines of an input
* `prompt` — the transcript of a whole input
-/

namespace Treewalk.CommandLine

/-- What was written to the standard output and the standard error, and the exit status. -/
structure Transcript where
  code : Nat
  out : ByteArray
  err : String

/-- A command that could not do its work. -/
def Failure.transcript (f : Failure) : Transcript := ⟨1, .empty, f.report⟩

def promptMark : String := "> "

/-- The diagnostics of a run as a line of their own; nothing for a success. -/
def errorText (outcome : Outcome) : String :=
  match outcome with
  | .success => ""
  | outcome => outcome.report ++ "\n"

/-- What running one line writes, and the session after it. -/
def answer (s : Session) (fuel : Nat) (line : String) : (ByteArray × String) × Session :=
  let start := s.output.size
  let (outcome, s) := s.run fuel line
  ((s.machine.outputFrom start, errorText outcome), s)

/-! ### Lines -/

def newlineByte : UInt8 := 10

def returnByte : UInt8 := 13

/-- Drops a carriage return at the end. -/
def dropReturn (line : List UInt8) : List UInt8 :=
  if line.getLast? = some returnByte then line.dropLast else line

/-- The lines of an input, the one being read first: `seen` holds its bytes so far, last byte first.
A newline ends a line, and so does a carriage return before it; what follows the last newline is a
line if it is not empty. -/
def linesOnto (seen : List UInt8) : List UInt8 → List (List UInt8)
  | [] => if seen.isEmpty then [] else [seen.reverse]
  | byte :: rest =>
    if byte = newlineByte then dropReturn seen.reverse :: linesOnto [] rest
    else linesOnto (byte :: seen) rest

def lines (input : List UInt8) : List (List UInt8) := linesOnto [] input

/-! ### The whole input -/

/-- The transcript of the prompt on lines that are still to be read, behind what was written
before. -/
def promptOnto (out : ByteArray) (err : String) (s : Session) (fuel : Nat) :
    List (List UInt8) → Transcript
  | [] => ⟨0, out ++ (promptMark ++ "\n").toUTF8, err⟩
  | line :: rest =>
    let out := out ++ promptMark.toUTF8
    match String.fromUTF8? ⟨line.toArray⟩ with
    | none => ⟨1, out, err ++ (Failure.readingInput .notUtf8).report⟩
    | some line =>
      let ((shown, errors), s) := answer s fuel line
      promptOnto (out ++ shown) (err ++ errors) s fuel rest

def prompt (s : Session) (fuel : Nat) (input : ByteArray) : Transcript :=
  promptOnto .empty "" s fuel (lines input.toList)

end Treewalk.CommandLine
