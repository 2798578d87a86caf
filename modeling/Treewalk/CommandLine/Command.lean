import Treewalk.CommandLine.Arguments
import Treewalk.CommandLine.Prompt
import Treewalk.Token.Listing
import Treewalk.Tree.Render

/-!
# Commands

What each command writes, and the exit status it ends with, as a function of the files and the
input.

## Main definitions

* `Surroundings` — the files, the standard input and the clock
* `runSource`, `tokenizeSource`, `parseSource` — the transcripts of commands on a source text
* `perform` — the transcript of a command
* `respond` — the transcript of an argument list
-/

namespace Treewalk.CommandLine

/-- What a command can see. `createFile` tells why a file cannot be made, if it cannot. -/
structure Surroundings where
  readFile : String → Except FileFault ByteArray
  createFile : String → Option FileFault
  input : ByteArray
  reading : Nat → Float

/-- Exit status of a misused command line. -/
def misuseCode : Nat := 64

def usage : String := "Usage: rox [script]"

def versionText : String := "rox 0.1.0"

def helpText : String :=
  "Usage: rox [--log FILE] [SCRIPT]\n" ++
  "       rox tokenize FILE [--json] [--log FILE]\n" ++
  "       rox parse FILE [--log FILE]"

def success (out : String) : Transcript := ⟨0, out.toUTF8, ""⟩

/-- Texts, each on a line of its own. -/
def unlines (texts : List String) : String := String.join (texts.map (· ++ "\n"))

def reportAll (faults : List Diagnostic) : String := unlines (faults.map Diagnostic.text)

def runSource (fuel : Nat) (reading : Nat → Float) (source : String) : Transcript :=
  let (outcome, s) := (Session.initial .unbounded reading).run fuel source
  ⟨outcome.exitCode, s.output, errorText outcome⟩

/-- Lists the tokens of a source text, also when it has lexical faults. -/
def tokenizeSource (json : Bool) (source : String) : Transcript :=
  let faults := Source.lexicalFaults source
  let tokens := Source.tokens source
  let out := if json then unlines [(Token.document tokens).pretty 0]
    else unlines (tokens.map Token.listed)
  ⟨if faults.isEmpty then 0 else (Outcome.rejected faults).exitCode, out.toUTF8, reportAll faults⟩

/-- Renders the trees of a source text, if there are no faults. -/
def parseSource (source : String) : Transcript :=
  match (Source.parse source 0).result with
  | .ok program => success (unlines (program.map Stmt.render))
  | .error faults => ⟨(Outcome.rejected faults).exitCode, .empty, reportAll faults⟩

/-- The transcript of a command on the source text of a file. -/
def onFile (w : Surroundings) (file : String) (command : String → Transcript) : Transcript :=
  match w.readFile file with
  | .error fault => (Failure.readingFile file fault).transcript
  | .ok bytes =>
    match String.fromUTF8? bytes with
    | none => (Failure.readingFile file .notUtf8).transcript
    | some source => command source

/-- The transcript of a command. -/
def perform (w : Surroundings) (fuel : Nat) : Command → Transcript
  | .prompt => prompt (.initial .unbounded w.reading) fuel w.input
  | .run file => onFile w file (runSource fuel w.reading)
  | .tokenize file json => onFile w file (tokenizeSource json)
  | .parse file => onFile w file parseSource

/-- The transcript of an invocation, and the log file that was made. The log file is made before
anything else is done. -/
def Invocation.perform (w : Surroundings) (fuel : Nat) (i : Invocation) :
    Transcript × Option String :=
  match i.log with
  | none => (CommandLine.perform w fuel i.command, none)
  | some file =>
    match w.createFile file with
    | some fault => ((Failure.creatingLog file fault).transcript, none)
    | none => (CommandLine.perform w fuel i.command, some file)

/-- The transcript of an argument list, and the log file that was made. -/
def respond (w : Surroundings) (fuel : Nat) (arguments : List String) :
    Transcript × Option String :=
  match Arguments.parse arguments with
  | .invoke invocation => invocation.perform w fuel
  | .version => (success (unlines [versionText]), none)
  | .help => (success (unlines [helpText]), none)
  | .misuse => (⟨misuseCode, .empty, unlines [usage]⟩, none)

end Treewalk.CommandLine
