import Treewalk.Number.Layout
import Treewalk.Text.Quoted

/-!
# Failures of the surroundings

Files that cannot be read or made, and input that is no text. Such a failure ends the program with
a report of two parts: what was being done, and the cause.

## Main definitions

* `FileFault` — why a file cannot be read or made
* `Failure`, `Failure.report`
-/

namespace Treewalk.CommandLine

/-- A cause given by the operating system, or bytes that are no UTF-8. -/
inductive FileFault
  | system (reason : String) (code : Nat)
  | notUtf8
deriving DecidableEq, Repr

def FileFault.message : FileFault → String
  | system reason code => reason ++ " (os error " ++ Number.digitText code ++ ")"
  | notUtf8 => "stream did not contain valid UTF-8"

/-- What was being done. -/
inductive Failure
  | readingFile (file : String) (fault : FileFault)
  | readingInput (fault : FileFault)
  | creatingLog (file : String) (fault : FileFault)
deriving DecidableEq, Repr

namespace Failure

def context : Failure → String
  | readingFile file _ => "Failed to read file " ++ Text.quote file
  | readingInput _ => "Failed to read from stdin"
  | creatingLog file _ => "Failed to create " ++ Text.quote file

def fault : Failure → FileFault
  | readingFile _ fault => fault
  | readingInput fault => fault
  | creatingLog _ fault => fault

def report (f : Failure) : String :=
  "Error: " ++ f.context ++ "\n\nCaused by:\n    " ++ f.fault.message ++ "\n"

end Failure

end Treewalk.CommandLine
