/-!
# Command-line arguments

What the arguments ask for. A first argument that names a subcommand takes all the others with it;
otherwise the arguments are those of running a script, or of the prompt if there is no script. The
option for a log file is common to all forms. A double dash ends the options.

## Main definitions

* `Command`, `Invocation` — what is asked for
* `Arguments.parse` — reads an argument list

## Implementation notes

Arguments are read from left to right and the first one that decides settles the matter: a request
for the version counts if nothing before it is wrong, whatever stands behind it. An empty file name
counts as a missing one. Subcommand names are known in the first place only, so that a script of
that name can be run behind an option or a double dash.
-/

namespace Treewalk.CommandLine

inductive Command
  | prompt
  | run (file : String)
  | tokenize (file : String) (json : Bool)
  | parse (file : String)
deriving DecidableEq, Repr

/-- A command, and the file that takes the log. -/
structure Invocation where
  command : Command
  log : Option String
deriving DecidableEq, Repr

inductive Request
  | invoke (invocation : Invocation)
  | version
  | help
  | misuse
deriving DecidableEq, Repr

/-- The forms a command line can have. -/
inductive Form
  | script
  | tokenize
  | parse
deriving DecidableEq, Repr

namespace Arguments

/-- What was given by the arguments read so far. -/
structure Given where
  file : Option String
  json : Bool
  log : Option String

/-- A file can be given once, and by a name that is not empty. -/
def Given.withFile? (given : Given) (file : String) : Option Given :=
  if file.isEmpty ∨ given.file.isSome then none else some { given with file := some file }

def Given.withLog? (given : Given) (file : String) : Option Given :=
  if file.isEmpty ∨ given.log.isSome then none else some { given with log := some file }

def Given.withJson? (given : Given) : Option Given :=
  if given.json then none else some { given with json := true }

/-- Only a script is optional. -/
def Given.request (form : Form) (given : Given) : Request :=
  match form, given.file with
  | .script, none => .invoke ⟨.prompt, given.log⟩
  | .script, some file => .invoke ⟨.run file, given.log⟩
  | .tokenize, some file => .invoke ⟨.tokenize file given.json, given.log⟩
  | .parse, some file => .invoke ⟨.parse file, given.log⟩
  | _, none => .misuse

/-- Whether an argument is read as an option. A dash by itself is a file name. -/
def isOption (argument : String) : Bool := argument.startsWith "-" && argument != "-"

/-- The file name in `--log=NAME`. -/
def attachedLog? (argument : String) : Option String :=
  if argument.startsWith "--log=" then some (argument.drop 6).toString else none

/-- What an option other than that for the log does: settle the request, or add to what is given. -/
def readFlag (form : Form) (given : Given) (flag : String) : Except Request Given :=
  if flag = "--help" ∨ flag.startsWith "-h" then .error .help
  else if form = .script ∧ (flag = "--version" ∨ flag.startsWith "-V") then .error .version
  else if form = .tokenize ∧ flag = "--json" then
    match given.withJson? with
    | some given => .ok given
    | none => .error .misuse
  else .error .misuse

/-- Reads the arguments behind a double dash, which are file names. -/
def readFiles (form : Form) (given : Given) : List String → Request
  | [] => given.request form
  | file :: rest =>
    match given.withFile? file with
    | some given => readFiles form given rest
    | none => .misuse

/-- Reads the arguments of a form. -/
def readFrom (form : Form) (given : Given) : List String → Request
  | [] => given.request form
  | "--" :: rest => readFiles form given rest
  | ["--log"] => .misuse
  | "--log" :: file :: rest =>
    if isOption file then .misuse
    else
      match given.withLog? file with
      | some given => readFrom form given rest
      | none => .misuse
  | argument :: rest =>
    match attachedLog? argument with
    | some file =>
      match given.withLog? file with
      | some given => readFrom form given rest
      | none => .misuse
    | none =>
      if isOption argument then
        match readFlag form given argument with
        | .ok given => readFrom form given rest
        | .error request => request
      else
        match given.withFile? argument with
        | some given => readFrom form given rest
        | none => .misuse

/-- What `help` asks for: an overview, or the description of one subcommand. -/
def readTopic : List String → Request
  | [] | ["tokenize"] | ["parse"] | ["help"] => .help
  | _ => .misuse

/-- Reads an argument list. -/
def parse (arguments : List String) : Request :=
  let nothing : Given := ⟨none, false, none⟩
  match arguments with
  | "tokenize" :: rest => readFrom .tokenize nothing rest
  | "parse" :: rest => readFrom .parse nothing rest
  | "help" :: topic => readTopic topic
  | arguments => readFrom .script nothing arguments

end Arguments

end Treewalk.CommandLine
