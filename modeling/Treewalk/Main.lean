import Std.Time.DateTime.Timestamp
import Treewalk.CommandLine.Command

/-!
# The program

The command line: `main` looks at the files and the clock, and writes what the transcript of its
arguments says. At the prompt it writes the answer to each line before it reads the next one.
-/

namespace Treewalk.CommandLine

/-- More fuel than a run can use up. -/
def ampleFuel : Nat := Nat.pow 2 62

/-- The cause of an error of the operating system. -/
def faultOf : IO.Error → FileFault
  | .alreadyExists _ code reason | .otherError code reason | .resourceBusy code reason
  | .resourceVanished code reason | .unsupportedOperation code reason | .hardwareFault code reason
  | .unsatisfiedConstraints code reason | .illegalOperation code reason
  | .protocolError code reason | .timeExpired code reason | .interrupted _ code reason
  | .noFileOrDirectory _ code reason | .invalidArgument _ code reason
  | .permissionDenied _ code reason | .resourceExhausted _ code reason
  | .inappropriateType _ code reason | .noSuchThing _ code reason => .system reason code.toNat
  | .unexpectedEof => .system "unexpected end of file" 0
  | .userError reason => .system reason 0

def readFile (file : String) : IO (Except FileFault ByteArray) := do
  try
    let handle ← IO.FS.Handle.mk file .read
    return .ok (← handle.readBinToEnd)
  catch e => return .error (faultOf e)

def createFile (file : String) : IO (Option FileFault) := do
  try
    let _ ← IO.FS.Handle.mk file .write
    return none
  catch e => return some (faultOf e)

/-- Readings that go on by a microsecond each from the time at which the program started. -/
def startClock : IO (Nat → Float) := do
  let start := (← Std.Time.Timestamp.now).toSecondsSinceUnixEpoch.val
  return fun n => Float.ofInt start + n.toFloat / 1000000

def emit (t : Transcript) : IO UInt32 := do
  let out ← IO.getStdout
  out.write t.out
  out.flush
  (← IO.getStderr).putStr t.err
  return t.code.toUInt32

/-- The file a command reads. -/
def Command.file? : Command → Option String
  | .prompt => none
  | .run file | .tokenize file _ | .parse file => some file

def lookAround (i : Invocation) : IO Surroundings := do
  let created ← match i.log with
    | some file => createFile file
    | none => pure none
  let content ← match i.command.file? with
    | some file => readFile file
    | none => pure (.ok .empty)
  return ⟨fun _ => content, fun _ => created, .empty, ← startClock⟩

/-- Reads bytes up to a newline or the end of the input. -/
partial def readLine (stream : IO.FS.Stream) (seen : ByteArray) : IO ByteArray := do
  let byte ← stream.read 1
  let seen := seen ++ byte
  if byte.isEmpty || byte[0]! == newlineByte then return seen
  readLine stream seen

/-- Reads and answers one line after the other. -/
partial def converse (s : Session) : IO UInt32 := do
  let out ← IO.getStdout
  out.putStr promptMark
  out.flush
  match (lines (← readLine (← IO.getStdin) .empty).toList).head? with
  | none => emit ⟨0, "\n".toUTF8, ""⟩
  | some line =>
    match String.fromUTF8? ⟨line.toArray⟩ with
    | none => emit (Failure.readingInput .notUtf8).transcript
    | some line =>
      let ((shown, errors), s) := answer s ampleFuel line
      let _ ← emit ⟨0, shown, errors⟩
      converse s

/-- Does what the arguments ask for and gives the exit status. -/
def program (arguments : List String) : IO UInt32 := do
  match Arguments.parse arguments with
  | .invoke i =>
    let w ← lookAround i
    match i.command, i.log.bind w.createFile with
    | .prompt, none => converse (.initial .unbounded w.reading)
    | _, _ => emit (i.perform w ampleFuel).1
  | _ => emit (respond ⟨fun _ => .ok .empty, fun _ => none, .empty, fun _ => 0⟩ 0 arguments).1

end Treewalk.CommandLine

def main (arguments : List String) : IO UInt32 := Treewalk.CommandLine.program arguments
