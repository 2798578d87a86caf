import Treewalk.Diagnostic

/-!
# Sinks

Where the output of a program goes. A sink keeps the bytes it was given. It may have room for a
limited number of bytes only, and its flushing may fail.

## Main definitions

* `Sink`, `Sink.write`, `Sink.flush`
-/

namespace Treewalk

structure Sink where
  written : ByteArray
  limit : Option Nat
  flushFails : Bool
deriving Inhabited

namespace Sink

/-- A sink that takes everything. -/
def unbounded : Sink := ⟨.empty, none, false⟩

/-- How many of `size` more bytes the sink has room for. -/
def room (s : Sink) (size : Nat) : Nat :=
  match s.limit with
  | none => size
  | some limit => min size (limit - s.written.size)

/-- Writes the UTF-8 bytes of a text, as many as there is room for; the fault is that there is not
room for all of them. -/
def write (s : Sink) (text : String) : Option OutputFault × Sink :=
  let bytes := text.toUTF8
  let room := s.room bytes.size
  if bytes.size ≤ room then (none, { s with written := s.written ++ bytes })
  else (some .sinkFull, { s with written := s.written ++ bytes.extract 0 room })

def flush (s : Sink) : Option OutputFault := if s.flushFails then some .flushFailed else none

end Sink

end Treewalk
