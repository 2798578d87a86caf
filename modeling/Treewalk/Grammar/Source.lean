import Treewalk.Grammar.Statement
import Treewalk.Lexing.Stream

/-!
# Reading a source text

A source text is lexed and then read as a program. The tokens are read even when the text has
lexical faults, so that one pass over a text tells all of its faults, the lexical ones first.
-/

namespace Treewalk.Source

/-- The trees and the faults of a source text, with node numbers from `firstId` on. -/
def parse (source : String) (firstId : NodeId) : Grammar.Parsed :=
  let parsed := Grammar.parse (tokens source) firstId
  { parsed with faults := lexicalFaults source ++ parsed.faults }

end Treewalk.Source
