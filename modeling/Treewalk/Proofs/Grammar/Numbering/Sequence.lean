import Treewalk.Proofs.Grammar.Numbering.Statement

/-!
# Node numbers of many token lists

One supply of node numbers serves every list of tokens that is read. Reading takes the numbers it
needs from the front of the supply and gives back what is left, whether or not it found faults, so
trees of different readings never share a number. Within one reading they do not either, although
trees are taken apart there: a variable to the left of an equals sign is dropped for an assignment
with a number of its own, the parts of a `for` loop are put together in another order than that in
which they were read, and what is read of an abandoned declaration is lost with its numbers.

## Main definitions

* `parseAll` — token lists read one after the other
* `Parsed.occurrences` — the numbered nodes of the program that was read, if there is one

## Main results

* `ids_nodup_parseAll` — the numbers of all programs that are read are different
-/

namespace Treewalk.Grammar

/-- Reads token lists one after the other. Each reading goes on from the number that the one before
it left, whatever came of that one. -/
def parseAll (firstId : NodeId) : List (List Token) → List Parsed
  | [] => []
  | tokens :: rest => parse tokens firstId :: parseAll (parse tokens firstId).nextId rest

/-- The numbered nodes of the program that was read. Tokens with faults give no program. -/
def Parsed.occurrences (p : Parsed) : List Occurrence :=
  match p.result with
  | .ok body => Stmt.occurrencesAll body
  | .error _ => []

/-- The numbers of one program are new, and below those of the next one. -/
theorem fresh_occurrences (tokens : List Token) (firstId : NodeId) :
    Fresh firstId (parse tokens firstId).nextId (parse tokens firstId).occurrences := by
  have h := parse_fresh tokens firstId
  rw [Parsed.occurrences, Parsed.result]
  split
  · next body hbody =>
    split at hbody
    · rwa [← Except.ok.inj hbody]
    · cases hbody
  · exact .nil h.le

theorem exists_fresh_parseAll (firstId : NodeId) (lists : List (List Token)) :
    ∃ nextId, Fresh firstId nextId ((parseAll firstId lists).flatMap Parsed.occurrences) := by
  induction lists generalizing firstId with
  | nil => exact ⟨firstId, .nil le_rfl⟩
  | cons tokens rest ih =>
    obtain ⟨nextId, hrest⟩ := ih (parse tokens firstId).nextId
    rw [parseAll, List.flatMap_cons]
    exact ⟨nextId, (fresh_occurrences tokens firstId).append hrest⟩

/-- **No number is given out twice.** However many token lists are read one after the other, and
whatever comes of each, the numbered nodes of all programs that are read have different numbers. -/
theorem ids_nodup_parseAll (firstId : NodeId) (lists : List (List Token)) :
    (((parseAll firstId lists).flatMap Parsed.occurrences).map (·.use.id)).Nodup := by
  obtain ⟨nextId, h⟩ := exists_fresh_parseAll firstId lists
  exact h.nodup

/-- The tokens of `for (;;) a = a;`, and of `a`, which is no program. -/
example :
    let a : Token := ⟨.identifier, "a", 1⟩
    let semicolon : Token := ⟨.symbol .semicolon, ";", 1⟩
    let loop : List Token := [⟨.keyword .for, "for", 1⟩, ⟨.symbol .leftParen, "(", 1⟩, semicolon,
      semicolon, ⟨.symbol .rightParen, ")", 1⟩, a, ⟨.symbol .equal, "=", 1⟩, a, semicolon]
    ((parseAll 0 [loop, [a], loop]).flatMap Parsed.occurrences).map (·.use.id) = [2, 1, 6, 5] := by
  decide +kernel

end Treewalk.Grammar
