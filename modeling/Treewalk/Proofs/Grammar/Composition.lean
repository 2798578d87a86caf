import Mathlib.Data.List.TakeWhile
import Treewalk.Proofs.Grammar.Acceptance
import Treewalk.Proofs.Grammar.Fuel.Statement
import Treewalk.Proofs.Grammar.Numbering.Statement

/-!
# Reading one program behind another

No reader looks behind the end of a declaration, except for an `else`. So tokens behind a program
are read as they would be alone: what is read of them, and the faults that are found, do not depend
on the program in front. They are read with other node numbers and with another amount of fuel, of
which neither matters.

## Main results

* `program_append` — the reader of programs at the declarations of a program
* `parse_program_append` — a program and any tokens behind it
-/

namespace Treewalk.Grammar

variable {first rest w r : List Token} {body : List Stmt}

/-- At the declarations of a program the reader takes them all, and goes on with what stands behind
them as at the beginning. -/
theorem program_append (h : StmtPhrase.declarations.Derives .nearest w body) (hr : NoElse r)
    {fuel : Nat} {c : Cursor} (hc : c.ahead = w ++ r) (hfuel : 32 * c.ahead.length + 14 ≤ fuel) :
    ∃ body' nextId fuel', 32 * r.length + 14 ≤ fuel' ∧
      body'.map Stmt.eraseIds = body.map Stmt.eraseIds ∧
      program fuel c =
        ((body' ++ ·) <$> program fuel') { c with ahead := r, nextId := nextId } := by
  induction body generalizing w fuel c with
  | nil =>
    cases h
    obtain ⟨ahead, finish, nextId, faults⟩ := c
    obtain rfl : ahead = r := hc
    exact ⟨[], nextId, fuel, hfuel, rfl, by simp⟩
  | cons s body ih =>
    cases h with
    | @declaration w₁ w₂ _ _ h hrest =>
      obtain ⟨fuel, rfl⟩ := Nat.exists_eq_succ_of_ne_zero (n := fuel) (by omega)
      obtain ⟨t, w₁, rfl, -⟩ := declaration_exists_head h
      rw [List.append_assoc] at hc
      have hlength := congrArg List.length hc
      simp only [List.length_append, List.length_cons] at hlength
      obtain ⟨o, n, hread, ho⟩ := statement_complete h fuel (w₂ ++ r)
        (by rw [List.length_cons]; omega) (hrest.noElse hr) c hc
      obtain ⟨s', rfl, hs'⟩ := Option.map_eq_some_iff.1 ho
      obtain ⟨body', nextId, fuel', hfuel', hbody', hprogram⟩ :=
        @ih w₂ hrest fuel { c with ahead := w₂ ++ r, nextId := n } rfl
          (by simp only [List.length_append]; omega)
      refine ⟨s' :: body', nextId, fuel', hfuel', congrArg₂ List.cons hs' hbody', ?_⟩
      have hend : atEnd c = .ok false c := by
        change EStateM.Result.ok c.ahead.isEmpty c = _
        rw [hc]
        rfl
      calc
        program (fuel + 1) c =
            ((s' :: ·) <$> program fuel) { c with ahead := w₂ ++ r, nextId := n } := by
          simp only [program, bind, EStateM.bind, hend, hread, Bool.false_eq_true, if_false]
          rfl
        _ = ((s' :: ·) <$> ((body' ++ ·) <$> program fuel'))
              { c with ahead := r, nextId := nextId } := by
          simp only [Functor.map, EStateM.map, hprogram]
        _ = _ := by rw [← comp_map]; rfl

/-! ### Token lists -/

/-- A program in front of some tokens does not move their end. -/
theorem start_append (hfirst : ∀ t ∈ first, t.isEnd = false) (hrest : rest ≠ [])
    (firstId : NodeId) :
    Cursor.start (first ++ rest) firstId =
      { Cursor.start rest firstId with ahead := first ++ rest.takeWhile (!·.isEnd) } := by
  have hahead : (first ++ rest).takeWhile (!·.isEnd) = first ++ rest.takeWhile (!·.isEnd) :=
    List.takeWhile_append_of_pos fun t ht => by simp [hfirst t ht]
  have hfinish : finishOf (first ++ rest) = finishOf rest := by
    have : first.find? Token.isEnd = none := List.find?_eq_none.2 fun t ht => by simp [hfirst t ht]
    rw [finishOf, finishOf, List.find?_append, this, Option.none_or,
      List.getLast?_append_of_ne_nil _ hrest]
  rw [Cursor.start, hahead, hfinish]
  rfl

theorem NoElse.takeWhile {p : Token → Bool} (h : NoElse rest) : NoElse (rest.takeWhile p) := by
  cases rest with
  | nil => exact h
  | cons t rest =>
    rw [List.takeWhile_cons]
    split
    · exact h
    · exact nofun

/-- The same tokens have the same result up to node numbers, whatever the first number is. -/
theorem result_alike (tokens : List Token) (n k : NodeId) :
    List.map Stmt.eraseIds <$> (parse tokens k).result =
      List.map Stmt.eraseIds <$> (parse tokens n).result := by
  obtain ⟨hfaults, hfinished, hbody⟩ := parse_alike tokens n k
  simp only [Parsed.result, hfaults, hfinished]
  split
  · exact congrArg Except.ok hbody
  · rfl

/-- The result of reading is that of the reader of programs. -/
theorem result_of_program {tokens tokens' : List Token} {n k : NodeId} {front : List Stmt}
    (h : program (fuelFor tokens') (.start tokens' k) =
      ((front ++ ·) <$> program (fuelFor tokens)) (.start tokens n)) :
    (parse tokens' k).result = (front ++ ·) <$> (parse tokens n).result := by
  simp only [Functor.map, EStateM.map] at h
  unfold parse
  rw [h]
  cases program (fuelFor tokens) (.start tokens n) with
  | ok body c =>
    simp only [Parsed.result]
    split <;> rfl
  | error stop c => cases stop <;> simp [Parsed.result, Functor.map, Except.map]

/-- Behind a program, tokens are read from some node number on as they are alone. -/
theorem result_append (hfirst : ∀ t ∈ first, t.isEnd = false) (hrest : NoElse rest)
    {n : NodeId} (h : (parse first n).result = .ok body) (k : NodeId) :
    ∃ body' nextId, body'.map Stmt.eraseIds = body.map Stmt.eraseIds ∧
      (parse (first ++ rest) k).result = (body' ++ ·) <$> (parse rest nextId).result := by
  obtain rfl | hne := eq_or_ne rest []
  · have halike := result_alike first n k
    rw [h] at halike
    rw [List.append_nil]
    cases hk : (parse first k).result with
    | error faults => rw [hk] at halike; cases halike
    | ok body' =>
      rw [hk] at halike
      exact ⟨body', k, Except.ok.inj halike, congrArg Except.ok (List.append_nil body').symm⟩
  · have hderives : StmtPhrase.declarations.Derives .nearest first body := by
      have htake : first.takeWhile (!·.isEnd) = first :=
        List.takeWhile_eq_self_iff.2 fun t ht => by simp [hfirst t ht]
      exact htake ▸ derives_of_parse h
    have hstart := start_append hfirst hne k
    obtain ⟨body', nextId, fuel, hfuel, hbody', hprogram⟩ :=
      program_append hderives (r := rest.takeWhile (!·.isEnd)) hrest.takeWhile
        (congrArg Cursor.ahead hstart) (le_fuelFor (first ++ rest) k)
    refine ⟨body', nextId, hbody', result_of_program (hprogram.trans ?_)⟩
    rw [hstart]
    change ((body' ++ ·) <$> program fuel) (.start rest nextId) = _
    simp only [Functor.map, EStateM.map]
    rw [program_fuel (le_fuelFor rest nextId) hfuel]

/-- **Reading goes on behind a program as at its beginning.** Let tokens without an end of input be
read without a fault, and let the tokens behind them not begin with an `else`. Then all of them are
read without a fault if those behind are, and the trees are the trees of both, one behind the other,
up to node numbers; and otherwise the faults are those of the tokens behind alone. -/
theorem parse_program_append (first rest : List Token) (n m k : NodeId) {ps : List Stmt}
    (hend : ∀ t ∈ first, t.isEnd = false) (hfirst : (parse first n).result = .ok ps)
    (hrest : ∀ t ∈ rest.head?, t.isKeyword .else = false) :
    (∀ qs, (parse rest m).result = .ok qs → ∃ whole, (parse (first ++ rest) k).result = .ok whole ∧
      whole.map Stmt.eraseIds = (ps ++ qs).map Stmt.eraseIds) ∧
    ∀ es, (parse rest m).result = .error es → (parse (first ++ rest) k).result = .error es := by
  obtain ⟨ps', nextId, hps', happend⟩ := result_append hend hrest hfirst k
  have halike := result_alike rest nextId m
  refine ⟨fun qs hqs => ?_, fun es hes => ?_⟩
  · rw [hqs] at halike
    cases hnext : (parse rest nextId).result with
    | error es => rw [hnext] at halike; cases halike
    | ok qs' =>
      rw [hnext] at halike happend
      refine ⟨ps' ++ qs', happend, ?_⟩
      rw [List.map_append, List.map_append, hps', Except.ok.inj halike]
  · rw [hes] at halike
    cases hnext : (parse rest nextId).result with
    | ok qs => rw [hnext] at halike; cases halike
    | error es' =>
      rw [hnext] at halike happend
      rw [happend, Except.error.inj halike]
      rfl

/-- The tokens of `if (a) b;`, which an `else` could go on with. -/
def openIfTokens : List Token :=
  [⟨.keyword .if, "if", 1⟩, ⟨.symbol .leftParen, "(", 1⟩, ⟨.identifier, "a", 1⟩,
    ⟨.symbol .rightParen, ")", 1⟩, ⟨.identifier, "b", 1⟩, ⟨.symbol .semicolon, ";", 1⟩]

/-- The tokens of `) c; print ;`, in which there are two faults. -/
def faultyTokens : List Token :=
  [⟨.symbol .rightParen, ")", 2⟩, ⟨.identifier, "c", 2⟩, ⟨.symbol .semicolon, ";", 2⟩,
    ⟨.keyword .print, "print", 3⟩, ⟨.symbol .semicolon, ";", 3⟩]

theorem parse_program_append_openIf :
    (∃ whole, (parse (openIfTokens ++ openIfTokens) 0).result = .ok whole ∧ whole.length = 2) ∧
      ∃ es, es.length = 2 ∧ (parse faultyTokens 0).result = .error es ∧
        (parse (openIfTokens ++ faultyTokens) 0).result = .error es := by
  have happend (rest : List Token) := parse_program_append openIfTokens rest 0 0 0 (by decide) rfl
  refine ⟨?_, _, rfl, rfl, (happend faultyTokens (by decide)).2 _ rfl⟩
  obtain ⟨whole, hwhole, heq⟩ := (happend openIfTokens (by decide)).1 _ rfl
  have hlength := congrArg List.length heq
  rw [List.length_map] at hlength
  exact ⟨whole, hwhole, hlength⟩

end Treewalk.Grammar
