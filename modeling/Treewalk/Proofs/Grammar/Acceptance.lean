import Treewalk.Proofs.Grammar.Completeness.Statement
import Treewalk.Proofs.Grammar.NearestElse
import Treewalk.Proofs.Grammar.Soundness.Statement

/-!
# What is accepted

A list of tokens is accepted if and only if the tokens before the first end of input are a program,
and the result is the tree that the grammar gives to them. That there is only one up to node numbers
is a consequence of reading being a function: whatever tree the grammar gives, it is the one that
was read.

## Main results

* `derives_unique` — a program has one tree
* `parse_ok_iff` — the lists of tokens that are accepted, and the result
-/

namespace Treewalk.Grammar

variable {tokens w : List Token} {firstId : NodeId} {body body' : List Stmt}

theorem Parsed.result_of_not {p : Parsed} (h : ¬(p.finished ∧ p.faults = [])) :
    p.result = .error p.faults :=
  if_neg fun hok => h ⟨hok.1, List.isEmpty_iff.1 hok.2⟩

theorem Parsed.result_eq_ok_iff {p : Parsed} :
    p.result = .ok body ↔ p.finished ∧ p.faults = [] ∧ p.statements = body := by
  by_cases h : p.finished ∧ p.faults = []
  · have hok : p.result = .ok p.statements := if_pos ⟨h.1, List.isEmpty_iff.2 h.2⟩
    rw [hok, Except.ok.injEq]
    exact ⟨fun hbody => ⟨h.1, h.2, hbody⟩, fun hbody => hbody.2.2⟩
  · rw [result_of_not h]
    exact ⟨nofun, fun hbody => absurd ⟨hbody.1, hbody.2.1⟩ h⟩

theorem parse_result_eq_ok_iff : (parse tokens firstId).result = .ok body ↔
    ∃ c, program (fuelFor tokens) (.start tokens firstId) = .ok body c ∧ c.faults = [] := by
  rw [Parsed.result, parse]
  split
  · split <;> simp_all
  · simp_all
  · simp_all

/-- The tokens before the first end of input leave fuel for every one of them. -/
theorem length_takeWhile_le_fuelFor (tokens : List Token) :
    32 * (tokens.takeWhile (!·.isEnd)).length + 1 ≤ fuelFor tokens := by
  have := (List.takeWhile_prefix (l := tokens) (!·.isEnd)).length_le
  rw [fuelFor]
  omega

theorem derives_of_parse (h : (parse tokens firstId).result = .ok body) :
    StmtPhrase.declarations.Derives .nearest (tokens.takeWhile (!·.isEnd)) body := by
  obtain ⟨c, hc, hfaults⟩ := parse_result_eq_ok_iff.1 h
  obtain ⟨w, hw, hbody, hr⟩ := (program_spans _).ok hc hfaults
  rw [hr, List.append_nil] at hw
  obtain rfl : tokens.takeWhile (!·.isEnd) = w := hw
  exact hbody

theorem parse_of_derives (firstId : NodeId)
    (h : StmtPhrase.declarations.Derives .nearest (tokens.takeWhile (!·.isEnd)) body) :
    ∃ body', (parse tokens firstId).result = .ok body' ∧
      body'.map Stmt.eraseIds = body.map Stmt.eraseIds := by
  obtain ⟨body', nextId, hr, hbody'⟩ := program_accepts h (length_takeWhile_le_fuelFor tokens)
    (.start tokens firstId) (List.append_nil _).symm
  exact ⟨body', parse_result_eq_ok_iff.2 ⟨_, hr, rfl⟩, hbody'⟩

/-- A program of the free rules is one of those by which every `else` belongs to the nearest `if`,
since it is read. -/
theorem StmtPhrase.Derives.nearest (h : StmtPhrase.declarations.Derives .free w body) :
    ∃ body', StmtPhrase.declarations.Derives .nearest w body' := by
  obtain ⟨body', h'⟩ := h.relaxed.nearest
  obtain ⟨as, nextId, hr, -⟩ := notes_zero_iff.1 (Relaxed.program_notes h' le_rfl)
    ⟨w, default, 0, []⟩ (List.append_nil w).symm
  obtain ⟨w', hw, has, -⟩ := (program_spans _).ok hr rfl
  obtain rfl : w = w' := hw.trans (List.append_nil w')
  exact ⟨as, has⟩

/-- A program in which every `else` belongs to the nearest `if` has one tree. -/
theorem derives_unique (h : StmtPhrase.declarations.Derives .nearest w body)
    (h' : StmtPhrase.declarations.Derives .nearest w body') :
    body'.map Stmt.eraseIds = body.map Stmt.eraseIds := by
  obtain ⟨as, nextId, hr, has⟩ := program_accepts h le_rfl ⟨w, default, 0, []⟩ (by simp)
  obtain ⟨as', nextId', hr', has'⟩ := program_accepts h' le_rfl ⟨w, default, 0, []⟩ (by simp)
  obtain rfl : as = as' := by
    rw [hr] at hr'
    exact (EStateM.Result.ok.inj hr').1
  rw [← has', has]

/-- **Exactly the programs of the grammar are accepted.** A list of tokens is accepted if and only
if the tokens before the first end of input are a program, by rules that leave it open to which `if`
an `else` belongs. Then the result is, up to node numbers, the one tree in which every `else`
belongs to the nearest `if`. -/
theorem parse_ok_iff (tokens : List Token) (firstId : NodeId) :
    ((∃ body, (parse tokens firstId).result = .ok body) ↔
      ∃ body, StmtPhrase.declarations.Derives .free (tokens.takeWhile (!·.isEnd)) body) ∧
    ∀ body, (parse tokens firstId).result = .ok body →
      StmtPhrase.declarations.Derives .nearest (tokens.takeWhile (!·.isEnd)) body ∧
      ∀ body', StmtPhrase.declarations.Derives .nearest (tokens.takeWhile (!·.isEnd)) body' →
        body'.map Stmt.eraseIds = body.map Stmt.eraseIds := by
  refine ⟨⟨?_, ?_⟩, fun body h => ⟨derives_of_parse h, fun body' h' => ?_⟩⟩
  · rintro ⟨body, h⟩
    exact ⟨body, (derives_of_parse h).free⟩
  · rintro ⟨body, h⟩
    obtain ⟨body', h'⟩ := h.nearest
    obtain ⟨body'', hr, -⟩ := parse_of_derives firstId h'
    exact ⟨body'', hr⟩
  · exact derives_unique (derives_of_parse h) h'

end Treewalk.Grammar
