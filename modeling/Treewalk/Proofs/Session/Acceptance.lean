import Treewalk.Proofs.Grammar.Acceptance
import Treewalk.Proofs.Grammar.Named
import Treewalk.Proofs.Grammar.Numbering.Statement
import Treewalk.Proofs.Lexing.Names
import Treewalk.Proofs.Scope.Linking
import Treewalk.Proofs.Scope.Renumbered
import Treewalk.Session.Basic

/-!
# Accepted source texts

Whether a text is accepted, and what is wrong with it if it is not, does not depend on the session
that it is handed to. A session that checks a text changes nothing but its node numbers and its
depth table, and the entries it makes there are all for numbers that were not given out before.
After an accepted text the table tells the depths of all uses of its program.

## Main definitions

* `Source.faults` — all that is wrong with a text
* `Source.IsAccepted` — nothing is wrong with a text
* `Source.IsProgram` — a program that some text is read as
* `Session.Ready` — a session between two texts
* `Session.Follows` — what checking a text changes
* `Session.Takes` — what is known after an accepted text

## Main results

* `Session.accept_of_rejected`, `Session.accept_of_isAccepted` — the two ways in which checking ends
-/

namespace Treewalk

/-! ### Texts by themselves -/

namespace Source

variable {source : String} {n k : NodeId} {program : List Stmt}

/-- All that is wrong with a source text: the faults of lexing and reading it, or else those that
scope analysis finds. -/
def faults (source : String) : List Diagnostic :=
  match (parse source 0).result with
  | .error faults => faults
  | .ok program => scopeFaults (analyse program)

/-- A source text that is read as a program, with which nothing is wrong. -/
def IsAccepted (source : String) : Prop :=
  ∃ program, (parse source 0).result = .ok program ∧ scopeFaults (analyse program) = []

/-- The identifiers of a source text. -/
def identifiers (source : String) : List String :=
  ((tokens source).filter Token.isIdentifier).map Token.lexeme

theorem not_isAccepted_of_faults_ne_nil (h : faults source ≠ []) : ¬IsAccepted source := by
  rintro ⟨program, hprogram, hfaults⟩
  refine h ?_
  rw [faults, hprogram]
  exact hfaults

theorem parse_result_eq_ok_iff : (parse source n).result = .ok program ↔
    lexicalFaults source = [] ∧ (Grammar.parse (tokens source) n).result = .ok program := by
  rw [Grammar.Parsed.result_eq_ok_iff, Grammar.Parsed.result_eq_ok_iff, parse,
    List.append_eq_nil_iff]
  tauto

/-- Reading a text gives the same whatever the first node number is, up to the numbers. -/
theorem parse_result_alike (source : String) (n k : NodeId) :
    (∃ faults, (parse source n).result = .error faults ∧
      (parse source k).result = .error faults) ∨
    ∃ program program', (parse source n).result = .ok program ∧
      (parse source k).result = .ok program' ∧
      program'.map Stmt.eraseIds = program.map Stmt.eraseIds := by
  obtain ⟨hfaults, hfinished, hstatements⟩ := Grammar.parse_alike (tokens source) n k
  have hfaults : (parse source k).faults = (parse source n).faults := by
    rw [parse, parse, hfaults]
  by_cases h : (parse source n).finished ∧ (parse source n).faults = []
  · refine .inr ⟨_, _, Grammar.Parsed.result_eq_ok_iff.2 ⟨h.1, h.2, rfl⟩,
      Grammar.Parsed.result_eq_ok_iff.2 ⟨hfinished.trans h.1, hfaults.trans h.2, rfl⟩, hstatements⟩
  · refine .inl ⟨_, Grammar.Parsed.result_of_not h, ?_⟩
    rw [← hfaults]
    refine Grammar.Parsed.result_of_not fun h' => h ⟨hfinished.symm.trans h'.1, ?_⟩
    exact hfaults.symm.trans h'.2

theorem fresh_of_parse (h : (parse source n).result = .ok program) :
    Fresh n (parse source n).nextId (Stmt.occurrencesAll program) := by
  have hfresh := Grammar.parse_fresh (tokens source) n
  have hstatements : (Grammar.parse (tokens source) n).statements = program :=
    (Grammar.Parsed.result_eq_ok_iff.1 (parse_result_eq_ok_iff.1 h).2).2.2
  rwa [hstatements] at hfresh

/-- What holds of all identifiers of a text holds of all names of its program. -/
theorem namedAll_of_parse {P : String → Prop} (h : (parse source n).result = .ok program)
    (hP : ∀ name ∈ identifiers source, P name) : Stmt.NamedAll P program := by
  have hderives := Grammar.derives_of_parse (parse_result_eq_ok_iff.1 h).2
  refine hderives.named fun t ht => ?_
  have hmem : t ∈ tokens source := (List.takeWhile_prefix _).subset ht
  have hspelled := spelled_of_mem_tokens hmem
  refine ⟨fun hidentifier => hP _ ?_, hspelled.lexeme_eq⟩
  exact List.mem_map_of_mem (List.mem_filter.2 ⟨hmem, hidentifier⟩)

/-- No identifier of a text is a keyword. -/
theorem ne_spelling_of_mem_identifiers {name : String} (h : name ∈ identifiers source)
    (k : Keyword) : name ≠ k.spelling := by
  obtain ⟨t, ht, rfl⟩ := List.mem_map.1 h
  obtain ⟨hmem, hidentifier⟩ := List.mem_filter.1 ht
  intro heq
  refine ((spelled_of_mem_tokens hmem).isName hidentifier).ne_spelling k ?_
  rw [heq]

/-- The program is what some text is read as, whether or not scope analysis accepts it. -/
def IsProgram (program : List Stmt) : Prop :=
  ∃ source firstId, (parse source firstId).result = .ok program

end Source

/-! ### Texts handed to a session -/

namespace Session

variable {s s' : Session} {source : String} {program : List Stmt}

/-- The depth table of a session, and the node numbers it has given out. -/
def ids (s : Session) : Numbering := ⟨s.machine.depths, s.nextId⟩

/-- A session between two texts: it stands among the globals, and nothing is recorded for node
numbers that were not given out. -/
structure Ready (s : Session) : Prop where
  current_eq : s.machine.current = globals
  depth?_eq_none : ∀ id, s.nextId ≤ id → s.machine.depths.depth? id = none

/-- Checking a text leads from `s` to `s'`: more node numbers are given out, and there may be
entries for these in the depth table. -/
structure Follows (s s' : Session) : Prop where
  machine_eq : s'.machine = { s.machine with depths := s'.machine.depths }
  extends_ : s.ids.Extends s'.ids
  ready : s'.Ready

/-- The session `s'` has taken over `program`, which is what `source` is read as. -/
structure Takes (s : Session) (source : String) (program : List Stmt) (s' : Session) : Prop
    extends s.Follows s' where
  parse_eq : (Source.parse source s.nextId).result = .ok program
  faults_eq : scopeFaults (analyse program) = []
  tellsAll : s'.ids.TellsAll (Stmt.placedAll .top program)

theorem ready_initial (sink : Sink) (reading : Nat → Float) : (initial sink reading).Ready :=
  ⟨rfl, fun id _ => DepthTable.depth?_empty id⟩

/-- Recording what scope analysis finds in a program makes entries for its uses only. -/
theorem depth?_recordAll_of_fresh {table : DepthTable} {id n k : NodeId}
    (h : Fresh n k (Stmt.occurrencesAll program)) (hid : id < n ∨ k ≤ id) :
    (table.recordAll (analyse program)).depth? id = table.depth? id := by
  refine DepthTable.depth?_recordAll_of_notMem fun depth hmem => ?_
  obtain ⟨⟨site, use⟩, hplaced, rfl, -⟩ := Stmt.hasDepthAll_of_bound hmem
  have huse : use ∈ (Stmt.occurrencesAll program).map Occurrence.use := by
    rw [← Stmt.map_placedAll .top]
    exact List.mem_map_of_mem hplaced
  obtain ⟨o, ho, rfl⟩ := List.mem_map.1 huse
  obtain ⟨hle, hlt⟩ := h.mem o ho
  exact hid.elim hle.not_gt hlt.not_ge

/-- Reading a text gives out node numbers and does nothing else. -/
theorem follows_read (hs : s.Ready) (source : String) : s.Follows (s.read source).2 := by
  have hle : s.nextId ≤ (s.read source).2.nextId :=
    (Grammar.parse_fresh (Source.tokens source) s.nextId).le
  exact ⟨rfl, ⟨hle, fun _ _ => rfl⟩, hs.current_eq,
    fun id hid => hs.depth?_eq_none id (hle.trans hid)⟩

/-- Checking a program makes entries for its uses, which have new numbers. -/
theorem follows_check (hs : s.Ready)
    (hparse : (Source.parse source s.nextId).result = .ok program) :
    s.Follows ((s.read source).2.check program).2 := by
  have hfresh := Source.fresh_of_parse hparse
  refine ⟨rfl, ⟨hfresh.le, fun id hid => depth?_recordAll_of_fresh hfresh (.inl hid)⟩,
    hs.current_eq, fun id hid => ?_⟩
  exact (depth?_recordAll_of_fresh hfresh (.inr hid)).trans
    (hs.depth?_eq_none id (hfresh.le.trans hid))

/-- Then the table tells the depths of all uses, if nothing is wrong with the program. -/
theorem tellsAll_check (hs : s.Ready) (hparse : (Source.parse source s.nextId).result = .ok program)
    (hfaults : scopeFaults (analyse program) = []) :
    ((s.read source).2.check program).2.ids.TellsAll (Stmt.placedAll .top program) := by
  have hfresh := Source.fresh_of_parse hparse
  rintro ⟨site, use⟩ hplaced
  have huse : use ∈ (Stmt.occurrencesAll program).map Occurrence.use := by
    rw [← Stmt.map_placedAll .top]
    exact List.mem_map_of_mem hplaced
  obtain ⟨o, ho, rfl⟩ := List.mem_map.1 huse
  refine ⟨(hfresh.mem o ho).2, depth?_recordAll_analyse hfaults hfresh.nodup ?_ hplaced⟩
  exact fun o ho => hs.depth?_eq_none _ (hfresh.mem o ho).1

/-- A text with a fault is rejected by every session, with the same faults. -/
theorem accept_of_rejected (hs : s.Ready) (h : ¬Source.IsAccepted source) :
    (s.accept source).1 = .error (Source.faults source) ∧ s.Follows (s.accept source).2 := by
  obtain ⟨faults, h₀, hn⟩ | ⟨program, program', h₀, hn, hsame⟩ :=
    Source.parse_result_alike source 0 s.nextId
  · have hread : s.read source = (.error faults, (s.read source).2) := by rw [read, hn]
    have hfaults : Source.faults source = faults := by rw [Source.faults, h₀]
    rw [accept, hread, hfaults]
    exact ⟨rfl, follows_read hs source⟩
  · have hread : s.read source = (.ok program', (s.read source).2) := by rw [read, hn]
    have hfaults : Source.faults source = scopeFaults (analyse program') := by
      rw [Source.faults, h₀, scopeFaults_analyse_eq hsame]
    have hne : scopeFaults (analyse program') ≠ [] := by
      intro hnil
      refine h ⟨program, h₀, ?_⟩
      rwa [← scopeFaults_analyse_eq hsame]
    have hcheck : (s.read source).2.check program' =
        (scopeFaults (analyse program'), ((s.read source).2.check program').2) := rfl
    rw [accept, hread, hfaults]
    dsimp only
    rw [hcheck]
    split
    · next hnil => exact absurd (congrArg Prod.fst hnil) hne
    · next hsome =>
      obtain ⟨rfl, rfl⟩ := Prod.ext_iff.1 hsome
      exact ⟨rfl, follows_check hs hn⟩

/-- A program in which scope analysis finds no fault is taken over, with the depths of its uses. -/
theorem accept_of_result (hparse : (Source.parse source s.nextId).result = .ok program)
    (hfaults : scopeFaults (analyse program) = []) :
    s.accept source = (.ok program, ((s.read source).2.check program).2) := by
  have hread : s.read source = (.ok program, (s.read source).2) := by rw [read, hparse]
  have hcheck : (s.read source).2.check program = ([], ((s.read source).2.check program).2) :=
    Prod.ext hfaults rfl
  rw [accept, hread]
  dsimp only
  rw [hcheck]

theorem accept_of_parse {nextId : NodeId}
    (hparse : Source.parse source s.nextId = ⟨program, [], nextId, true⟩)
    (hfaults : scopeFaults (analyse program) = []) :
    s.accept source = (.ok program, ⟨s.machine.record (analyse program), nextId⟩) := by
  have hresult : (Source.parse source s.nextId).result = .ok program := by
    rw [hparse]
    rfl
  rw [accept_of_result hresult hfaults, read, hparse]
  rfl

/-- A text without faults is accepted by every session, and read as the same program up to node
numbers. -/
theorem accept_of_isAccepted (hs : s.Ready) (h : Source.IsAccepted source) :
    ∃ program s', s.accept source = (.ok program, s') ∧ s.Takes source program s' := by
  obtain ⟨program, h₀, hfaults⟩ := h
  obtain ⟨faults, herror, -⟩ | ⟨program₀, program', h₀', hn, hsame⟩ :=
    Source.parse_result_alike source 0 s.nextId
  · rw [h₀] at herror
    cases herror
  · obtain rfl : program = program₀ := Except.ok.inj (h₀.symm.trans h₀')
    have hfaults' : scopeFaults (analyse program') = [] := by rwa [scopeFaults_analyse_eq hsame]
    exact ⟨program', _, accept_of_result hn hfaults', follows_check hs hn, hn, hfaults',
      tellsAll_check hs hn hfaults'⟩

/-- What a session takes over is an accepted text. -/
theorem takes_of_accept (hs : s.Ready) (h : s.accept source = (.ok program, s')) :
    s.Takes source program s' := by
  by_cases haccepted : Source.IsAccepted source
  · obtain ⟨program', s'', heq, htakes⟩ := accept_of_isAccepted hs haccepted
    rw [h] at heq
    obtain ⟨hprogram, rfl⟩ := Prod.ext_iff.1 heq
    obtain rfl := Except.ok.inj hprogram
    exact htakes
  · have hrejected := (accept_of_rejected hs haccepted).1
    rw [h] at hrejected
    cases hrejected

end Session

end Treewalk
