import Mathlib
import Treewalk.Proofs.Lexing.Changes
import Treewalk.Proofs.Scope.Sequence
import Treewalk.Proofs.Session.Moments

/-!
# Two texts in one

If two texts are accepted, so is the text in which the second one stands below the first one, and
running it is the same as running the two in turn. Its program is that of the first text followed by
that of the second one, moved down; the former runs as the first program does, and the latter as the
second program does behind it. A fault is reported further down if it is raised in the code of the
second text.

## Main definitions

* `Setting.below` — two programs in turn, and the two in one
* `Session.EndsBelow` — how the run of the second text ends when it stands below the first one

## Main results

* `Source.parse_append`, `Source.parse_lower` — the program of the whole text, and that of a text
  below empty lines
* `Session.run_append_of_halt`, `Session.run_append_of_done` — it begins as the first program does
* `Session.steps_append` — the whole text runs as the two texts in turn
* `Session.EndsBelow.unique`, `Session.EndsBelow.exists_line` — the line of a fault tells the text
  whose code fails

## Implementation notes

If both texts declare the same function on the same lines, then the line of a fault in it does not
tell which of the two functions was called. So the two texts are also run in turn with the second
one below as many empty lines as the first one has lines. This changes nothing but the lines of the
second text, none of which is a line of the first one any more; and the whole text ends in the same
way and on the same line.
-/

namespace Treewalk

/-! ### The program of the whole text -/

/-- A program followed by another one. -/
theorem Grammar.derives_append {rule : ElseRule} {w w' : List Token} {program program' : List Stmt}
    (h : StmtPhrase.declarations.Derives rule w program)
    (h' : StmtPhrase.declarations.Derives rule w' program') :
    StmtPhrase.declarations.Derives rule (w ++ w') (program ++ program') := by
  match h with
  | .noDeclaration => exact h'
  | .declaration hs hrest =>
    rw [List.append_assoc]
    exact .declaration hs (derives_append hrest h')

namespace Source

variable {source source' : String} {program program' : List Stmt} {n n' : NodeId}

/-- A program read from a text is a twin of the same program further down. -/
theorem twinAll_of_parse (h : (parse source n).result = .ok program)
    (hfaults : scopeFaults (analyse program) = []) {lines : Nat}
    (hsame : program'.map Stmt.eraseIds =
      (program.map (Stmt.relabel (.down lines))).map Stmt.eraseIds) :
    Stmt.TwinAll ⟨.plain, lines⟩ (Paired ⟨.plain, lines⟩) .top [] program program' := by
  have hnamed : Stmt.NamedAll Respelling.plain.Admits program :=
    namedAll_of_parse h fun _ => Session.admits_plain
  have hdown : Stmt.TwinAll ⟨.plain, lines⟩ (Paired ⟨.plain, lines⟩) .top [] program
      (program.map (Stmt.relabel (.down lines))) :=
    twinAll_down rfl Respelling.fair_plain hnamed hfaults
  exact hdown.of_eraseIds_eq hsame

/-- The tokens of a text further down are those of its program further down. -/
theorem derives_down (h : (parse source n).result = .ok program)
    (hfaults : scopeFaults (analyse program) = []) (lines : Nat) :
    Grammar.StmtPhrase.declarations.Derives .nearest ((content source).map (·.down lines))
      (program.map (Stmt.relabel (.down lines))) := by
  have hderives := Grammar.derives_of_parse (parse_result_eq_ok_iff.1 h).2
  have htwin : Stmt.TwinAll ⟨.plain, lines⟩ (Paired _) .top [] program _ :=
    twinAll_of_parse h hfaults rfl
  obtain ⟨w, hw, hdown⟩ := Grammar.derives_twin Respelling.fair_plain hderives htwin
  obtain rfl := Grammar.tokensTwin_eq rfl hw
  exact hdown

/-- Nothing is wrong with a program further down if nothing is wrong with it. -/
theorem scopeFaults_down (h : (parse source n).result = .ok program)
    (hfaults : scopeFaults (analyse program) = []) (lines : Nat) :
    scopeFaults (analyse (program.map (Stmt.relabel (.down lines)))) = [] := by
  have htwin : Stmt.TwinAll ⟨.plain, lines⟩ (Paired _) .top [] program _ :=
    twinAll_of_parse h hfaults rfl
  exact (htwin.analyse Respelling.fair_plain .top).2 hfaults

/-- The program of two texts, one below the other, is that of the first one followed by that of the
second one, as it is found further down. -/
theorem parse_append (h : (parse source n).result = .ok program)
    (h' : (parse source' n').result = .ok program')
    (hfaults : scopeFaults (analyse program') = []) (k : NodeId) :
    ∃ whole, (parse (source ++ "\n" ++ source') k).result = .ok whole ∧
      whole.map Stmt.eraseIds = (program ++
        program'.map (Stmt.relabel (.down (source.toList.count '\n' + 1)))).map Stmt.eraseIds := by
  obtain ⟨hlexical, hgrammar⟩ := parse_result_eq_ok_iff.1 h
  obtain ⟨hnone, hcontent⟩ := content_append hlexical (parse_result_eq_ok_iff.1 h').1
  have hderives := Grammar.derives_append (Grammar.derives_of_parse hgrammar)
    (derives_down h' hfaults (source.toList.count '\n' + 1))
  obtain ⟨whole, hwhole, hsame⟩ := Grammar.parse_of_derives k (hcontent ▸ hderives)
  exact ⟨whole, parse_result_eq_ok_iff.2 ⟨hnone, hwhole⟩, hsame⟩

/-- The program of a text below empty lines is that of the text, as it is found further down. -/
theorem parse_lower (h : (parse source n).result = .ok program)
    (hfaults : scopeFaults (analyse program) = []) (lines : Nat) (k : NodeId) :
    ∃ lowered, (parse (lower lines source) k).result = .ok lowered ∧
      lowered.map Stmt.eraseIds =
        (program.map (Stmt.relabel (.down lines))).map Stmt.eraseIds := by
  obtain ⟨hnone, hcontent⟩ := content_lower (parse_result_eq_ok_iff.1 h).1 lines
  have hderives := derives_down h hfaults lines
  obtain ⟨lowered, hlowered, hsame⟩ := Grammar.parse_of_derives k (hcontent ▸ hderives)
  exact ⟨lowered, parse_result_eq_ok_iff.2 ⟨hnone, hlowered⟩, hsame⟩

/-- Nothing is wrong with two texts, one below the other, if nothing is wrong with either. -/
theorem isAccepted_append (h : IsAccepted source) (h' : IsAccepted source') :
    IsAccepted (source ++ "\n" ++ source') := by
  obtain ⟨program, hprogram, hfaults⟩ := h
  obtain ⟨program', hprogram', hfaults'⟩ := h'
  obtain ⟨whole, hwhole, hsame⟩ := parse_append hprogram hprogram' hfaults' 0
  refine ⟨whole, hwhole, ?_⟩
  rw [scopeFaults_analyse_eq hsame, scopeFaults_analyse_append]
  exact ⟨hfaults, scopeFaults_down hprogram' hfaults' _⟩

theorem isAccepted_lower (h : IsAccepted source) (lines : Nat) :
    IsAccepted (lower lines source) := by
  obtain ⟨program, hprogram, hfaults⟩ := h
  obtain ⟨lowered, hlowered, hsame⟩ := parse_lower hprogram hfaults lines 0
  refine ⟨lowered, hlowered, ?_⟩
  rw [scopeFaults_analyse_eq hsame]
  exact scopeFaults_down hprogram hfaults lines

end Source

/-! ### Programs in turn -/

namespace Eval

variable {fuel : Nat} {ss ss' : List Stmt} {m m₁ : Machine} {u : Unit} {halt : Halt}

theorem executeProgram_append (fuel : Nat) (ss ss' : List Stmt) :
    executeProgram fuel (ss ++ ss') = (do
      executeProgram fuel ss
      executeProgram fuel ss') := by
  induction ss with
  | nil => rfl
  | cons s rest ih =>
    show (execute fuel s >>= fun _ => executeProgram fuel (rest ++ ss')) = _
    rw [ih, executeProgram, bind_assoc]

/-- Where the first program ends, the second one begins. -/
theorem interpret_append_of_ok (h : executeProgram fuel ss m = .ok u m₁) :
    interpret fuel (ss ++ ss') m = interpret fuel ss' m₁ := by
  rw [interpret, executeProgram_append, bind_assoc, bind_eq_of_ok h]
  rfl

theorem interpret_append_of_error (h : executeProgram fuel ss m = .error halt m₁) :
    interpret fuel (ss ++ ss') m = .error halt m₁ := by
  rw [interpret, executeProgram_append, bind_assoc, bind_eq_error h]

theorem interpret_of_error (h : executeProgram fuel ss m = .error halt m₁) :
    interpret fuel ss m = .error halt m₁ := by
  rw [interpret, bind_eq_error h]

/-- If flushing does not fail, a program ends where its last statement does. -/
theorem interpret_of_ok (h : executeProgram fuel ss m = .ok u m₁)
    (hflush : m₁.sink.flushFails = false) : interpret fuel ss m = .ok () m₁ := by
  rw [interpret, bind_eq_of_ok h, flushOutput]
  simp only [bind, EStateM.bind, get, getThe, MonadStateOf.get, EStateM.get, Sink.flush, hflush]
  rfl

end Eval

open Eval

/-- The runs of two programs in turn, and that of the two in one, where the second program is
further down. -/
def Setting.below (lines : Nat) : Setting where
  toRespelling := .plain
  lines := fun origin => if origin = 0 then 0 else lines
  frames := 0
  objects := 0
  stamps := 0
  stale := fun _ => False
  before := .empty
  before' := .empty

namespace Session

variable {s s' : Session} {program first second : List Stmt} {fuel lines : Nat}

/-- The beginning and the rest of the program of two texts are the programs of the two. -/
theorem Takes.parts {s₀ s₁ s₂ s₃ t₀ t : Session} {above below : String}
    {program program' whole : List Stmt} (h : s₀.Takes above program s₁)
    (h' : s₂.Takes below program' s₃) (hwhole : t₀.Takes (above ++ "\n" ++ below) whole t) :
    (whole.take program.length).map Stmt.eraseIds = program.map Stmt.eraseIds ∧
      (whole.drop program.length).map Stmt.eraseIds =
        (program'.map (Stmt.relabel (.down (above.toList.count '\n' + 1)))).map Stmt.eraseIds := by
  obtain ⟨whole', hparse, hsame⟩ :=
    Source.parse_append h.parse_eq h'.parse_eq h'.faults_eq t₀.nextId
  rw [hwhole.parse_eq] at hparse
  obtain rfl := Except.ok.inj hparse
  rw [List.map_append] at hsame
  have hlength : (program.map Stmt.eraseIds).length = program.length := List.length_map _
  rw [List.map_take, List.map_drop, hsame, List.take_left' hlength, List.drop_left' hlength]
  exact ⟨rfl, rfl⟩

/-- The program of a text below empty lines is that of the text, further down. -/
theorem Takes.lower_eq {s₀ s₁ t₀ t : Session} {source : String} {program lowered : List Stmt}
    (h : s₀.Takes source program s₁) (h' : t₀.Takes (Source.lower lines source) lowered t) :
    lowered.map Stmt.eraseIds =
      (program.map (Stmt.relabel (.down lines))).map Stmt.eraseIds := by
  obtain ⟨lowered', hparse, hsame⟩ := Source.parse_lower h.parse_eq h.faults_eq lines t₀.nextId
  rw [h'.parse_eq] at hparse
  obtain rfl := Except.ok.inj hparse
  exact hsame

theorem Takes.tellsAll_part {s₀ : Session} {source : String} (h : s₀.Takes source program s)
    (length : Nat) : s.ids.TellsAll (Stmt.placedAll .top (program.take length)) ∧
      s.ids.TellsAll (Stmt.placedAll .top (program.drop length)) := by
  have htells := h.tellsAll
  rwa [← List.take_append_drop length program, Numbering.tellsAll_placedAll_append] at htells

/-- A program is linked to the part of a whole program that stands for it, some lines further
down. -/
theorem Takes.linked_part {s₀ t : Session} {source : String} {part : List Stmt}
    (h : s₀.Takes source program s) (hsame : part.map Stmt.eraseIds =
      (program.map (Stmt.relabel (.down lines))).map Stmt.eraseIds)
    (htells : t.ids.TellsAll (Stmt.placedAll .top part)) :
    Stmt.TwinAll ⟨.plain, lines⟩ (Linked ⟨.plain, lines⟩ s.ids t.ids) .top [] program part :=
  (Source.twinAll_of_parse h.parse_eq h.faults_eq hsame).link Respelling.fair_plain .top
    Site.tidy_top h.faults_eq h.tellsAll htells

theorem machine_of_error (halt : Halt) (m : Machine) :
    (outcomeOf (.error halt m : EStateM.Result Halt Machine Unit)).2 = m := by
  cases halt <;> rfl

/-- If the first program halts, so does the whole one, in the same way. -/
theorem run_append_of_halt {m₁ : Machine} {halt : Halt}
    (h : InStep (fun _ _ => True) .plain 0 s s')
    (hlinked : Stmt.TwinAll ⟨.plain, 0⟩ (Linked ⟨.plain, 0⟩ s.ids s'.ids) .top [] program first)
    (hhalt : executeProgram fuel program s.machine = .error halt m₁) :
    (s'.machine.run fuel (first ++ second)).1 = (s.machine.run fuel program).1 ∧
      (s'.machine.run fuel (first ++ second)).2.sink = (s.machine.run fuel program).2.sink := by
  have hruns : Runs (fun _ _ => True) .plain (s.beside s' 0) (executeProgram fuel program)
      (executeProgram fuel first) fun _ _ _ => True :=
    Runs.executeProgram h.at_top hlinked (.root trivial)
  obtain ⟨halt', p, hhalt', rfl, hk, -⟩ := hruns.exists_of_error hhalt nofun
  obtain ⟨-, -, -, -, houtcome⟩ := hruns.outcome nofun
  have houtcome : Outcome.Twin _ _ (outcomeOf (executeProgram fuel program s.machine)).1
    (outcomeOf (executeProgram fuel first s'.machine)).1 := houtcome
  have hhalt' : executeProgram fuel first s'.machine = .error halt' p.right := hhalt'
  rw [Machine.run, Machine.run, interpret_append_of_error hhalt', interpret_of_error hhalt,
    machine_of_error, machine_of_error]
  rw [hhalt, hhalt'] at houtcome
  exact ⟨houtcome.eq fun _ => rfl, hk.sound.sinks.eq_of_before_eq rfl⟩

/-- If the first program comes to its end, the second one goes on from there, and the machines are
still in step. -/
theorem run_append_of_done {R : Place → Moment → Prop} {m₁ : Machine}
    (h : InStep R (.below lines) 0 s s')
    (hlinked : Stmt.TwinAll ⟨.plain, 0⟩ (Linked ⟨.plain, 0⟩ s.ids s'.ids) .top [] program first)
    (hroot : R (.top 0) (.program fuel program s.machine))
    (hflush : s.machine.sink.flushFails = false)
    (hdone : executeProgram fuel program s.machine = .ok () m₁) :
    s.machine.run fuel program = (.success, m₁) ∧ m₁.depths = s.machine.depths ∧
      s.machine.sink.Extends m₁.sink ∧ ∃ m₁', m₁'.depths = s'.machine.depths ∧
        (∀ second, s'.machine.run fuel (first ++ second) = m₁'.run fuel second) ∧
        InStep R (.below lines) 0 { s with machine := m₁ } { s' with machine := m₁' } := by
  have hruns : Runs R (.below lines) (s.beside s' 0) (executeProgram fuel program)
      (executeProgram fuel first) fun _ _ _ => True :=
    Runs.executeProgram h.at_top hlinked (.root hroot)
  obtain ⟨_, p, hdone', rfl, hk, -⟩ := hruns.exists_of_ok hdone
  have hflush' : p.left.sink.flushFails = false := hk.sink_extends.flushFails_eq.trans hflush
  have hrun : s.machine.run fuel program = (.success, p.left) := by
    rw [Machine.run, interpret_of_ok hdone hflush']
    rfl
  have hdone' : executeProgram fuel first s'.machine = .ok _ p.right := hdone'
  have hrun' (second : List Stmt) :
      s'.machine.run fuel (first ++ second) = p.right.run fuel second := by
    rw [Machine.run, interpret_append_of_ok hdone', Machine.run]
  exact ⟨hrun, congrArg Numbering.table hk.leftIds_eq, hk.sink_extends, p.right,
    congrArg Numbering.table hk.rightIds_eq, hrun', h.of_kept rfl hk⟩

/-- Checking a text writes nothing. -/
theorem Follows.sink_eq (h : s.Follows s') : s'.machine.sink = s.machine.sink := by
  rw [h.machine_eq]

theorem follows_refl (hs : s.Ready) : s.Follows s := ⟨rfl, .refl _, hs⟩

/-! ### Two texts -/

/-- How the second of two texts ends when it stands below as many empty lines as the first one has
lines. No line holds tokens of both texts then. -/
def endsLowered (s : Session) (fuel : Nat) (above below : String) : Outcome :=
  ((s.run fuel above).2.run fuel (Source.lower (above.toList.count '\n' + 1) below)).1

/-- How the second of two texts ends, and how it ends when it stands below the first one: a fault
that is raised at a token of its own is reported further down. It ends below the first one as it
does below empty lines, where the line of a fault tells the text in whose code it is raised. -/
inductive EndsBelow (s : Session) (fuel : Nat) (above below : String) : Outcome → Outcome → Prop
  | same {o : Outcome} (h : ∀ line cause, o ≠ .failed (.runtime line cause))
      (hlowered : s.endsLowered fuel above below = o) : EndsBelow s fuel above below o o
  | above {place : Place} {moment : Moment} {token : Token} {cause : RuntimeFault}
      (hh : Happens (s.Begins fuel [above, below]) place moment)
      (hraises : Raises moment token cause) (horigin : place.origin = 0)
      (htoken : token ∈ Source.tokens above)
      (hlowered : s.endsLowered fuel above below = .failed (.runtime token.line cause)) :
      EndsBelow s fuel above below (.failed (.runtime token.line cause))
        (.failed (.runtime token.line cause))
  | below {place : Place} {moment : Moment} {token : Token} {cause : RuntimeFault}
      (hh : Happens (s.Begins fuel [above, below]) place moment)
      (hraises : Raises moment token cause) (horigin : place.origin = 1)
      (htoken : token ∈ Source.tokens below)
      (hlowered : s.endsLowered fuel above below =
        .failed (.runtime (token.line + (above.toList.count '\n' + 1)) cause)) :
      EndsBelow s fuel above below (.failed (.runtime token.line cause))
        (.failed (.runtime (token.line + (above.toList.count '\n' + 1)) cause))

namespace EndsBelow

variable {above below : String} {o o' o'' : Outcome}

theorem endsLowered_eq (h : EndsBelow s fuel above below o o') :
    s.endsLowered fuel above below = o' := by
  cases h with
  | same h hlowered => exact hlowered
  | above hh hraises horigin htoken hlowered => exact hlowered
  | below hh hraises horigin htoken hlowered => exact hlowered

/-- Below the first text the second one can end in one way only. -/
theorem unique (h : EndsBelow s fuel above below o o') (h' : EndsBelow s fuel above below o o'') :
    o' = o'' :=
  h.endsLowered_eq.symm.trans h'.endsLowered_eq

/-- A fault is reported further down exactly if its line is not one of the first text, all of which
come before those of the second one. -/
theorem exists_line {line : Nat} {cause : RuntimeFault}
    (h : EndsBelow s fuel above below (.failed (.runtime line cause)) o') :
    ∃ line', o' = .failed (.runtime line' cause) ∧
      line' = if line' ≤ above.toList.count '\n' + 1 then line
        else line + (above.toList.count '\n' + 1) := by
  generalize ho : Outcome.failed (.runtime line cause) = o at h
  cases h with
  | same h hlowered => exact absurd ho.symm (h line cause)
  | above hh hraises horigin htoken hlowered =>
    injection ho with ho
    injection ho with hline hcause
    rw [hline, hcause]
    exact ⟨_, rfl, (if_pos (Source.line_bounds_of_mem_tokens htoken).2).symm⟩
  | below hh hraises horigin htoken hlowered =>
    injection ho with ho
    injection ho with hline hcause
    rw [hline, hcause]
    refine ⟨_, rfl, (if_neg ?_).symm⟩
    have := (Source.line_bounds_of_mem_tokens htoken).1
    omega

end EndsBelow

section Initial

variable {sink : Sink} {reading : Nat → Float} {above below second : String}

/-- A fault is raised at a token of one of the two texts. -/
theorem endsBelow_of_twin {o o' : Outcome}
    (h : Outcome.Twin ((initial sink reading).Begins fuel [above, below])
      (.below (above.toList.count '\n' + 1)) o o')
    (hlowered : (initial sink reading).endsLowered fuel above below = o') :
    EndsBelow (initial sink reading) fuel above below o o' := by
  revert hlowered
  cases h with
  | success => exact .same nofun
  | exhausted => exact .same nofun
  | failed h =>
    cases h with
    | output => exact .same nofun
    | @fault place moment token cause hh hraises =>
      obtain ⟨source, hsource, htoken⟩ := exists_source_of_raises sink reading hh hraises
      match horigin : place.origin with
      | 0 =>
        rw [horigin] at hsource
        obtain rfl : above = source := Option.some.inj hsource
        exact .above hh hraises horigin htoken
      | 1 =>
        rw [horigin] at hsource
        obtain rfl : below = source := Option.some.inj hsource
        exact .below hh hraises horigin htoken
      | origin + 2 =>
        rw [horigin] at hsource
        cases hsource

section Whole

variable {whole : List Stmt} {s₁ t₁ : Session} {m₁ : Machine} {halt : Halt}
  (htakes : (initial sink reading).Takes above program s₁) (hbelow : Source.IsAccepted below)
  (htakesWhole : (initial sink reading).Takes (above ++ "\n" ++ below) whole t₁)
include htakes hbelow htakesWhole

/-- The program of the first text is linked to the beginning of the whole program. -/
theorem linked_first :
    Stmt.TwinAll ⟨.plain, 0⟩ (Linked ⟨.plain, 0⟩ s₁.ids t₁.ids) .top [] program
      (whole.take program.length) := by
  obtain ⟨program', s', -, htakes'⟩ := accept_of_isAccepted (ready_initial sink reading) hbelow
  obtain ⟨hfirst, -⟩ := htakes.parts htakes' htakesWhole
  refine htakes.linked_part ?_ (htakesWhole.tellsAll_part program.length).1
  rw [hfirst, Stmt.map_relabel_down_zero]

/-- Below empty lines the second text is read as the rest of the whole program. -/
theorem rest_lower {t t' : Session} {program' : List Stmt}
    (h : t.Takes (Source.lower (above.toList.count '\n' + 1) below) program' t') :
    (whole.drop program.length).map Stmt.eraseIds =
      (program'.map (Stmt.relabel (.down 0))).map Stmt.eraseIds := by
  obtain ⟨program₂, s₂, -, htakes₂⟩ := accept_of_isAccepted (ready_initial sink reading) hbelow
  rw [(htakes.parts htakes₂ htakesWhole).2, Stmt.map_relabel_down_zero]
  exact (htakes₂.lower_eq h).symm

variable (haccept : (initial sink reading).accept above = (.ok program, s₁))
  (hacceptWhole : (initial sink reading).accept (above ++ "\n" ++ below) = (.ok whole, t₁))
include haccept hacceptWhole

/-- If the first text halts, the whole text ends as it does. -/
theorem run_whole_of_halt (hhalt : executeProgram fuel program s₁.machine = .error halt m₁) :
    ((initial sink reading).run fuel above).1 ≠ .success ∧
      ((initial sink reading).run fuel (above ++ "\n" ++ below)).1 =
        ((initial sink reading).run fuel above).1 ∧
      ((initial sink reading).run fuel (above ++ "\n" ++ below)).2.machine.sink =
        ((initial sink reading).run fuel above).2.machine.sink := by
  have hstep : InStep (fun _ _ => True) .plain 0 s₁ t₁ :=
    (initial_inStep sink reading 0).follow htakes.toFollows htakesWhole.toFollows
  have hne : (s₁.machine.run fuel program).1 ≠ .success := by
    rw [Machine.run, interpret_of_error hhalt]
    cases halt <;> nofun
  rw [run_of_takes haccept, run_of_takes hacceptWhole,
    ← List.take_append_drop program.length whole]
  exact ⟨hne, run_append_of_halt hstep (linked_first htakes hbelow htakesWhole) hhalt⟩

variable (hflush : sink.flushFails = false)
  (hdone : executeProgram fuel program s₁.machine = .ok () m₁)
include hflush hdone

/-- If the first text comes to its end, the whole text goes on as any text does behind it whose
program, some lines further down, is the rest of the whole program. -/
theorem run_whole_of_done (hsecond : Source.IsAccepted second)
    (hrest : ∀ {t t' : Session} {program' : List Stmt}, t.Takes second program' t' →
      (whole.drop program.length).map Stmt.eraseIds =
        (program'.map (Stmt.relabel (.down lines))).map Stmt.eraseIds) :
    ((initial sink reading).run fuel above).1 = .success ∧
      ((initial sink reading).run fuel (above ++ "\n" ++ below)).2.machine.sink =
        (((initial sink reading).run fuel above).2.run fuel second).2.machine.sink ∧
      sink.Extends ((initial sink reading).run fuel above).2.machine.sink ∧
      ((initial sink reading).run fuel above).2.machine.sink.Extends
        (((initial sink reading).run fuel above).2.run fuel second).2.machine.sink ∧
      Outcome.Twin ((initial sink reading).Begins fuel [above, second]) (.below lines)
        (((initial sink reading).run fuel above).2.run fuel second).1
        ((initial sink reading).run fuel (above ++ "\n" ++ below)).1 := by
  have hstep : InStep ((initial sink reading).Begins fuel [above, second]) (.below lines) 0
      (initial sink reading) (initial sink reading) :=
    ⟨Pair.sound_initial rfl rfl rfl rfl rfl sink reading 0, ready_initial sink reading,
      ready_initial sink reading⟩
  have hflush₁ : s₁.machine.sink.flushFails = false := by
    rw [htakes.sink_eq]
    exact hflush
  obtain ⟨hrun, -, hsink, m₁', hdepths, hrunWhole, hstep₁⟩ := run_append_of_done
    (hstep.follow htakes.toFollows htakesWhole.toFollows) (linked_first htakes hbelow htakesWhole)
    (.first haccept fuel [second]) hflush₁ hdone
  obtain ⟨program', s₂, haccept₂, htakes₂⟩ := accept_of_isAccepted hstep₁.left hsecond
  have hstep₂ := (hstep₁.follow htakes₂.toFollows (follows_refl hstep₁.right)).later (Nat.zero_le 1)
  have hids : ({ t₁ with machine := m₁' } : Session).ids = t₁.ids := by rw [ids, ids, hdepths]
  have hlinked := htakes₂.linked_part (hrest htakes₂)
    (hids ▸ (htakesWhole.tellsAll_part program.length).2)
  have hrunAbove : (initial sink reading).run fuel above =
      (.success, { s₁ with machine := m₁ }) := by
    rw [run_of_takes haccept, hrun]
  have hbegins : (initial sink reading).Begins fuel [above, second] (.top 1)
      (.program fuel program' s₂.machine) := by
    have hsources : [above, second] = [above] ++ second :: [] := rfl
    refine .mk hsources ?_
    show ((initial sink reading).run fuel above).2.accept second = _
    rw [hrunAbove, haccept₂]
  obtain ⟨p, hk, hleft, hright, houtcome⟩ :=
    (hstep₂.interpret fuel hlinked (.root hbegins)).outcome fun _ => False.elim
  have hleft : (s₂.machine.run fuel program').2 = p.left := hleft
  have hright : (m₁'.run fuel (whole.drop program.length)).2 = p.right := hright
  rw [hrunAbove, run_of_takes haccept₂, run_of_takes hacceptWhole,
    ← List.take_append_drop program.length whole, hrunWhole, hleft, hright]
  refine ⟨rfl, hk.sound.sinks.eq_of_before_eq rfl, ?_, ?_, houtcome⟩
  · rw [htakes.sink_eq] at hsink
    exact hsink
  · have hsink₂ : s₂.machine.sink.Extends p.left.sink := hk.sink_extends
    rw [htakes₂.sink_eq] at hsink₂
    exact hsink₂

/-- Then it ends on the same line as the second text does below empty lines. -/
theorem endsLowered_of_done : (initial sink reading).endsLowered fuel above below =
    ((initial sink reading).run fuel (above ++ "\n" ++ below)).1 := by
  obtain ⟨-, -, -, -, htwin⟩ := run_whole_of_done htakes hbelow htakesWhole haccept hacceptWhole
    hflush hdone (Source.isAccepted_lower hbelow _) (rest_lower htakes hbelow htakesWhole)
  exact (htwin.eq fun _ => ite_self 0).symm

end Whole

/-- **Two texts in one.** If two texts are accepted and flushing does not fail, then the text in
which the second one stands below the first one is accepted, and runs as the two in turn. If the
first text does not end with success, then the whole text ends as it does, and writes the same.
Otherwise it writes what the two write, and ends as the second one does, except that a fault raised
at a token of the second text is reported as many lines further down as the first text has. -/
theorem steps_append (sink : Sink) (reading : Nat → Float) (fuel : Nat) (above below : String)
    (habove : Source.IsAccepted above) (hbelow : Source.IsAccepted below)
    (hflush : sink.flushFails = false) :
    Source.IsAccepted (above ++ "\n" ++ below) ∧ ∃ o₁ output₁ o₂ output₂ o output,
      (initial sink reading).steps fuel [above, below] = [(o₁, output₁), (o₂, output₂)] ∧
      (initial sink reading).steps fuel [above ++ "\n" ++ below] = [(o, output)] ∧
      (o₁ ≠ .success → o = o₁ ∧ output = output₁) ∧
      (o₁ = .success → output = output₁ ++ output₂ ∧
        EndsBelow (initial sink reading) fuel above below o₂ o) := by
  have hready := ready_initial sink reading
  obtain ⟨program, s₁, haccept, htakes⟩ := accept_of_isAccepted hready habove
  have haccepted := Source.isAccepted_append habove hbelow
  obtain ⟨whole, t₁, hacceptWhole, htakesWhole⟩ := accept_of_isAccepted hready haccepted
  refine ⟨haccepted, _, _, _, _, _, _, steps_pair _ _ _ _, steps_cons _ _ _ _, ?_⟩
  cases hend : executeProgram fuel program s₁.machine with
  | error halt m₁ =>
    obtain ⟨hne, houtcome, hsink⟩ :=
      run_whole_of_halt htakes hbelow htakesWhole haccept hacceptWhole hend
    refine ⟨fun _ => ⟨houtcome, ?_⟩, fun hsuccess => absurd hsuccess hne⟩
    rw [Machine.outputFrom, Machine.outputFrom, hsink]
  | ok _ m₁ =>
    obtain ⟨hsuccess, hsink, hfirst, hsecond, htwin⟩ :=
      run_whole_of_done htakes hbelow htakesWhole haccept hacceptWhole hflush hend hbelow
        fun h => (htakes.parts h htakesWhole).2
    have hlowered :=
      endsLowered_of_done htakes hbelow htakesWhole haccept hacceptWhole hflush hend
    refine ⟨fun hne => absurd hsuccess hne, fun _ => ⟨?_, endsBelow_of_twin htwin hlowered⟩⟩
    obtain ⟨output₁, hwritten₁⟩ := hfirst.written
    obtain ⟨output₂, hwritten₂⟩ := hsecond.written
    have hwritten := congrArg Sink.written hsink
    rw [hwritten₂, hwritten₁, ByteArray.append_assoc] at hwritten
    have hinitial : (initial sink reading).machine.sink.written = sink.written := rfl
    rw [hinitial, outputFrom_eq hwritten, outputFrom_eq hwritten₁, outputFrom_eq hwritten₂]

end Initial

/-- A function that fails if its argument is not a number, and a call that makes it fail. -/
def negationText : String := "fun f(x) \x7b\n  return -x;\n\x7d"

def callText : String := "f(nil);"

def negationProgram : List Stmt :=
  [.function ⟨⟨.identifier, "f", 1⟩, [⟨.identifier, "x", 1⟩],
    [.return ⟨.keyword .return, "return", 2⟩
      (some (.unary ⟨.symbol .minus, "-", 2⟩ (.variable ⟨0, ⟨.identifier, "x", 2⟩⟩)))]⟩]

def callProgram : List Stmt :=
  [.expression (.call (.variable ⟨0, ⟨.identifier, "f", 1⟩⟩) ⟨.symbol .rightParen, ")", 1⟩
    [.literal .nil])]

set_option maxRecDepth 100000 in
theorem parse_negationText : Source.parse negationText 0 = ⟨negationProgram, [], 1, true⟩ := by
  cbv

set_option maxRecDepth 100000 in
theorem parse_callText : Source.parse callText 0 = ⟨callProgram, [], 1, true⟩ := by
  cbv

set_option maxRecDepth 100000 in
theorem steps_callText : (initial .unbounded fun _ => 0).steps 20 [negationText, callText] =
    [(.success, .empty), (.failed (.runtime 2 .operandNotNumber), .empty)] := by
  cbv

/-- The fault is raised in the function, so that it is reported where the function stands, although
the call is further down. -/
theorem steps_append_callText :
    (initial .unbounded fun _ => 0).steps 20 [negationText ++ "\n" ++ callText] =
      [(.failed (.runtime 2 .operandNotNumber), .empty)] := by
  have habove : Source.IsAccepted negationText :=
    ⟨negationProgram, by rw [parse_negationText]; rfl, rfl⟩
  have hbelow : Source.IsAccepted callText := ⟨callProgram, by rw [parse_callText]; rfl, rfl⟩
  obtain ⟨-, o₁, output₁, o₂, output₂, o, output, hsteps, hwhole, -, hsuccess⟩ :=
    steps_append .unbounded (fun _ => 0) 20 negationText callText habove hbelow rfl
  rw [steps_callText] at hsteps
  obtain ⟨⟨rfl, rfl⟩, ho₂, rfl⟩ : (Outcome.success = o₁ ∧ ByteArray.empty = output₁) ∧
      Outcome.failed (.runtime 2 .operandNotNumber) = o₂ ∧ ByteArray.empty = output₂ := by
    simpa using hsteps
  obtain ⟨rfl, hends⟩ := hsuccess rfl
  rw [hwhole, ho₂]
  have hlines : ∀ t ∈ Source.tokens callText, t.line = 1 := by decide +kernel
  cases hends with
  | same h hlowered => rfl
  | above hh hraises horigin htoken hlowered => rfl
  | below hh hraises horigin htoken hlowered =>
    -- no token of the call is in the second line
    have hline := hlines _ htoken
    injection ho₂ with ho₂
    injection ho₂ with htwo
    rw [← htwo] at hline
    cases hline

end Session

end Treewalk
