import Mathlib
import Treewalk.Proofs.Lexing.Changes
import Treewalk.Proofs.Scope.Corresponding
import Treewalk.Proofs.Session.InStep

/-!
# Renaming a local variable of a source text

If a local variable or a parameter of an accepted text is renamed, together with the uses that
belong to it, and the new name is nowhere in the text, then the renamed program is the program of a
text as well. Any such text is accepted, its uses have the same depths, and it runs in the same way:
the two runs are in step, and their frames hold the same values under names that correspond to each
other.

## Main definitions

* `Stmt.renameAll` — the program with a variable of one scope renamed
* `Source.ReadsAs` — a text of a program

## Main results

* `Session.run_renamed` — the renamed program is accepted, and does the same
-/

namespace Treewalk

/-- One name is replaced by another, and any name may be used. -/
def Respelling.renaming (old new : String) : Respelling := ⟨old, new, fun _ => False, id, id⟩

/-- The program in which the variable `old` of the `scope`-th scope is called `new`. The scopes are
counted from zero on, as `Stmt.localNamesAll` lists them. -/
def Stmt.renameAll (old new : String) (scope : Nat) (program : List Stmt) : List Stmt :=
  Stmt.editAll ⟨.renaming old new, 0⟩ .top [] (scope + 1) program

/-- Two machines with the same frames and objects, one of which runs the renamed program. -/
def Setting.renaming (old new : String) : Setting :=
  ⟨.renaming old new, fun _ => 0, 0, 0, 0, fun _ => False, .empty, .empty⟩

/-- The text is read as the program, up to node numbers. -/
def Source.ReadsAs (source : String) (program : List Stmt) : Prop :=
  ∃ program', (parse source 0).result = .ok program' ∧
    program'.map Stmt.eraseIds = program.map Stmt.eraseIds

namespace Session

variable {s₀ s s' : Session} {source source' old new : String} {program program' : List Stmt}
  {scope : Nat} {names : List String}

theorem fair_renaming (hold : old ∈ Source.identifiers source) (hnew : Piece.IsName new.toList) :
    (Respelling.renaming old new).Fair := by
  refine ⟨Source.ne_spelling_of_mem_identifiers hold .this,
    Source.ne_spelling_of_mem_identifiers hold .super, fun _ heq => ?_, fun _ heq => ?_⟩
  · have heq : new = Keyword.this.spelling := heq
    exact hnew.ne_spelling .this (congrArg String.toList heq)
  · have heq : new = Keyword.super.spelling := heq
    exact hnew.ne_spelling .super (congrArg String.toList heq)

theorem admits_renaming (hfresh : new ∉ Source.identifiers source) {name : String}
    (h : name ∈ Source.identifiers source) : (Respelling.renaming old new).Admits name := by
  refine ⟨Source.ne_spelling_of_mem_identifiers h .this,
    Source.ne_spelling_of_mem_identifiers h .super, fun _ heq => ?_, id⟩
  have heq : name = new := heq
  exact hfresh (heq ▸ h)

/-- A variable of an accepted text is one of its identifiers. -/
theorem Takes.mem_identifiers (h : s₀.Takes source program s)
    (hnames : (Stmt.localNamesAll program)[scope]? = some names) (hold : old ∈ names) :
    old ∈ Source.identifiers source := by
  have hnamed := Source.namedAll_of_parse h.parse_eq fun name hname => hname
  exact Stmt.NamedAll.localNames program hnamed (List.mem_of_getElem? hnames) hold

/-- The renamed program is a twin of the program. -/
theorem Takes.twinAll_renameAll (h : s₀.Takes source program s)
    (hnames : (Stmt.localNamesAll program)[scope]? = some names) (hold : old ∈ names)
    (hnew : Piece.IsName new.toList) (hfresh : new ∉ Source.identifiers source) :
    Stmt.TwinAll ⟨.renaming old new, 0⟩ (Paired ⟨.renaming old new, 0⟩) .top [] program
      (Stmt.renameAll old new scope program) := by
  have hmem := h.mem_identifiers hnames hold
  have hne : old ≠ new := by
    rintro rfl
    exact hfresh hmem
  have hnamed : Stmt.NamedAll (Respelling.renaming old new).Admits program :=
    Source.namedAll_of_parse h.parse_eq fun _ => admits_renaming hfresh
  have hchosen : (Respelling.renaming old new).Chosen (scope + 1) (Stmt.localNamesAll program) := by
    intro _
    refine ⟨hne, fun names' hnames' => ?_⟩
    rw [Nat.add_sub_cancel, hnames] at hnames'
    obtain rfl := Option.some.inj hnames'
    exact hold
  have hmarks : true ∈ ([] : List Bool) → old ≠ new := nofun
  exact Stmt.twinAll_edit (fair_renaming hmem hnew) hmarks program hnamed hchosen nofun h.faults_eq

/-- A twin of an accepted program under a new name is the program of a text. -/
theorem Takes.exists_readsAs (h : s₀.Takes source program s)
    (hold : old ∈ Source.identifiers source)
    (hnew : Piece.IsName new.toList)
    (htwin : Stmt.TwinAll ⟨.renaming old new, 0⟩ (Paired ⟨.renaming old new, 0⟩) .top [] program
      program') : ∃ source', Source.ReadsAs source' program' := by
  obtain ⟨hfaults, hparse⟩ := Source.parse_result_eq_ok_iff.1 h.parse_eq
  obtain ⟨w, htokens, hderives⟩ := Grammar.derives_twin (fair_renaming hold hnew)
    (Grammar.derives_of_parse hparse) htwin
  obtain ⟨source', hfaults', rfl⟩ := Source.exists_respelled hnew rfl hfaults htokens
  obtain ⟨program'', hparse', hsame⟩ := Grammar.parse_of_derives 0 hderives
  exact ⟨source', program'', Source.parse_result_eq_ok_iff.2 ⟨hfaults', hparse'⟩, hsame⟩

/-- Any text of a twin program is accepted. -/
theorem Takes.isAccepted_of_readsAs (h : s₀.Takes source program s) {r : Edit} (hr : r.Fair)
    (htwin : Stmt.TwinAll r (Paired r) .top [] program program')
    (hreads : Source.ReadsAs source' program') : Source.IsAccepted source' := by
  obtain ⟨program'', hparse, hsame⟩ := hreads
  refine ⟨program'', hparse, ?_⟩
  rw [scopeFaults_analyse_eq hsame]
  exact (htwin.analyse hr .top).2 h.faults_eq

/-- Two sessions run programs that are twins up to the name of a variable in the same way. -/
theorem InStep.run_eq_of_renaming (h : InStep (fun _ _ => True) (.renaming old new) 0 s₀ s₀)
    (haccept : s₀.accept source = (.ok program, s)) (htakes : s₀.Takes source program s)
    (haccept' : s₀.accept source' = (.ok program', s')) (htakes' : s₀.Takes source' program' s')
    (hlinked : Stmt.TwinAll ⟨.renaming old new, 0⟩ (Linked ⟨.renaming old new, 0⟩ s.ids s'.ids) .top
      [] program program') (fuel : Nat) :
    (s₀.run fuel source').1 = (s₀.run fuel source).1 ∧
      (s₀.run fuel source').2.machine.sink = (s₀.run fuel source).2.machine.sink := by
  have hchecked := h.follow htakes.toFollows htakes'.toFollows
  obtain ⟨p, hk, hleft, hright, houtcome⟩ :=
    (hchecked.interpret fuel hlinked (.root trivial)).outcome nofun
  have hleft : (s.machine.run fuel program).2 = p.left := hleft
  have hright : (s'.machine.run fuel program').2 = p.right := hright
  rw [run_of_takes haccept, run_of_takes haccept']
  refine ⟨houtcome.eq fun _ => rfl, ?_⟩
  rw [hleft, hright]
  exact hk.sound.sinks.eq_of_before_eq rfl

/-- **Renaming a local variable.** Let `old` be a local variable or a parameter of an accepted text,
declared in the `scope`-th scope, and `new` an identifier that is nowhere in the text. Then the
program in which it is called `new` is the program of a text; and any such text is accepted, its
uses have the depths of those of the program, and its run from the initial state ends in the same
way and writes the same. -/
theorem run_renamed (sink : Sink) (reading : Nat → Float) (source : String) (program : List Stmt)
    (s : Session) (scope : Nat) (names : List String) (old new : String)
    (haccept : (initial sink reading).accept source = (.ok program, s))
    (hnames : (Stmt.localNamesAll program)[scope]? = some names) (hold : old ∈ names)
    (hnew : Piece.IsName new.toList) (hfresh : new ∉ Source.identifiers source) :
    (∃ source', Source.ReadsAs source' (Stmt.renameAll old new scope program)) ∧
      ∀ source', Source.ReadsAs source' (Stmt.renameAll old new scope program) →
        ∃ program' s', (initial sink reading).accept source' = (.ok program', s') ∧
          program'.map Stmt.eraseIds = (Stmt.renameAll old new scope program).map Stmt.eraseIds ∧
          List.Forall₂ (fun o o' => o'.kind = o.kind ∧
              s'.machine.depths.depth? o'.use.id = s.machine.depths.depth? o.use.id)
            (Stmt.occurrencesAll program) (Stmt.occurrencesAll program') ∧
          ∀ fuel, ((initial sink reading).run fuel source').1 =
              ((initial sink reading).run fuel source).1 ∧
            ((initial sink reading).run fuel source').2.machine.sink =
              ((initial sink reading).run fuel source).2.machine.sink := by
  have htakes := takes_of_accept (ready_initial sink reading) haccept
  have hmem := htakes.mem_identifiers hnames hold
  have hr := fair_renaming hmem hnew
  have htwin := htakes.twinAll_renameAll hnames hold hnew hfresh
  refine ⟨htakes.exists_readsAs hmem hnew htwin, fun source' hreads => ?_⟩
  obtain ⟨program', s', haccept', htakes'⟩ := accept_of_isAccepted (ready_initial sink reading)
    (htakes.isAccepted_of_readsAs hr htwin hreads)
  have hsame : program'.map Stmt.eraseIds =
      (Stmt.renameAll old new scope program).map Stmt.eraseIds := by
    obtain ⟨program'', hparse, hsame⟩ := hreads
    obtain rfl := Except.ok.inj (hparse.symm.trans htakes'.parse_eq)
    exact hsame
  have hlinked := htakes.linked hr htakes' (htwin.of_eraseIds_eq hsame)
  refine ⟨program', s', haccept', hsame, hlinked.depths_eq, fun fuel => ?_⟩
  have hstep : InStep (fun _ _ => True) (.renaming old new) 0 (initial sink reading)
      (initial sink reading) :=
    ⟨Pair.sound_initial rfl rfl rfl rfl rfl sink reading 0, ready_initial sink reading,
      ready_initial sink reading⟩
  exact hstep.run_eq_of_renaming haccept htakes haccept' htakes' hlinked fuel

/-- A block in which a variable is used before another one of its name is declared. -/
def shadowText : String := "\x7b var a = \"x\"; \x7b print a; var a = \"y\"; print a; \x7d \x7d"

def shadowProgram : List Stmt :=
  [.block [.var ⟨.identifier, "a", 1⟩ (some (.literal (.string "x"))),
    .block [.print (.variable ⟨0, ⟨.identifier, "a", 1⟩⟩),
      .var ⟨.identifier, "a", 1⟩ (some (.literal (.string "y"))),
      .print (.variable ⟨1, ⟨.identifier, "a", 1⟩⟩)]]]

def renamedText : String := "\x7b var a = \"x\"; \x7b print a; var b = \"y\"; print b; \x7d \x7d"

set_option maxRecDepth 100000 in
theorem parse_shadowText : Source.parse shadowText 0 = ⟨shadowProgram, [], 2, true⟩ := by
  cbv

theorem accept_shadowText : (initial .unbounded fun _ => 0).accept shadowText =
    (.ok shadowProgram,
      ⟨(Machine.initial .unbounded fun _ => 0).record (analyse shadowProgram), 2⟩) :=
  accept_of_parse parse_shadowText rfl

set_option maxRecDepth 100000 in
theorem readsAs_renamedText :
    Source.ReadsAs renamedText (Stmt.renameAll "a" "b" 1 shadowProgram) := by
  refine ⟨Stmt.renameAll "a" "b" 1 shadowProgram, ?_, rfl⟩
  cbv

/-- Only the variable of the inner block is renamed, with the second of the two uses. -/
theorem run_renamedText : ((initial .unbounded fun _ => 0).run 20 renamedText).1 = .success ∧
    ((initial .unbounded fun _ => 0).run 20 renamedText).2.machine.sink.written =
      "x\ny\n".toUTF8 := by
  have hname : Piece.IsName "b".toList := ⟨⟨'b', [], rfl, by decide, nofun⟩, by decide⟩
  have hfresh : "b" ∉ Source.identifiers shadowText := by decide +kernel
  obtain ⟨program', s', -, -, -, hrun⟩ := (run_renamed .unbounded (fun _ => 0) shadowText
    shadowProgram _ 1 ["a"] "a" "b" accept_shadowText rfl (.head _) hname hfresh).2 renamedText
    readsAs_renamedText
  obtain ⟨houtcome, hsink⟩ := hrun 20
  rw [houtcome, hsink, run_of_takes accept_shadowText]
  constructor
  · cbv
  · decide +kernel

end Session

end Treewalk
