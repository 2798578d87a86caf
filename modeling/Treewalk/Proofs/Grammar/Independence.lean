import Treewalk.Proofs.Grammar.Composition
import Treewalk.Proofs.Grammar.Script

/-!
# Mistakes that do not disturb each other

A segment is a list of tokens that ends in its only semicolon and has nothing in it with which a
declaration would go on behind that. Whatever else stands in a segment, reading a declaration from
its beginning ends behind the semicolon: a declaration that is well formed takes it, and one that is
not is abandoned at a token of the segment, since readers take a semicolon at the end of a statement
only; then the tokens up to the semicolon are skipped. So the faults in a list of segments are those
of the segments.

## Main definitions

* `Acts` — what a reading does, whatever stands behind the tokens that it reads
* `Confined` — a reading that stays in front of the next semicolon
* `Closes` — a reading that ends behind the next semicolon, or is abandoned in front of it
* `Segment` — tokens up to a semicolon

## Main results

* `parse_flatten_faults` — the faults in a list of segments
-/

namespace Treewalk.Grammar

variable {α β : Type} {read : Reading α} {f : α → Reading β}

/-! ### Readings and what stands behind -/

/-- The end of a reading. -/
def ended : Except Stop α → Cursor → EStateM.Result Stop Cursor α
  | .ok a, c => .ok a c
  | .error stop, c => .error stop c

/-- With the tokens `s` ahead and `id` the next number, the reading has this result, leaves the
tokens `s'` and the number `id'`, and finds the faults `new`. Tokens behind `s` do not matter,
unless an `else` comes first. -/
def Acts (read : Reading α) (id : NodeId) (s : List Token) (result : Except Stop α) (id' : NodeId)
    (s' : List Token) (new : List Diagnostic) : Prop :=
  ∀ r finish faults, NoElse r →
    read ⟨s ++ r, finish, id, faults⟩ = ended result ⟨s' ++ r, finish, id', new ++ faults⟩

namespace Acts

variable {id id' id'' : NodeId} {s s' s'' : List Token} {new new' : List Diagnostic}

theorem bind_error {stop : Stop} (h : Acts read id s (.error stop) id' s' new) :
    Acts (read >>= f) id s (.error stop) id' s' new := by
  intro r finish faults hr
  simp only [bind, EStateM.bind, h r finish faults hr]
  rfl

theorem bind_ok {a : α} {result : Except Stop β} (h : Acts read id s (.ok a) id' s' new)
    (hf : Acts (f a) id' s' result id'' s'' new') :
    Acts (read >>= f) id s result id'' s'' (new' ++ new) := by
  intro r finish faults hr
  simp only [bind, EStateM.bind, h r finish faults hr]
  rw [List.append_assoc]
  exact hf r finish _ hr

end Acts

/-! ### Up to a semicolon -/

/-- In front of tokens and a semicolon the reading drops some of the tokens at most. -/
def Confined (read : Reading α) : Prop :=
  ∀ (id : NodeId) (w : List Token) (semicolon : Token), semicolon.isSymbol .semicolon →
    ∃ result id' w' new, w' <:+ w ∧
      Acts read id (w ++ [semicolon]) result id' (w' ++ [semicolon]) new

/-- A script that drops no semicolon stays in front of the next one. -/
theorem confined_script (script : Script α)
    (h : script.Takes (·.isSymbol .semicolon = false)) : Confined script.read := by
  induction script with
  | pure a =>
    exact fun id w semicolon hs => ⟨.ok a, id, w, [], List.suffix_rfl, fun _ _ _ _ => rfl⟩
  | bind first next ihfirst ihnext =>
    intro id w semicolon hs
    obtain ⟨result, id', w', new, hw', hfirst⟩ := ihfirst h.1 id w semicolon hs
    cases result with
    | error stop => exact ⟨.error stop, id', w', new, hw', hfirst.bind_error⟩
    | ok a =>
      obtain ⟨result, id'', w'', new', hw'', hnext⟩ := ihnext a (h.2 a) id' w' semicolon hs
      exact ⟨result, id'', w'', new' ++ new, hw''.trans hw', hfirst.bind_ok hnext⟩
  | exhausted =>
    exact fun id w semicolon hs =>
      ⟨.error .exhausted, id, w, [], List.suffix_rfl, fun _ _ _ _ => rfl⟩
  | fail cause hcause =>
    intro id w semicolon hs
    refine ⟨.error (.fault (w.headD semicolon) cause), id, w, [], List.suffix_rfl, ?_⟩
    cases w <;> exact fun _ _ _ _ => rfl
  | report anchor cause hcause =>
    exact fun id w semicolon hs =>
      ⟨.ok (), id, w, [.grammar anchor cause], List.suffix_rfl, fun _ _ _ _ => rfl⟩
  | peek =>
    intro id w semicolon hs
    refine ⟨.ok (w.headD semicolon), id, w, [], List.suffix_rfl, ?_⟩
    cases w <;> exact fun _ _ _ _ => rfl
  | takeIf? p =>
    intro id w semicolon hs
    have hnone {t : Token} {v : List Token} (hp : p t = false) :
        Acts (takeIf? p) id (t :: v) (.ok none) id (t :: v) [] := by
      intro r finish faults hr
      simp only [List.cons_append, takeIf?, hp]
      rfl
    cases w with
    | nil =>
      refine ⟨.ok none, id, [], [], List.suffix_rfl, hnone ?_⟩
      rw [← Bool.not_eq_true]
      exact fun hp => Bool.false_ne_true ((h semicolon hp).symm.trans hs)
    | cons t w =>
      cases hp : p t with
      | false => exact ⟨.ok none, id, t :: w, [], List.suffix_rfl, hnone hp⟩
      | true =>
        refine ⟨.ok (some t), id, w, [], List.suffix_cons t w, fun r finish faults hr => ?_⟩
        simp only [List.cons_append, Script.read, takeIf?, hp, if_true]
        rfl
  | nextIs s =>
    intro id w semicolon hs
    refine ⟨.ok ((w.headD semicolon).isSymbol s), id, w, [], List.suffix_rfl, ?_⟩
    cases w <;> exact fun _ _ _ _ => rfl
  | atEnd =>
    intro id w semicolon hs
    refine ⟨.ok false, id, w, [], List.suffix_rfl, ?_⟩
    cases w <;> exact fun _ _ _ _ => rfl
  | freshId =>
    exact fun id w semicolon hs => ⟨.ok id, id + 1, w, [], List.suffix_rfl, fun _ _ _ _ => rfl⟩
  | recover script ih => cases h.2 ⟨.symbol .semicolon, "", 0⟩

theorem Scripted.confined (h : Scripted (·.isSymbol .semicolon = false) read) : Confined read := by
  obtain ⟨script, hscript, rfl⟩ := h
  exact confined_script script hscript

/-! ### Behind a semicolon -/

/-- Tokens with which no statement goes on behind the next semicolon. -/
def Straight (w : List Token) : Prop :=
  ∀ t ∈ w, t.isSymbol .semicolon = false ∧ t.isSymbol .leftBrace = false ∧ t.isKeyword .for = false

theorem Straight.suffix {w w' : List Token} (h : Straight w) (hw : w' <:+ w) : Straight w' :=
  fun t ht => h t (hw.mem ht)

/-- In front of such tokens and a semicolon the reading takes all of them, or it is abandoned in
front of the semicolon. -/
def Closes (read : Reading α) : Prop :=
  ∀ (id : NodeId) (w : List Token) (semicolon : Token), semicolon.isSymbol .semicolon → Straight w →
    ∃ result id' s' new, Acts read id (w ++ [semicolon]) result id' s' new ∧
      match result with
      | .ok _ => s' = []
      | .error _ => ∃ w', w' <:+ w ∧ s' = w' ++ [semicolon]

/-- Behind a semicolon the reading does nothing. -/
def Rests (read : Reading α) : Prop := ∀ id, ∃ a, Acts read id [] (.ok a) id [] []

theorem Rests.pure (a : α) : Rests (pure a) := fun _ => ⟨a, fun _ _ _ _ => rfl⟩

namespace Closes

theorem exhausted : Closes (throw .exhausted : Reading α) :=
  fun id w semicolon _ _ => ⟨.error .exhausted, id, w ++ [semicolon], [], fun _ _ _ _ => rfl,
    w, List.suffix_rfl, rfl⟩

protected theorem bind (h : Closes read) (hf : ∀ a, Rests (f a)) : Closes (read >>= f) := by
  intro id w semicolon hs hw
  obtain ⟨result, id', s', new, hread, hend⟩ := h id w semicolon hs hw
  cases result with
  | error stop => exact ⟨.error stop, id', s', new, hread.bind_error, hend⟩
  | ok a =>
    obtain rfl : s' = [] := hend
    obtain ⟨b, hb⟩ := hf a id'
    exact ⟨.ok b, id', [], new, hread.bind_ok hb, rfl⟩

theorem takeIf? {p : Token → Bool} {f : Option Token → Reading α}
    (hp : ∀ t : Token, p t = p ⟨t.kind, "", 0⟩) (hsemicolon : p ⟨.symbol .semicolon, "", 0⟩ = false)
    (hnone : Closes (f none))
    (hsome : ∀ t, p t → t.isSymbol .leftBrace = false → t.isKeyword .for = false →
      Closes (f (some t))) :
    Closes (takeIf? p >>= f) := by
  intro id w semicolon hs hw
  obtain ⟨result, id', s', new, hread, hend⟩ := hnone id w semicolon hs hw
  have hskip {t : Token} {v : List Token} (heq : w ++ [semicolon] = t :: v) (ht : p t = false) :
      Acts (Grammar.takeIf? p >>= f) id (w ++ [semicolon]) result id' s' new := by
    intro r finish faults hr
    rw [← hread r finish faults hr, heq]
    simp only [bind, EStateM.bind, List.cons_append, Grammar.takeIf?, ht]
    rfl
  cases w with
  | nil =>
    refine ⟨result, id', s', new, hskip rfl ?_, hend⟩
    rw [hp, of_decide_eq_true hs]
    exact hsemicolon
  | cons t w =>
    cases ht : p t with
    | false => exact ⟨result, id', s', new, hskip rfl ht, hend⟩
    | true =>
      obtain ⟨-, hbrace, hfor⟩ := hw t List.mem_cons_self
      have hrest := hsome t ht hbrace hfor id w semicolon hs (hw.suffix (List.suffix_cons t w))
      obtain ⟨result, id', s', new, hread, hend⟩ := hrest
      refine ⟨result, id', s', new, fun r finish faults hr => ?_, ?_⟩
      · rw [← hread r finish faults hr]
        simp only [bind, EStateM.bind, List.cons_append, Grammar.takeIf?, ht, if_true]
      · cases result with
        | ok a => exact hend
        | error stop =>
          obtain ⟨w', hw', hs'⟩ := hend
          exact ⟨w', hw'.trans (List.suffix_cons t w), hs'⟩

theorem expect_semicolon {place : SymbolPlace} {f : Token → Reading α} (hf : ∀ t, Rests (f t)) :
    Closes (expect .semicolon place >>= f) := by
  intro id w semicolon hs hw
  cases w with
  | nil =>
    obtain ⟨a, ha⟩ := hf semicolon id
    refine ⟨.ok a, id, [], [], fun r finish faults hr => ?_, rfl⟩
    rw [← ha r finish faults hr]
    simp only [expect, accept?, bind, EStateM.bind, List.nil_append, List.cons_append,
      Grammar.takeIf?, hs, if_true]
    rfl
  | cons t w =>
    obtain ⟨hsemicolon, -, -⟩ := hw t List.mem_cons_self
    refine ⟨.error (.fault t (.missingSymbol .semicolon place)), id, _, [],
      fun r finish faults hr => ?_, t :: w, List.suffix_rfl, rfl⟩
    simp only [expect, accept?, bind, EStateM.bind, List.cons_append, Grammar.takeIf?, hsemicolon]
    rfl

/-- A segment has no brace, so the reading is abandoned. -/
theorem expect_leftBrace {place : SymbolPlace} {f : Token → Reading α} :
    Closes (expect .leftBrace place >>= f) := by
  intro id w semicolon hs hw
  have habandon {t : Token} {v : List Token} (ht : t.isSymbol .leftBrace = false) :
      Acts (expect .leftBrace place >>= f) id (t :: v)
        (.error (.fault t (.missingSymbol .leftBrace place))) id (t :: v) [] := by
    intro r finish faults hr
    simp only [expect, accept?, bind, EStateM.bind, List.cons_append, Grammar.takeIf?, ht]
    rfl
  cases w with
  | nil =>
    exact ⟨_, id, _, [], habandon (isSymbol_eq_false (p := (·.isSymbol .semicolon))
      (fun _ => rfl) hs rfl), [], List.suffix_rfl, rfl⟩
  | cons t w =>
    obtain ⟨-, hbrace, -⟩ := hw t List.mem_cons_self
    exact ⟨_, id, _, [], habandon hbrace, t :: w, List.suffix_rfl, rfl⟩

end Closes

theorem Confined.bind_closes (h : Confined read) (hf : ∀ a, Closes (f a)) :
    Closes (read >>= f) := by
  intro id w semicolon hs hw
  obtain ⟨result, id', w', new, hw', hread⟩ := h id w semicolon hs
  cases result with
  | error stop => exact ⟨.error stop, id', _, new, hread.bind_error, w', hw', rfl⟩
  | ok a =>
    obtain ⟨result, id'', s', new', hnext, hend⟩ := hf a id' w' semicolon hs (hw.suffix hw')
    refine ⟨result, id'', s', new' ++ new, hread.bind_ok hnext, ?_⟩
    cases result with
    | ok b => exact hend
    | error stop =>
      obtain ⟨w'', hw'', hs'⟩ := hend
      exact ⟨w'', hw''.trans hw', hs'⟩

/-! ### Declarations -/

theorem confined_expression (fuel : Nat) : Confined (expression fuel) :=
  (expressionScripts (fun _ h => h) fuel).expression.confined

theorem Closes.bind_expect {s : Symbol} {place : SymbolPlace} {f : Token → Reading α}
    (hs : s ≠ .semicolon) (hf : ∀ t, Closes (f t)) : Closes (expect s place >>= f) := by
  have hexpect : Scripted (·.isSymbol .semicolon = false) (expect s place) :=
    Scripted.expect fun _ ht => isSymbol_eq_false (p := (·.isSymbol s)) (fun _ => rfl) ht
      (decide_eq_false fun h => hs (Kind.symbol.inj h).symm)
  exact hexpect.confined.bind_closes hf

theorem confined_expectName {place : NamePlace} : Confined (expectName place) :=
  (Scripted.expectName fun _ ht =>
    isSymbol_eq_false (p := (·.isIdentifier)) (fun _ => rfl) ht rfl).confined

theorem closes_expressionStatement (fuel : Nat) : Closes (expressionStatement fuel) :=
  (confined_expression fuel).bind_closes fun _ => Closes.expect_semicolon fun _ => .pure _

theorem closes_printStatement (fuel : Nat) : Closes (printStatement fuel) :=
  (confined_expression fuel).bind_closes fun _ => Closes.expect_semicolon fun _ => .pure _

theorem closes_returnStatement (fuel : Nat) (keyword : Token) :
    Closes (returnStatement fuel keyword) := by
  rw [returnStatement_eq]
  have hvalue := (expressionScripts (fun _ h => h) fuel).expression.optionalUnless (s := .semicolon)
  exact hvalue.confined.bind_closes fun _ => Closes.expect_semicolon fun _ => .pure _

theorem closes_varDeclaration (fuel : Nat) : Closes (varDeclaration fuel) := by
  rw [varDeclaration_eq]
  have hinitializer := (scripted_variableInitializer (fun _ h => h) fuel).confined
  exact confined_expectName.bind_closes fun _ => hinitializer.bind_closes fun _ =>
    Closes.expect_semicolon fun _ => .pure _

/-- A routine needs a brace before its body. -/
theorem closes_routine (fuel : Nat) (kind : RoutineKind) (next : Routine → Reading α) :
    Closes (routine fuel kind >>= next) := by
  cases fuel with
  | zero => exact Closes.exhausted
  | succ fuel =>
    have hparameters := (scripted_parameters (fun _ h => h) fuel 0).listUnless (s := .rightParen)
    simp only [routine, signature_eq, bind_assoc]
    exact confined_expectName.bind_closes fun _ => Closes.bind_expect (by decide) fun _ =>
      hparameters.confined.bind_closes fun _ => Closes.bind_expect (by decide) fun _ =>
      Closes.expect_leftBrace

/-- A class needs a brace before its methods. -/
theorem closes_classHeader (next : Token × Option Use → Reading α) :
    Closes (classHeader >>= next) := by
  have hsuperclass := (scripted_superclassClause fun _ h => h).confined
  simp only [classHeader_eq, bind_assoc]
  exact confined_expectName.bind_closes fun _ => hsuperclass.bind_closes fun _ =>
    Closes.expect_leftBrace

theorem Rests.bind_acceptElse {next : Option Token → Reading α} (h : Rests (next none)) :
    Rests (acceptWord? .else >>= next) := by
  intro id
  obtain ⟨a, ha⟩ := h id
  refine ⟨a, fun r finish faults hr => ?_⟩
  rw [← ha r finish faults hr]
  cases r with
  | nil => rfl
  | cons t r =>
    have helse : t.isKeyword .else = false := hr t rfl
    simp only [bind, EStateM.bind, List.nil_append, acceptWord?, takeIf?, helse]
    rfl

theorem closes_statement (fuel : Nat) : Closes (statement fuel) := by
  induction fuel with
  | zero => unfold statement; exact Closes.exhausted
  | succ fuel ih =>
    unfold statement
    refine Closes.takeIf? (fun _ => rfl) rfl (closes_expressionStatement fuel) ?_
    intro t ht hbrace hfor
    dsimp only
    split
    · next hkind => simp [Token.isKeyword, hkind] at hfor
    · refine Closes.bind_expect (by decide) fun _ => (confined_expression fuel).bind_closes fun _ =>
        Closes.bind_expect (by decide) fun _ => ih.bind fun _ => ?_
      exact Rests.bind_acceptElse (.pure _)
    · exact closes_printStatement fuel
    · exact closes_returnStatement fuel t
    · exact Closes.bind_expect (by decide) fun _ => (confined_expression fuel).bind_closes fun _ =>
        Closes.bind_expect (by decide) fun _ => ih.bind fun _ => .pure _
    · next hif hprint hreturn hwhile hkind =>
      split at ht <;> simp_all [Token.isSymbol]

theorem exists_closes_declaration (fuel : Nat) :
    ∃ read : Reading Stmt, Closes read ∧ declaration (fuel + 1) = recover read := by
  unfold declaration
  refine ⟨_, ?_, rfl⟩
  refine Closes.takeIf? (fun _ => rfl) rfl ?_ fun _ _ _ _ => closes_classHeader _
  refine Closes.takeIf? (fun _ => rfl) rfl ?_ fun _ _ _ _ => closes_routine fuel _ _
  refine Closes.takeIf? (fun _ => rfl) rfl ?_ fun _ _ _ _ => closes_varDeclaration fuel
  exact closes_statement fuel

/-! ### Segments -/

/-- Tokens that end in their only semicolon, with nothing that a declaration could go on with behind
it, and with no token that starts a statement but the first. -/
structure Segment (s : List Token) : Prop where
  ends : s.getLast?.any (·.isSymbol .semicolon)
  semicolon : ∀ t ∈ s.dropLast, t.isSymbol .semicolon = false
  finish : ∀ t ∈ s, t.isEnd = false
  leftBrace : ∀ t ∈ s, t.isSymbol .leftBrace = false
  rightBrace : ∀ t ∈ s, t.isSymbol .rightBrace = false
  loop : ∀ t ∈ s, t.isKeyword .for = false
  alternative : ∀ t ∈ s, t.isKeyword .else = false
  start : ∀ t ∈ s.tail, startsStatement t = false

namespace Segment

variable {s : List Token}

instance : DecidablePred Segment := fun s =>
  decidable_of_iff
    (s.getLast?.any (·.isSymbol .semicolon) ∧ (∀ t ∈ s.dropLast, t.isSymbol .semicolon = false) ∧
      (∀ t ∈ s, t.isEnd = false) ∧ (∀ t ∈ s, t.isSymbol .leftBrace = false) ∧
      (∀ t ∈ s, t.isSymbol .rightBrace = false) ∧ (∀ t ∈ s, t.isKeyword .for = false) ∧
      (∀ t ∈ s, t.isKeyword .else = false) ∧ ∀ t ∈ s.tail, startsStatement t = false)
    ⟨fun ⟨h₁, h₂, h₃, h₄, h₅, h₆, h₇, h₈⟩ => ⟨h₁, h₂, h₃, h₄, h₅, h₆, h₇, h₈⟩,
      fun ⟨h₁, h₂, h₃, h₄, h₅, h₆, h₇, h₈⟩ => ⟨h₁, h₂, h₃, h₄, h₅, h₆, h₇, h₈⟩⟩

theorem exists_eq (h : Segment s) : ∃ w semicolon, s = w ++ [semicolon] ∧
    semicolon.isSymbol .semicolon ∧ Straight w ∧ ∀ t ∈ w.tail, startsStatement t = false := by
  have hends := h.ends
  obtain rfl | ⟨w, semicolon, rfl⟩ := s.eq_nil_or_concat
  · cases hends
  · rw [List.concat_eq_append] at h hends ⊢
    rw [List.getLast?_concat] at hends
    refine ⟨w, semicolon, rfl, hends, fun t ht => ?_, fun t ht => h.start t ?_⟩
    · have hmem : t ∈ w ++ [semicolon] := List.mem_append_left _ ht
      exact ⟨h.semicolon t (by rwa [List.dropLast_concat]), h.leftBrace t hmem, h.loop t hmem⟩
    · cases w with
      | nil => cases ht
      | cons t' w => exact List.mem_append_left _ ht

theorem ne_nil (h : Segment s) : s ≠ [] := by
  rintro rfl
  cases h.ends

theorem noElse (h : Segment s) (r : List Token) : NoElse (s ++ r) := by
  cases s with
  | nil => exact absurd rfl h.ne_nil
  | cons t s =>
    intro t' ht'
    obtain rfl : t = t' := by simpa using ht'
    exact h.alternative t List.mem_cons_self

end Segment

theorem fromBoundary_append {w r : List Token} {semicolon : Token}
    (hs : semicolon.isSymbol .semicolon) (hw : ∀ t ∈ w, t.isSymbol .semicolon = false)
    (hstart : ∀ t ∈ w, startsStatement t = false) :
    fromBoundary (w ++ semicolon :: r) = r := by
  induction w with
  | nil =>
    simp only [List.nil_append, fromBoundary, startsStatement_eq_false hs, hs, if_true]
    rfl
  | cons t w ih =>
    have hrest := ih (fun t' ht' => hw t' (List.mem_cons_of_mem t ht'))
      (fun t' ht' => hstart t' (List.mem_cons_of_mem t ht'))
    simp only [List.cons_append, fromBoundary, hw t List.mem_cons_self,
      hstart t List.mem_cons_self]
    exact hrest

/-- Wherever the fault is in a segment, reading goes on behind its semicolon. -/
theorem resync_append {w r : List Token} {semicolon : Token}
    (hs : semicolon.isSymbol .semicolon) (hw : ∀ t ∈ w, t.isSymbol .semicolon = false)
    (hstart : ∀ t ∈ w.tail, startsStatement t = false) : resync (w ++ semicolon :: r) = r := by
  cases w with
  | nil => simp only [List.nil_append, resync, hs, if_true]
  | cons t w =>
    simp only [List.cons_append, resync, hw t List.mem_cons_self]
    exact fromBoundary_append hs (fun t' ht' => hw t' (List.mem_cons_of_mem t ht')) hstart

theorem Segment.declaration {s : List Token} (h : Segment s) (fuel : Nat)
    (hfuel : 32 * s.length + 13 ≤ fuel) (id : NodeId) :
    ∃ o id' new, Acts (Grammar.declaration fuel) id s (.ok o) id' [] new := by
  obtain ⟨fuel, rfl⟩ := Nat.exists_eq_succ_of_ne_zero (n := fuel) (by omega)
  obtain ⟨w, semicolon, rfl, hs, hw, hstart⟩ := h.exists_eq
  obtain ⟨read, hread, heq⟩ := exists_closes_declaration fuel
  obtain ⟨result, id', s', new, hacts, hend⟩ := hread id w semicolon hs hw
  cases result with
  | ok a =>
    obtain rfl : s' = [] := hend
    refine ⟨some a, id', new, fun r finish faults hr => ?_⟩
    rw [heq, recover, hacts r finish faults hr]
    rfl
  | error stop =>
    cases stop with
    | fault anchor cause =>
      obtain ⟨w', hw', rfl⟩ := hend
      refine ⟨none, id', .grammar anchor cause :: new, fun r finish faults hr => ?_⟩
      have hresync : resync (w' ++ [semicolon] ++ r) = r := by
        rw [List.append_assoc]
        refine resync_append hs (fun t ht => (hw.suffix hw' t ht).1) fun t ht => hstart t ?_
        obtain ⟨v, rfl⟩ := hw'
        cases v with
        | nil => exact ht
        | cons t' v => exact List.mem_append_right v (List.mem_of_mem_tail ht)
      rw [heq, recover, hacts r finish faults hr]
      simp only [ended, hresync]
      rfl
    | exhausted =>
      have hsettles := ((statementSettles (fuel + 1)).declaration hfuel
        ⟨w ++ [semicolon], semicolon, id, []⟩ le_rfl).2
      have hexhausted := hacts [] semicolon [] .nil
      rw [List.append_nil] at hexhausted
      rw [heq, recover, hexhausted] at hsettles
      exact absurd rfl hsettles.1

/-! ### Lists of segments -/

theorem program_of_acts {s r : List Token} {fuel : Nat} {id id' : NodeId} {o : Option Stmt}
    {new : List Diagnostic} (h : Acts (declaration fuel) id s (.ok o) id' [] new) (hs : s ≠ [])
    (hr : NoElse r) (finish : Token) (faults : List Diagnostic) :
    program (fuel + 1) ⟨s ++ r, finish, id, faults⟩ =
      ((o.toList ++ ·) <$> program fuel) ⟨r, finish, id', new ++ faults⟩ := by
  have hend : atEnd ⟨s ++ r, finish, id, faults⟩ = .ok false ⟨s ++ r, finish, id, faults⟩ := by
    cases s with
    | nil => exact absurd rfl hs
    | cons t s => rfl
  simp only [program, bind, EStateM.bind, hend, h r finish faults hr, Bool.false_eq_true, if_false]
  rfl

theorem Segment.faults_eq {s : List Token} (h : Segment s) {fuel : Nat}
    (hfuel : 32 * s.length + 13 ≤ fuel) {id id' : NodeId} {o : Option Stmt} {new : List Diagnostic}
    (hacts : Acts (Grammar.declaration fuel) id s (.ok o) id' [] new) (n : NodeId) :
    (parse s n).faults = new.reverse := by
  obtain ⟨fuel, rfl⟩ := Nat.exists_eq_succ_of_ne_zero (n := fuel) (by omega)
  have hstart : Cursor.start s id = ⟨s, finishOf s, id, []⟩ := by
    have : s.takeWhile (!·.isEnd) = s :=
      List.takeWhile_eq_self_iff.2 fun t ht => by simp [h.finish t ht]
    rw [Cursor.start, this]
  have hprogram := program_of_acts hacts h.ne_nil .nil (finishOf s) []
  rw [List.append_nil, ← hstart] at hprogram
  have hfuel' : program (fuel + 2) (.start s id) = program (fuelFor s) (.start s id) :=
    program_fuel (le_fuelFor s id) (by rw [hstart]; dsimp only; omega)
  have hrun : program (fuelFor s) (.start s id) =
      .ok (o.toList ++ []) ⟨[], finishOf s, id', new⟩ := by
    rw [← hfuel', hprogram, List.append_nil]
    rfl
  rw [(parse_alike s id n).1, parse, hrun]

theorem noElse_flatten {segments : List (List Token)} (h : ∀ s ∈ segments, Segment s) :
    NoElse segments.flatten := by
  cases segments with
  | nil => exact .nil
  | cons s segments => exact (h s List.mem_cons_self).noElse _

theorem program_flatten {segments : List (List Token)} (h : ∀ s ∈ segments, Segment s)
    (n : NodeId) {fuel : Nat} {c : Cursor} (hc : c.ahead = segments.flatten)
    (hfuel : 32 * c.ahead.length + 14 ≤ fuel) :
    ∃ body id', program fuel c = .ok body
      ⟨[], c.finish, id', (segments.flatMap fun s => (parse s n).faults).reverse ++ c.faults⟩ := by
  obtain ⟨fuel, rfl⟩ := Nat.exists_eq_succ_of_ne_zero (n := fuel) (by omega)
  obtain ⟨ahead, finish, id, faults⟩ := c
  obtain rfl : ahead = segments.flatten := hc
  induction segments generalizing fuel id faults with
  | nil => exact ⟨[], id, rfl⟩
  | cons s segments ih =>
    have hs := h s List.mem_cons_self
    have hlength := List.length_pos_of_ne_nil hs.ne_nil
    rw [List.flatten_cons, List.length_append] at hfuel
    obtain ⟨o, id', new, hacts⟩ := hs.declaration fuel (by omega) id
    have hrest (s' : List Token) (hs' : s' ∈ segments) : Segment s' :=
      h s' (List.mem_cons_of_mem s hs')
    obtain ⟨fuel, rfl⟩ := Nat.exists_eq_succ_of_ne_zero (n := fuel) (by omega)
    obtain ⟨body, id'', hbody⟩ := ih hrest fuel id' (new ++ faults) (by dsimp only; omega)
    refine ⟨o.toList ++ body, id'', ?_⟩
    have hfaults : ((s :: segments).flatMap fun s => (parse s n).faults).reverse ++ faults =
        (segments.flatMap fun s => (parse s n).faults).reverse ++ (new ++ faults) := by
      rw [List.flatMap_cons, hs.faults_eq (by omega) hacts n, List.reverse_append,
        List.reverse_reverse, List.append_assoc]
    simp only [List.flatten_cons, program_of_acts hacts hs.ne_nil (noElse_flatten hrest), hfaults,
      Functor.map, EStateM.map, hbody]

/-- **Mistakes in different segments do not disturb each other.** The faults in the tokens of a list
of segments are those of the segments, each read alone, in the order of the segments. -/
theorem parse_flatten_faults (segments : List (List Token)) (h : ∀ s ∈ segments, Segment s)
    (firstId n : NodeId) :
    (parse segments.flatten firstId).faults = segments.flatMap fun s => (parse s n).faults := by
  have hahead : (Cursor.start segments.flatten firstId).ahead = segments.flatten := by
    refine List.takeWhile_eq_self_iff.2 fun t ht => ?_
    obtain ⟨s, hs, ht⟩ := List.mem_flatten.1 ht
    simp [(h s hs).finish t ht]
  obtain ⟨body, id', hread⟩ := program_flatten h n hahead (le_fuelFor segments.flatten firstId)
  rw [parse, hread]
  simp only [Cursor.start, List.append_nil, List.reverse_reverse]

/-- The tokens of `print;`, `1 = 2;`, `) a;`, `if (;` and `;`, with a mistake in each. -/
def mistakes : List (List Token) :=
  let semicolon : Token := ⟨.symbol .semicolon, ";", 1⟩
  [[⟨.keyword .print, "print", 1⟩, semicolon],
    [⟨.number 1, "1", 1⟩, ⟨.symbol .equal, "=", 1⟩, ⟨.number 2, "2", 1⟩, semicolon],
    [⟨.symbol .rightParen, ")", 1⟩, ⟨.identifier, "a", 1⟩, semicolon],
    [⟨.keyword .if, "if", 1⟩, ⟨.symbol .leftParen, "(", 1⟩, semicolon], [semicolon]]

theorem parse_flatten_faults_mistakes :
    (∀ s ∈ mistakes, Segment s) ∧ (parse mistakes.flatten 0).faults.length = 5 ∧
      (parse mistakes.flatten 0).faults = mistakes.flatMap fun s => (parse s 7).faults := by
  have hmistakes : ∀ s ∈ mistakes, Segment s := by decide +kernel
  exact ⟨hmistakes, by decide +kernel, parse_flatten_faults mistakes hmistakes 0 7⟩

end Treewalk.Grammar
