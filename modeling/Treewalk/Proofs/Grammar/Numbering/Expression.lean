import Mathlib.Data.List.Nodup
import Mathlib.Order.Nat
import Treewalk.Proofs.Grammar.Parts
import Treewalk.Proofs.Tree.Relabel
import Treewalk.Tree.Uses

/-!
# Node numbers of expressions

Readers give out node numbers one after the other and never look at one. So the same tokens, read
with other numbers to begin with, give the same trees up to node numbers and the same faults; and
the numbers in a tree are new ones, all different. Both are shown by one walk over the readers,
which compares a reading with another one of the same tokens.

## Main definitions

* `Fresh` — uses with different numbers in a range
* `Renumbered` — two results that are the same up to numbers, those of the first being fresh
* `Numbers` — two readings of the same tokens with other numbers
* `Plain` — a reading that gives out no number

## Main results

* `Numbers.bind` — readings one after the other
* `expression_numbers` — the readings of an expression
-/

namespace Treewalk

/-- Uses whose numbers are all different, not below `first` and below `next`. -/
structure Fresh (first next : NodeId) (uses : List Occurrence) : Prop where
  le : first ≤ next
  nodup : (uses.map (·.use.id)).Nodup
  mem : ∀ o ∈ uses, first ≤ o.use.id ∧ o.use.id < next

/-- Two results that are the same up to node numbers, those of the first being fresh. -/
structure Renumbered {α β : Type} (erase : α → β) (uses : α → List Occurrence)
    (first next : NodeId) (a a' : α) : Prop where
  erase_eq : erase a' = erase a
  fresh : Fresh first next (uses a)

namespace Fresh

variable {n m k : NodeId} {uses uses' : List Occurrence}

theorem nil (h : n ≤ m) : Fresh n m [] := ⟨h, List.nodup_nil, by simp⟩

theorem single {o : Occurrence} (h : o.use.id = n) (h' : n < m) : Fresh n m [o] :=
  ⟨h'.le, List.nodup_singleton _, by simpa [h] using h'⟩

theorem mono {n' m' : NodeId} (h : Fresh n m uses) (hn : n' ≤ n) (hm : m ≤ m') :
    Fresh n' m' uses :=
  ⟨hn.trans (h.le.trans hm), h.nodup,
    fun o ho => ⟨hn.trans (h.mem o ho).1, (h.mem o ho).2.trans_le hm⟩⟩

/-- Uses of a range and uses of the range above it. -/
theorem append (h : Fresh n m uses) (h' : Fresh m k uses') : Fresh n k (uses ++ uses') := by
  refine ⟨h.le.trans h'.le, ?_, fun o ho => ?_⟩
  · rw [List.map_append, List.nodup_append]
    refine ⟨h.nodup, h'.nodup, fun id hid id' hid' => ?_⟩
    obtain ⟨o, ho, rfl⟩ := List.mem_map.1 hid
    obtain ⟨o', ho', rfl⟩ := List.mem_map.1 hid'
    exact ((h.mem o ho).2.trans_le (h'.mem o' ho').1).ne
  · obtain ho | ho := List.mem_append.1 ho
    · exact (h.mono le_rfl h'.le).mem o ho
    · exact (h'.mono h.le le_rfl).mem o ho

theorem perm (h : Fresh n m uses) (hp : uses.Perm uses') : Fresh n m uses' :=
  ⟨h.le, (hp.map _).nodup_iff.1 h.nodup, fun o ho => h.mem o (hp.mem_iff.2 ho)⟩

end Fresh

namespace Grammar

variable {α β γ δ : Type}

/-- Two readings from cursors that differ in the node number only, which is `n` for the first: they
end in the same way, with cursors that differ in the node number only, and if they give results,
`Q` holds of the number behind the first one and of these. -/
def Numbers (n : NodeId) (read : Reading α) (read' : Reading β) (Q : NodeId → α → β → Prop) : Prop :=
  ∀ c id, c.nextId = n → match read c, read' { c with nextId := id } with
    | .ok a d, .ok b d' => n ≤ d.nextId ∧ (∃ id', d' = { d with nextId := id' }) ∧ Q d.nextId a b
    | .error stop d, .error stop' d' =>
      stop' = stop ∧ n ≤ d.nextId ∧ ∃ id', d' = { d with nextId := id' }
    | _, _ => False

/-- A reading that neither gives out a node number nor depends on one. -/
def Plain (read : Reading α) : Prop :=
  ∀ n, Numbers n read read fun m a a' => m = n ∧ a' = a

namespace Numbers

variable {n : NodeId} {read : Reading α} {read' : Reading β} {f : α → Reading γ}
  {f' : β → Reading δ} {Q : NodeId → α → β → Prop} {S : NodeId → γ → δ → Prop}

theorem mono {Q' : NodeId → α → β → Prop} (h : Numbers n read read' Q)
    (hQ : ∀ m a b, n ≤ m → Q m a b → Q' m a b) : Numbers n read read' Q' := by
  intro c id hn
  have := h c id hn
  split at this
  · exact ⟨this.1, this.2.1, hQ _ _ _ this.1 this.2.2⟩
  · exact this
  · exact this

protected theorem pure {a : α} {b : β} (h : Q n a b) : Numbers n (pure a) (pure b) Q := by
  rintro c id rfl
  exact ⟨le_rfl, ⟨id, rfl⟩, h⟩

protected theorem throw {stop : Stop} :
    Numbers n (throw stop : Reading α) (throw stop : Reading β) Q := by
  rintro c id rfl
  exact ⟨rfl, le_rfl, id, rfl⟩

/-- The second readings begin with the numbers that the first ones leave. -/
protected theorem bind (h : Numbers n read read' Q)
    (hf : ∀ m a b, n ≤ m → Q m a b → Numbers m (f a) (f' b) S) :
    Numbers n (read >>= f) (read' >>= f') S := by
  intro c id hn
  have hc := h c id hn
  simp only [bind, EStateM.bind]
  cases hr : read c with
  | error stop d =>
    cases hr' : read' { c with nextId := id } with
    | error stop' d' => simpa only [hr, hr'] using hc
    | ok b d' => simp only [hr, hr'] at hc
  | ok a d =>
    cases hr' : read' { c with nextId := id } with
    | error stop' d' => simp only [hr, hr'] at hc
    | ok b d' =>
      simp only [hr, hr'] at hc
      obtain ⟨hle, ⟨id', rfl⟩, hq⟩ := hc
      have hd := hf d.nextId a b hle hq d id' rfl
      dsimp only
      split at hd
      · exact ⟨hle.trans hd.1, hd.2⟩
      · exact ⟨hd.1, hle.trans hd.2.1, hd.2.2⟩
      · exact hd

protected theorem map {g : α → γ} {g' : β → δ}
    (h : Numbers n read read' fun m a b => S m (g a) (g' b)) :
    Numbers n (g <$> read) (g' <$> read') S := by
  rw [map_eq_pure_bind, map_eq_pure_bind]
  exact h.bind fun _ _ _ _ hs => .pure hs

/-- An abandoned declaration is abandoned in both readings. -/
theorem recover {read' : Reading α} {Q : NodeId → α → α → Prop} (h : Numbers n read read' Q) :
    Numbers n (recover read) (recover read') fun m o o' =>
      Option.Rel (Q m) o o' := by
  intro c id hn
  have hc := h c id hn
  unfold Grammar.recover
  cases hr : read c with
  | error stop d =>
    cases hr' : read' { c with nextId := id } with
    | ok b d' => simp only [hr, hr'] at hc
    | error stop' d' =>
      simp only [hr, hr'] at hc
      obtain ⟨rfl, hle, id', rfl⟩ := hc
      cases stop' with
      | fault anchor cause => exact ⟨hle, ⟨id', rfl⟩, .none⟩
      | exhausted => exact ⟨rfl, hle, id', rfl⟩
  | ok a d =>
    cases hr' : read' { c with nextId := id } with
    | error stop' d' => simp only [hr, hr'] at hc
    | ok b d' =>
      simp only [hr, hr'] at hc
      obtain ⟨hle, hd, hq⟩ := hc
      exact ⟨hle, hd, .some hq⟩

end Numbers

/-! ### Readings that give out no number -/

namespace Plain

variable {n : NodeId} {read : Reading α} {f : α → Reading γ} {f' : α → Reading δ}
  {S : NodeId → γ → δ → Prop}

protected theorem bind (h : Plain read) (hf : ∀ a, Numbers n (f a) (f' a) S) :
    Numbers n (read >>= f) (read >>= f') S :=
  (h n).bind fun m a b _ hq => by
    obtain ⟨rfl, rfl⟩ := hq
    exact hf b

protected theorem pure {a : α} : Plain (pure a) := fun _ => .pure ⟨rfl, rfl⟩

protected theorem throw {stop : Stop} : Plain (throw stop : Reading α) := fun _ => .throw

theorem takeIf? {p : Token → Bool} : Plain (takeIf? p) := by
  rintro n ⟨ahead, finish, nextId, faults⟩ id rfl
  cases ahead with
  | nil => exact ⟨le_rfl, ⟨id, rfl⟩, rfl, rfl⟩
  | cons t rest => by_cases h : p t <;> simp [Grammar.takeIf?, h]

theorem peek : Plain peek := by
  rintro n c id rfl
  exact ⟨le_rfl, ⟨id, rfl⟩, rfl, rfl⟩

theorem nextIs {s : Symbol} : Plain (nextIs s) := by
  rintro n c id rfl
  exact ⟨le_rfl, ⟨id, rfl⟩, rfl, rfl⟩

theorem atEnd : Plain atEnd := by
  rintro n c id rfl
  exact ⟨le_rfl, ⟨id, rfl⟩, rfl, rfl⟩

theorem report {t : Token} {cause : GrammarFault} : Plain (report t cause) := by
  rintro n c id rfl
  exact ⟨le_rfl, ⟨id, rfl⟩, rfl, rfl⟩

end Plain

theorem Numbers.fail {n : NodeId} {cause : GrammarFault} {Q : NodeId → α → β → Prop} :
    Numbers n (fail cause : Reading α) (fail cause : Reading β) Q :=
  Plain.peek.bind fun _ => .throw

namespace Plain

theorem expect {s : Symbol} {place : SymbolPlace} : Plain (expect s place) := fun n =>
  takeIf?.bind fun o => by
    cases o with
    | none => exact .fail
    | some t => exact .pure ⟨rfl, rfl⟩

theorem expectName {place : NamePlace} : Plain (expectName place) := fun n =>
  takeIf?.bind fun o => by
    cases o with
    | none => exact .fail
    | some t => exact .pure ⟨rfl, rfl⟩

theorem noteCount {count : Nat} {cause : GrammarFault} : Plain (noteCount count cause) := by
  intro n
  rw [Grammar.noteCount]
  split
  · exact peek.bind fun t => report n
  · exact .pure ⟨rfl, rfl⟩

end Plain

theorem numbers_freshId {n : NodeId} : Numbers n freshId freshId fun m id _ => id = n ∧ n < m := by
  rintro c id rfl
  exact ⟨Nat.le_succ _, ⟨id + 1, rfl⟩, rfl, Nat.lt_succ_self _⟩

theorem Numbers.listUnless {n : NodeId} {s : Symbol} {read : Reading (List α)}
    {uses : List α → List Occurrence} {erase : α → β} (huses : uses [] = [])
    (h : Numbers n read read (Renumbered (List.map erase) uses n)) :
    Numbers n (listUnless s read) (listUnless s read) (Renumbered (List.map erase) uses n) :=
  Plain.nextIs.bind fun b => by
    cases b with
    | true => exact .pure ⟨rfl, huses ▸ .nil le_rfl⟩
    | false => exact h

/-! ### Expressions -/

abbrev ExprNumbers := Renumbered Expr.eraseIds Expr.occurrences

abbrev ExprsNumbers := Renumbered (List.map Expr.eraseIds) Expr.occurrencesAll

theorem Expr.token_of_eraseIds_eq_variable {e e' : Expr} {use : Use}
    (h : e'.eraseIds = e.eraseIds) (he : e = .variable use) :
    ∃ use', e' = .variable use' ∧ use'.token = use.token := by
  subst he
  cases e' <;> simp_all [Expr.eraseIds, Expr.relabel, Use.relabel]

theorem Expr.of_eraseIds_eq_property {e e' object : Expr} {name : Token}
    (h : e'.eraseIds = e.eraseIds) (he : e = .property object name) :
    ∃ object', e' = .property object' name ∧ object'.eraseIds = object.eraseIds := by
  subst he
  cases e' <;> simp_all [Expr.eraseIds, Expr.relabel]

theorem assignTo_of_no_target {equals : Token} {value e : Expr} (hv : ∀ use, e ≠ .variable use)
    (hp : ∀ object name, e ≠ .property object name) :
    assignTo equals value e = (do
      report equals .invalidAssignmentTarget
      return e) := by
  cases e with
  | «variable» use => exact absurd rfl (hv use)
  | property object name => exact absurd rfl (hp object name)
  | _ => rfl

/-- The number of an assignment is given out behind those of its value. -/
theorem numbers_assignTo {n m k : NodeId} {equals : Token} {left left' value value' : Expr}
    (hleft : ExprNumbers n m left left') (hvalue : ExprNumbers m k value value') :
    Numbers k (assignTo equals value left) (assignTo equals value' left') (ExprNumbers n) := by
  by_cases hv : ∃ use, left = .variable use
  · obtain ⟨use, rfl⟩ := hv
    obtain ⟨use', rfl, htoken⟩ := Expr.token_of_eraseIds_eq_variable hleft.erase_eq rfl
    refine numbers_freshId.bind fun k' id id' _ hid => .pure ⟨?_, ?_⟩
    · have := hvalue.erase_eq
      simp_all [Expr.eraseIds, Expr.relabel, Use.relabel, Relabeling.eraseIds]
    · have hnew : Fresh k k' [⟨.assign, ⟨id, use.token⟩, use.name⟩] := .single hid.1 hid.2
      exact ((hvalue.fresh.append hnew).mono hleft.fresh.le le_rfl).perm
        (List.perm_append_singleton _ _)
  by_cases hp : ∃ object name, left = .property object name
  · obtain ⟨object, name, rfl⟩ := hp
    obtain ⟨object', rfl, hobject⟩ := Expr.of_eraseIds_eq_property hleft.erase_eq rfl
    refine .pure ⟨?_, hleft.fresh.append hvalue.fresh⟩
    have := hvalue.erase_eq
    simp_all [Expr.eraseIds, Expr.relabel]
  · have hv' : ∀ use, left' ≠ .variable use := fun use h =>
      have ⟨use', h', _⟩ := Expr.token_of_eraseIds_eq_variable hleft.erase_eq.symm h
      hv ⟨use', h'⟩
    have hp' : ∀ object name, left' ≠ .property object name := fun object name h =>
      have ⟨object', h', _⟩ := Expr.of_eraseIds_eq_property hleft.erase_eq.symm h
      hp ⟨object', name, h'⟩
    rw [assignTo_of_no_target (fun use h => hv ⟨use, h⟩) fun object name h => hp ⟨object, name, h⟩,
      assignTo_of_no_target hv' hp']
    exact Plain.report.bind fun _ => .pure ⟨hleft.erase_eq, hleft.fresh.mono le_rfl hvalue.fresh.le⟩

theorem numbers_atom? {n : NodeId} :
    Numbers n atom? atom? fun m o o' => Option.Rel (ExprNumbers n m) o o' := by
  refine Plain.takeIf?.bind fun o => ?_
  cases o with
  | none => exact .pure .none
  | some t =>
    dsimp only
    split
    · exact .pure (.some ⟨rfl, .nil le_rfl⟩)
    · exact .pure (.some ⟨rfl, .nil le_rfl⟩)
    · exact .pure (.some ⟨rfl, .nil le_rfl⟩)
    · exact .pure (.some ⟨rfl, .nil le_rfl⟩)
    · refine Plain.expect.bind fun dot => Plain.expectName.bind fun method => ?_
      exact numbers_freshId.bind fun m id id' _ hid =>
        .pure (.some ⟨rfl, .single hid.1 hid.2⟩)
    · exact numbers_freshId.bind fun m id id' _ hid =>
        .pure (.some ⟨rfl, .single hid.1 hid.2⟩)
    · exact numbers_freshId.bind fun m id id' _ hid =>
        .pure (.some ⟨rfl, .single hid.1 hid.2⟩)
    · exact .pure (.some ⟨rfl, .nil le_rfl⟩)

/-- The readers of expressions, at one amount of fuel. -/
structure ExpressionNumbers (fuel : Nat) : Prop where
  expression {n : NodeId} : Numbers n (expression fuel) (expression fuel) (ExprNumbers n)
  operation {n : NodeId} (level : Level) :
    Numbers n (operation fuel level) (operation fuel level) (ExprNumbers n)
  operators {n m : NodeId} (level : Level) {left left' : Expr} (h : ExprNumbers n m left left') :
    Numbers m (operators fuel level left) (operators fuel level left') (ExprNumbers n)
  unary {n : NodeId} : Numbers n (unary fuel) (unary fuel) (ExprNumbers n)
  accesses {n m : NodeId} {object object' : Expr} (h : ExprNumbers n m object object') :
    Numbers m (accesses fuel object) (accesses fuel object') (ExprNumbers n)
  arguments {n : NodeId} (count : Nat) :
    Numbers n (arguments fuel count) (arguments fuel count) (ExprsNumbers n)
  primary {n : NodeId} : Numbers n (primary fuel) (primary fuel) (ExprNumbers n)

namespace ExpressionNumbers

variable {fuel : Nat} {n m : NodeId}

theorem operand (h : ExpressionNumbers fuel) (level : Option Level) :
    Numbers n (Grammar.operand fuel level) (Grammar.operand fuel level) (ExprNumbers n) := by
  cases level with
  | none => exact h.unary
  | some level => exact h.operation level

theorem succ_expression (h : ExpressionNumbers fuel) :
    Numbers n (Grammar.expression (fuel + 1)) (Grammar.expression (fuel + 1)) (ExprNumbers n) := by
  unfold Grammar.expression
  refine (h.operation .disjunction).bind fun m left left' _ hleft => Plain.takeIf?.bind fun o => ?_
  cases o with
  | none => exact .pure hleft
  | some equals => exact h.expression.bind fun k value value' _ hvalue => numbers_assignTo hleft hvalue

theorem succ_operation (h : ExpressionNumbers fuel) (level : Level) :
    Numbers n (Grammar.operation (fuel + 1) level) (Grammar.operation (fuel + 1) level)
      (ExprNumbers n) := by
  rw [operation_succ]
  exact (h.operand _).bind fun m left left' _ hleft => h.operators level hleft

theorem combine {k : NodeId} {left left' right right' : Expr} (level : Level) (operator : Token)
    (hleft : ExprNumbers n m left left') (hright : ExprNumbers m k right right') :
    ExprNumbers n k (level.combine left operator right) (level.combine left' operator right') := by
  obtain ⟨hleft, hfresh⟩ := hleft
  obtain ⟨hright, hfresh'⟩ := hright
  refine ⟨?_, ?_⟩
  · simp only [Expr.eraseIds, Level.relabel_combine] at hleft hright ⊢
    rw [hleft, hright]
  · have hocc : (level.combine left operator right).occurrences =
        left.occurrences ++ right.occurrences := by cases level <;> rfl
    rw [hocc]
    exact hfresh.append hfresh'

theorem succ_operators (h : ExpressionNumbers fuel) (level : Level) {left left' : Expr}
    (hleft : ExprNumbers n m left left') :
    Numbers m (Grammar.operators (fuel + 1) level left) (Grammar.operators (fuel + 1) level left')
      (ExprNumbers n) := by
  rw [operators_succ, operators_succ]
  refine Plain.takeIf?.bind fun o => ?_
  cases o with
  | none => exact .pure hleft
  | some operator =>
    exact (h.operand _).bind fun k right right' _ hright =>
      h.operators level (combine level operator hleft hright)

theorem succ_unary (h : ExpressionNumbers fuel) :
    Numbers n (Grammar.unary (fuel + 1)) (Grammar.unary (fuel + 1)) (ExprNumbers n) := by
  unfold Grammar.unary
  refine Plain.takeIf?.bind fun o => ?_
  cases o with
  | some operator =>
    refine h.unary.bind fun m operand operand' _ ho => .pure ⟨?_, ho.fresh⟩
    exact congrArg (Expr.unary operator) ho.erase_eq
  | none => exact h.primary.bind fun m callee callee' _ hcallee => h.accesses hcallee

theorem succ_accesses (h : ExpressionNumbers fuel) {object object' : Expr}
    (hobject : ExprNumbers n m object object') :
    Numbers m (Grammar.accesses (fuel + 1) object) (Grammar.accesses (fuel + 1) object')
      (ExprNumbers n) := by
  rw [accesses_succ, accesses_succ]
  refine Plain.takeIf?.bind fun o => ?_
  cases o with
  | some left =>
    refine (Numbers.listUnless rfl (h.arguments 0)).bind fun k values values' _ hvalues =>
      Plain.expect.bind fun paren => h.accesses ⟨?_, hobject.fresh.append hvalues.fresh⟩
    simp only [Expr.eraseIds, Expr.relabel, Expr.relabelAll_eq_map]
    exact congrArg₂ (Expr.call · paren ·) hobject.erase_eq hvalues.erase_eq
  | none =>
    refine Plain.takeIf?.bind fun o => ?_
    cases o with
    | some dot =>
      refine Plain.expectName.bind fun name => h.accesses ⟨?_, hobject.fresh⟩
      exact congrArg (Expr.property · name) hobject.erase_eq
    | none => exact .pure hobject

theorem succ_arguments (h : ExpressionNumbers fuel) (count : Nat) :
    Numbers n (Grammar.arguments (fuel + 1) count) (Grammar.arguments (fuel + 1) count)
      (ExprsNumbers n) := by
  rw [arguments_succ]
  refine Plain.noteCount.bind fun _ => h.expression.bind fun m e e' _ he =>
    Plain.takeIf?.bind fun o => ?_
  cases o with
  | some comma =>
    refine (h.arguments (count + 1)).bind fun k es es' _ hes => .pure ⟨?_, ?_⟩
    · rw [List.map_cons, List.map_cons, he.erase_eq, hes.erase_eq]
    · exact he.fresh.append hes.fresh
  | none =>
    refine .pure ⟨?_, ?_⟩
    · rw [List.map_cons, List.map_cons, he.erase_eq, List.map_nil]
    · exact he.fresh.append (.nil le_rfl)

theorem succ_primary (h : ExpressionNumbers fuel) :
    Numbers n (Grammar.primary (fuel + 1)) (Grammar.primary (fuel + 1)) (ExprNumbers n) := by
  unfold Grammar.primary
  refine numbers_atom?.bind fun m o o' hle ho => ?_
  cases ho with
  | some he => exact .pure he
  | none =>
    refine Plain.takeIf?.bind fun o => ?_
    cases o with
    | none => exact .fail
    | some left =>
      refine h.expression.bind fun k inner inner' _ hinner => Plain.expect.bind fun right => ?_
      exact .pure ⟨congrArg Expr.group hinner.erase_eq, hinner.fresh.mono hle le_rfl⟩

end ExpressionNumbers

theorem expressionNumbers (fuel : Nat) : ExpressionNumbers fuel := by
  induction fuel with
  | zero =>
    refine ⟨?_, fun _ => ?_, fun _ _ _ _ => ?_, ?_, fun _ => ?_, fun _ => ?_, ?_⟩
    · unfold expression; exact .throw
    · unfold operation; exact .throw
    · unfold operators; exact .throw
    · unfold unary; exact .throw
    · unfold accesses; exact .throw
    · unfold arguments; exact .throw
    · unfold primary; exact .throw
  | succ fuel ih =>
    exact ⟨ih.succ_expression, ih.succ_operation, ih.succ_operators, ih.succ_unary,
      ih.succ_accesses, ih.succ_arguments, ih.succ_primary⟩

theorem expression_numbers (fuel : Nat) {n : NodeId} :
    Numbers n (expression fuel) (expression fuel) (ExprNumbers n) :=
  (expressionNumbers fuel).expression

end Grammar

end Treewalk
