import Treewalk.Proofs.Grammar.Completeness.Lookahead
import Treewalk.Proofs.Grammar.Parts

/-!
# Enough fuel for expressions

A reader that nests goes down a bounded number of calls before it takes a token. So a fuel that is
linear in the number of tokens ahead is enough on every list of tokens, well formed or not: reading
never runs out of fuel, and more fuel does not change what is read.

## Main definitions

* `Settles` — two readings of the same tokens do the same, and never run out of fuel

## Main results

* `Settles.bind`, `Settles.bind_takeIf?` — the rule for readings one after the other, and for a
  reading that takes a token first
* `expressionSettles` — the readers of expressions, with enough fuel

## Implementation notes

The relation compares a reader with itself at one unit of fuel more. Each reader has the number of
units that it needs besides those for its tokens, which are sixteen for each.
-/

namespace Treewalk.Grammar

variable {α β : Type}

/-- With at most `size` tokens ahead the two readings do the same: they give a result that leaves at
most `rest` tokens, or are abandoned at a fault. -/
def Settles (size rest : Nat) (read read' : Reading α) : Prop :=
  ∀ c : Cursor, c.ahead.length ≤ size → read' c = read c ∧
    match read c with
    | .ok _ d => d.ahead.length ≤ rest
    | .error stop d => stop ≠ .exhausted ∧ d.ahead.length ≤ size

namespace Settles

variable {size mid rest rest' : Nat} {read read' : Reading α} {f f' : α → Reading β}

theorem mono (h : Settles size rest read read') (hle : rest ≤ rest') :
    Settles size rest' read read' := by
  intro c hc
  obtain ⟨heq, hend⟩ := h c hc
  refine ⟨heq, ?_⟩
  split at hend
  · exact hend.trans hle
  · exact hend

protected theorem pure {a : α} (h : size ≤ rest) : Settles size rest (pure a) (pure a) :=
  fun _ hc => ⟨rfl, hc.trans h⟩

/-- The second readings find what the first ones leave. -/
protected theorem bind (hx : Settles size mid read read') (hmid : mid ≤ size)
    (hf : ∀ a, Settles mid rest (f a) (f' a)) : Settles size rest (read >>= f) (read' >>= f') := by
  intro c hc
  obtain ⟨heq, hend⟩ := hx c hc
  simp only [bind, EStateM.bind, heq]
  cases hr : read c with
  | error stop d =>
    rw [hr] at hend
    exact ⟨rfl, hend⟩
  | ok a d =>
    rw [hr] at hend
    obtain ⟨heq', hend'⟩ := hf a d hend
    refine ⟨heq', ?_⟩
    dsimp only
    split at hend'
    · exact hend'
    · exact ⟨hend'.1, hend'.2.trans hmid⟩

protected theorem map {g : α → β} (hx : Settles size rest read read') :
    Settles size rest (g <$> read) (g <$> read') := by
  intro c hc
  obtain ⟨heq, hend⟩ := hx c hc
  simp only [Functor.map, EStateM.map, heq]
  cases hr : read c <;> rw [hr] at hend
  · exact ⟨trivial, hend⟩
  · exact ⟨trivial, hend⟩

/-! ### The next token -/

/-- If a token is taken there was one, and one less is left. -/
theorem bind_takeIf? {p : Token → Bool} {f f' : Option Token → Reading β}
    (hnone : Settles size rest (f none) (f' none))
    (hsome : ∀ t n, size = n + 1 → Settles n rest (f (some t)) (f' (some t))) :
    Settles size rest (takeIf? p >>= f) (takeIf? p >>= f') := by
  rintro ⟨ahead, finish, nextId, faults⟩ hc
  cases ahead with
  | nil => exact hnone _ hc
  | cons t ahead =>
    by_cases h : p t
    · obtain ⟨n, rfl⟩ := Nat.exists_eq_succ_of_ne_zero (Nat.ne_of_gt (Nat.zero_lt_of_lt hc))
      obtain ⟨heq, hend⟩ :=
        hsome t n rfl ⟨ahead, finish, nextId, faults⟩ (Nat.le_of_succ_le_succ hc)
      simp only [bind, EStateM.bind, Grammar.takeIf?, h, if_true]
      refine ⟨heq, ?_⟩
      split at hend
      · exact hend
      · exact ⟨hend.1, hend.2.trans (Nat.le_succ n)⟩
    · simp only [bind, EStateM.bind, Grammar.takeIf?, h]
      exact hnone _ hc

theorem fail {cause : GrammarFault} : Settles size rest (fail cause : Reading α) (fail cause) :=
  fun _ hc => ⟨rfl, nofun, hc⟩

theorem peek : Settles size size peek peek := fun _ hc => ⟨rfl, hc⟩

theorem nextIs {s : Symbol} : Settles size size (nextIs s) (nextIs s) := fun _ hc => ⟨rfl, hc⟩

theorem report {t : Token} {cause : GrammarFault} :
    Settles size size (report t cause) (report t cause) := fun _ hc => ⟨rfl, hc⟩

theorem freshId : Settles size size freshId freshId := fun _ hc => ⟨rfl, hc⟩

theorem bind_expect {s : Symbol} {place : SymbolPlace} {f f' : Token → Reading β}
    (h : ∀ t n, size = n + 1 → Settles n rest (f t) (f' t)) :
    Settles size rest (expect s place >>= f) (expect s place >>= f') := by
  simp only [expect, bind_assoc]
  refine bind_takeIf? (fun _ hc => ⟨rfl, nofun, hc⟩) fun t n hn => ?_
  simp only [pure_bind]
  exact h t n hn

theorem bind_expectName {place : NamePlace} {f f' : Token → Reading β}
    (h : ∀ t n, size = n + 1 → Settles n rest (f t) (f' t)) :
    Settles size rest (expectName place >>= f) (expectName place >>= f') := by
  simp only [expectName, bind_assoc]
  refine bind_takeIf? (fun _ hc => ⟨rfl, nofun, hc⟩) fun t n hn => ?_
  simp only [pure_bind]
  exact h t n hn

/-- Behind the end of the input nothing is ahead. -/
theorem bind_atEnd {f f' : Bool → Reading β} (htrue : Settles size rest (f true) (f' true))
    (hfalse : ∀ n, size = n + 1 → Settles size rest (f false) (f' false)) :
    Settles size rest (atEnd >>= f) (atEnd >>= f') := by
  rintro ⟨ahead, finish, nextId, faults⟩ hc
  cases ahead with
  | nil => exact htrue _ hc
  | cons t ahead =>
    obtain ⟨n, rfl⟩ := Nat.exists_eq_succ_of_ne_zero (Nat.ne_of_gt (Nat.zero_lt_of_lt hc))
    exact hfalse n rfl _ hc

/-! ### Parts -/

theorem noteCount {count : Nat} {cause : GrammarFault} :
    Settles size size (noteCount count cause) (noteCount count cause) := by
  rw [Grammar.noteCount]
  split
  · exact peek.bind le_rfl fun t => report
  · exact .pure le_rfl

theorem optionalUnless {s : Symbol} (h : Settles size size read read') :
    Settles size size (optionalUnless s read) (optionalUnless s read') :=
  nextIs.bind le_rfl fun b => by
    cases b with
    | true => exact .pure le_rfl
    | false => exact h.map

theorem listUnless {s : Symbol} {read read' : Reading (List α)} (h : Settles size size read read') :
    Settles size size (listUnless s read) (listUnless s read') :=
  nextIs.bind le_rfl fun b => by
    cases b with
    | true => exact .pure le_rfl
    | false => exact h

end Settles

theorem length_fromBoundary_le (tokens : List Token) :
    (fromBoundary tokens).length ≤ tokens.length := by
  induction tokens with
  | nil => exact le_rfl
  | cons t rest ih =>
    rw [fromBoundary, List.length_cons]
    split
    · exact le_rfl
    split
    · exact Nat.le_succ _
    · exact ih.trans (Nat.le_succ _)

theorem length_resync_le (tokens : List Token) : (resync tokens).length ≤ tokens.length - 1 := by
  cases tokens with
  | nil => exact le_rfl
  | cons t rest =>
    rw [resync]
    split
    · exact le_rfl
    · exact length_fromBoundary_le rest

/-- What is abandoned costs a token as well. -/
theorem Settles.recover {size : Nat} {read read' : Reading α}
    (h : Settles size (size - 1) read read') :
    Settles size (size - 1) (recover read) (recover read') := by
  intro c hc
  obtain ⟨heq, hend⟩ := h c hc
  unfold Grammar.recover
  rw [heq]
  cases hr : read c with
  | ok a d =>
    rw [hr] at hend
    exact ⟨rfl, hend⟩
  | error stop d =>
    rw [hr] at hend
    cases stop with
    | exhausted => exact absurd rfl hend.1
    | fault anchor cause =>
      exact ⟨rfl, (length_resync_le d.ahead).trans (Nat.sub_le_sub_right hend.2 1)⟩

/-! ### Expressions -/

theorem settles_assignTo {size : Nat} (equals : Token) (value target : Expr) :
    Settles size size (assignTo equals value target) (assignTo equals value target) := by
  cases target with
  | «variable» use => exact Settles.freshId.bind le_rfl fun id => .pure le_rfl
  | property object name => exact .pure le_rfl
  | _ => exact Settles.report.bind le_rfl fun _ => .pure le_rfl

theorem settles_atom? {size : Nat} : Settles size size atom? atom? := by
  refine Settles.bind_takeIf? (.pure le_rfl) fun t n hn => ?_
  have hle : n ≤ size := hn ▸ Nat.le_succ n
  dsimp only
  split
  · exact .pure hle
  · exact .pure hle
  · exact .pure hle
  · exact .pure hle
  · refine Settles.bind_expect fun dot m hm => Settles.bind_expectName fun method k hk => ?_
    exact Settles.freshId.bind le_rfl fun id => .pure (by omega)
  · exact Settles.freshId.bind le_rfl fun id => .pure hle
  · exact Settles.freshId.bind le_rfl fun id => .pure hle
  · exact .pure hle

/-- The readers of expressions, at one amount of fuel and at one unit more. -/
structure ExpressionSettles (fuel : Nat) : Prop where
  expression {size : Nat} (h : 16 * size + 10 ≤ fuel) :
    Settles size size (expression fuel) (expression (fuel + 1))
  operand {size : Nat} (level : Option Level) (h : 16 * size + 11 ≤ fuel + operandRank level) :
    Settles size size (operand fuel level) (operand (fuel + 1) level)
  operators {size : Nat} (level : Level) (left : Expr) (h : 16 * size + 1 ≤ fuel) :
    Settles size size (operators fuel level left) (operators (fuel + 1) level left)
  accesses {size : Nat} (object : Expr) (h : 16 * size + 1 ≤ fuel) :
    Settles size size (accesses fuel object) (accesses (fuel + 1) object)
  arguments {size : Nat} (count : Nat) (h : 16 * size + 11 ≤ fuel) :
    Settles size size (arguments fuel count) (arguments (fuel + 1) count)
  primary {size : Nat} (h : 16 * size + 1 ≤ fuel) :
    Settles size size (primary fuel) (primary (fuel + 1))

namespace ExpressionSettles

variable {fuel size : Nat}

theorem succ_expression (ih : ExpressionSettles fuel) (h : 16 * size + 10 ≤ fuel + 1) :
    Settles size size (Grammar.expression (fuel + 1)) (Grammar.expression (fuel + 2)) := by
  unfold Grammar.expression
  have hleft :
      Settles size size (operation fuel .disjunction) (operation (fuel + 1) .disjunction) :=
    ih.operand (some .disjunction) (by change _ ≤ fuel + 2; omega)
  refine hleft.bind le_rfl fun left => Settles.bind_takeIf? (.pure le_rfl) fun equals n hn => ?_
  exact ((ih.expression (by omega)).bind le_rfl fun value =>
    settles_assignTo equals value left).mono (by omega)

theorem succ_operation (ih : ExpressionSettles fuel) (level : Level)
    (h : 16 * size + 11 ≤ fuel + 1 + level.rank) :
    Settles size size (operation (fuel + 1) level) (operation (fuel + 2) level) := by
  rw [operation_succ, operation_succ]
  have hrank : operandRank level.tighter? = level.rank + 1 := operandRank_tighter? level
  have hle : operandRank level.tighter? ≤ 8 := operandRank_le _
  exact (ih.operand _ (by omega)).bind le_rfl fun left => ih.operators level left (by omega)

theorem succ_unary (ih : ExpressionSettles fuel) (h : 16 * size + 3 ≤ fuel + 1) :
    Settles size size (unary (fuel + 1)) (unary (fuel + 2)) := by
  unfold unary
  refine Settles.bind_takeIf? ?_ fun operator n hn => ?_
  · exact (ih.primary (by omega)).bind le_rfl fun callee => ih.accesses callee (by omega)
  · have hoperand : Settles n n (unary fuel) (unary (fuel + 1)) :=
      ih.operand none (by change _ ≤ fuel + 8; omega)
    exact hoperand.bind le_rfl fun operand => .pure (by omega)

theorem succ_operators (ih : ExpressionSettles fuel) (level : Level) (left : Expr)
    (h : 16 * size + 1 ≤ fuel + 1) :
    Settles size size (Grammar.operators (fuel + 1) level left)
      (Grammar.operators (fuel + 2) level left) := by
  rw [operators_succ, operators_succ]
  refine Settles.bind_takeIf? (.pure le_rfl) fun operator n hn => ?_
  exact ((ih.operand _ (by omega)).bind le_rfl fun right =>
    ih.operators level _ (by omega)).mono (by omega)

theorem succ_accesses (ih : ExpressionSettles fuel) (object : Expr)
    (h : 16 * size + 1 ≤ fuel + 1) :
    Settles size size (Grammar.accesses (fuel + 1) object)
      (Grammar.accesses (fuel + 2) object) := by
  rw [accesses_succ, accesses_succ]
  refine Settles.bind_takeIf? ?_ fun paren n hn => ?_
  · refine Settles.bind_takeIf? (.pure le_rfl) fun dot n hn => ?_
    refine Settles.bind_expectName fun name m hm => ?_
    exact (ih.accesses _ (by omega)).mono (by omega)
  · refine (Settles.listUnless (ih.arguments 0 (by omega))).bind le_rfl fun values => ?_
    refine Settles.bind_expect fun right m hm => ?_
    exact (ih.accesses _ (by omega)).mono (by omega)

theorem succ_arguments (ih : ExpressionSettles fuel) (count : Nat)
    (h : 16 * size + 11 ≤ fuel + 1) :
    Settles size size (Grammar.arguments (fuel + 1) count)
      (Grammar.arguments (fuel + 2) count) := by
  rw [arguments_succ, arguments_succ]
  refine Settles.noteCount.bind le_rfl fun _ =>
    (ih.expression (by omega)).bind le_rfl fun argument => ?_
  refine Settles.bind_takeIf? (.pure le_rfl) fun comma n hn => ?_
  exact (ih.arguments (count + 1) (by omega)).bind le_rfl fun values => .pure (by omega)

theorem succ_primary (ih : ExpressionSettles fuel) (h : 16 * size + 1 ≤ fuel + 1) :
    Settles size size (Grammar.primary (fuel + 1)) (Grammar.primary (fuel + 2)) := by
  unfold Grammar.primary
  refine settles_atom?.bind le_rfl fun o => ?_
  cases o with
  | some e => exact .pure le_rfl
  | none =>
    refine Settles.bind_takeIf? .fail fun left n hn => ?_
    refine (ih.expression (by omega)).bind le_rfl fun inner => ?_
    exact Settles.bind_expect fun right m hm => .pure (by omega)

end ExpressionSettles

/-- A token ahead is worth sixteen units; ten more bring an expression down to its first token. -/
theorem expressionSettles (fuel : Nat) : ExpressionSettles fuel := by
  induction fuel with
  | zero =>
    refine ⟨fun h => by omega, fun level h => ?_, fun _ _ h => by omega, fun _ h => by omega,
      fun _ h => by omega, fun h => by omega⟩
    have := operandRank_le level
    omega
  | succ fuel ih =>
    refine ⟨ih.succ_expression, fun level h => ?_, ih.succ_operators, ih.succ_accesses,
      ih.succ_arguments, ih.succ_primary⟩
    cases level with
    | none => exact ih.succ_unary (by change _ ≤ fuel + 1 + 8 at h; omega)
    | some level => exact ih.succ_operation level h

end Treewalk.Grammar
