import Mathlib.Data.List.Forall2
import Mathlib.Data.List.TakeWhile
import Treewalk.Proofs.Grammar.FaultCount
import Treewalk.Proofs.Grammar.Script

/-!
# Reading by position

A token list need not be taken apart to be read: it can be kept as it is, with the position of the
next token beside it. Then each look at a token is a look at a position, and that may be out of
bounds. Here the steps of a script are given this meaning. A script does the same by position as it
does to the tokens ahead, and no position is out of bounds, if only the list ends in an end of input
and no fault is met at a list that has nothing else.

The positions also tell where declarations are abandoned. Reading never goes back, and what is
skipped begins with the token at fault, so these positions increase until the end of the input.

## Main definitions

* `withEnd` — a token list with an end of input at its end
* `Place`, `Halt`, `Indexing` — reading by position, and how it can stop
* `Script.onVector` — what the steps do to a position
* `Place.Sound` — what is true of positions at any time

## Main results

* `Script.follows` — a script by position and on the tokens ahead
* `parse_by_position` — every token list is read by position to its end
-/

namespace Treewalk.Grammar

variable {α β : Type}

/-- The tokens with an end of input behind them, unless there is one at their end. -/
def withEnd (tokens : List Token) : List Token :=
  if tokens.getLast?.any Token.isEnd then tokens
  else tokens ++ [⟨.endOfInput, "", (tokens.getLast?.map Token.line).getD 1⟩]

/-- The state of reading by position. `anchors` holds the positions at which declarations were
abandoned, the latest first as in `faults`. -/
structure Place where
  current : Nat
  nextId : NodeId
  faults : List Diagnostic
  anchors : List Nat

def Place.start (firstId : NodeId) : Place := ⟨0, firstId, [], []⟩

/-- Why reading by position stops: as before, or at a position where there is no token. -/
inductive Halt
  | fault (position : Nat) (anchor : Token) (cause : GrammarFault)
  | exhausted
  | outOfBounds

abbrev Indexing := EStateM Halt Place

/-! ### Steps by position -/

namespace Indexing

variable (tokens : List Token)

/-- The token at a position. -/
def tokenAt (i : Nat) : Indexing Token :=
  match tokens[i]? with
  | some t => return t
  | none => throw .outOfBounds

def peek : Indexing Token := do tokenAt tokens (← get).current

/-- The token in front of the next one. -/
def previous : Indexing Token := do
  match (← get).current with
  | 0 => throw .outOfBounds
  | i + 1 => tokenAt tokens i

def atEnd : Indexing Bool := return (← peek tokens).isEnd

/-- Goes on by a token, but not behind the end of the input. -/
def advance : Indexing Token := do
  if ← atEnd tokens then previous tokens
  else
    modify fun p => { p with current := p.current + 1 }
    previous tokens

def check (p : Token → Bool) : Indexing Bool := do
  if ← atEnd tokens then return false else return p (← peek tokens)

def takeIf? (p : Token → Bool) : Indexing (Option Token) := do
  if ← check tokens p then return some (← advance tokens) else return none

def fail (cause : GrammarFault) : Indexing α := do
  let anchor ← peek tokens
  throw (.fault (← get).current anchor cause)

def report (anchor : Token) (cause : GrammarFault) : Indexing Unit :=
  modify fun p => { p with faults := .grammar anchor cause :: p.faults }

def freshId : Indexing NodeId :=
  modifyGet fun p => (p.nextId, { p with nextId := p.nextId + 1 })

/-- Goes on behind a semicolon or to a token that starts a statement. -/
def skip : Nat → Indexing Unit
  | 0 => throw .exhausted
  | fuel + 1 => do
    if ← atEnd tokens then return ()
    else if (← previous tokens).isSymbol .semicolon then return ()
    else if startsStatement (← peek tokens) then return ()
    else
      let _ ← advance tokens
      skip fuel

def synchronize : Indexing Unit := do
  let _ ← advance tokens
  skip tokens tokens.length

def recover (read : Indexing α) : Indexing (Option α) := fun p =>
  match read p with
  | .ok a p => .ok (some a) p
  | .error (.fault position anchor cause) p =>
    (do synchronize tokens; return none : Indexing (Option α))
      { p with faults := .grammar anchor cause :: p.faults, anchors := position :: p.anchors }
  | .error .exhausted p => .error .exhausted p
  | .error .outOfBounds p => .error .outOfBounds p

end Indexing

/-- What the steps do to a position. -/
def Script.onVector (tokens : List Token) : {α : Type} → Script α → Indexing α
  | _, .pure a => Pure.pure a
  | _, .bind first next => first.onVector tokens >>= fun a => (next a).onVector tokens
  | _, .exhausted => throw .exhausted
  | _, .fail cause _ => Indexing.fail tokens cause
  | _, .report anchor cause _ => Indexing.report anchor cause
  | _, .peek => Indexing.peek tokens
  | _, .takeIf? p => Indexing.takeIf? tokens p
  | _, .nextIs s => Indexing.check tokens (·.isSymbol s)
  | _, .atEnd => Indexing.atEnd tokens
  | _, .freshId => Indexing.freshId
  | _, .recover script => Indexing.recover tokens (script.onVector tokens)

/-! ### One step after the other -/

theorem bind_ok {ε σ : Type} {first : EStateM ε σ α} {next : α → EStateM ε σ β} {s s' : σ} {a : α}
    (h : first s = .ok a s') : (first >>= next) s = next a s' := by
  simp only [bind, EStateM.bind, h]

theorem bind_error {ε σ : Type} {first : EStateM ε σ α} {next : α → EStateM ε σ β} {s s' : σ}
    {stop : ε} (h : first s = .error stop s') : (first >>= next) s = .error stop s' := by
  simp only [bind, EStateM.bind, h]

/-! ### Tokens up to the first end of input -/

/-- The tokens in front of the first end of input, and that one. -/
structure Layout (tokens front : List Token) (finish : Token) : Prop where
  eq : ∃ rest, tokens = front ++ finish :: rest
  front : ∀ t ∈ front, t.isEnd = false
  finish : finish.isEnd

/-- The tokens ahead at a position. -/
def Place.cursor (front : List Token) (finish : Token) (p : Place) : Cursor :=
  ⟨front.drop p.current, finish, p.nextId, p.faults⟩

namespace Layout

variable {tokens front : List Token} {finish : Token}

theorem length_lt (h : Layout tokens front finish) : front.length < tokens.length := by
  obtain ⟨rest, rfl⟩ := h.eq
  simp

theorem getElem?_length (h : Layout tokens front finish) : tokens[front.length]? = some finish := by
  obtain ⟨rest, rfl⟩ := h.eq
  simp

/-- A position is that of the end of the input, or that of the first token ahead. -/
theorem ahead (h : Layout tokens front finish) {i : Nat} (hi : i ≤ front.length) :
    i = front.length ∧ front.drop i = [] ∧ tokens[i]? = some finish ∨
      ∃ t, i < front.length ∧ front.drop i = t :: front.drop (i + 1) ∧ tokens[i]? = some t ∧
        t.isEnd = false := by
  obtain rfl | hlt := hi.eq_or_lt
  · exact .inl ⟨rfl, List.drop_length, h.getElem?_length⟩
  · obtain ⟨rest, rfl⟩ := h.eq
    refine .inr ⟨front[i], hlt, List.drop_eq_getElem_cons hlt, ?_, h.front _ (List.getElem_mem hlt)⟩
    rw [List.getElem?_append_left hlt, List.getElem?_eq_getElem hlt]

variable {p : Place} {t : Token}

theorem peek_eq (hget : tokens[p.current]? = some t) : Indexing.peek tokens p = .ok t p := by
  change Indexing.tokenAt tokens p.current p = _
  rw [Indexing.tokenAt, hget]
  rfl

theorem previous_eq (hpos : 0 < p.current) (hget : tokens[p.current - 1]? = some t) :
    Indexing.previous tokens p = .ok t p := by
  obtain ⟨current, nextId, faults, anchors⟩ := p
  obtain ⟨i, rfl⟩ := Nat.exists_eq_succ_of_ne_zero hpos.ne'
  replace hget : tokens[i]? = some t := hget
  change Indexing.tokenAt tokens i _ = _
  rw [Indexing.tokenAt, hget]
  rfl

theorem atEnd_eq (hget : tokens[p.current]? = some t) :
    Indexing.atEnd tokens p = .ok t.isEnd p :=
  bind_ok (peek_eq hget)

theorem advance_eq (hget : tokens[p.current]? = some t) (hend : t.isEnd = false) :
    Indexing.advance tokens p = .ok t { p with current := p.current + 1 } := by
  rw [Indexing.advance, bind_ok (atEnd_eq hget), hend]
  exact previous_eq (p := { p with current := p.current + 1 }) (Nat.succ_pos _) hget

theorem check_eq (f : Token → Bool) (hget : tokens[p.current]? = some t) :
    Indexing.check tokens f p = .ok (!t.isEnd && f t) p := by
  rw [Indexing.check, bind_ok (atEnd_eq hget)]
  cases t.isEnd with
  | true => rfl
  | false => exact bind_ok (peek_eq hget)

theorem takeIf?_eq (f : Token → Bool) (hget : tokens[p.current]? = some t) :
    Indexing.takeIf? tokens f p =
      if !t.isEnd && f t then .ok (some t) { p with current := p.current + 1 } else .ok none p := by
  rw [Indexing.takeIf?, bind_ok (check_eq f hget)]
  split
  · next hf =>
    have hend : t.isEnd = false := by simpa using (Bool.and_eq_true_iff.1 hf).1
    exact bind_ok (advance_eq hget hend)
  · rfl

/-- What is skipped behind a token is what is left behind it up to a boundary. -/
theorem skip (h : Layout tokens front finish) (fuel : Nat) {prev : Token} (hpos : 0 < p.current)
    (hp : p.current ≤ front.length) (hprev : tokens[p.current - 1]? = some prev)
    (hfuel : front.length - p.current < fuel) :
    ∃ q, p.current ≤ q ∧ q ≤ front.length ∧
      Indexing.skip tokens fuel p = .ok () { p with current := q } ∧
      front.drop q = if prev.isSymbol .semicolon then front.drop p.current
        else fromBoundary (front.drop p.current) := by
  induction fuel generalizing p prev with
  | zero => omega
  | succ fuel ih =>
    unfold Indexing.skip
    obtain ⟨hi, hdrop, hget⟩ | ⟨t, hlt, hdrop, hget, hend⟩ := h.ahead hp
    · refine ⟨p.current, le_rfl, hp, ?_, ?_⟩
      · rw [bind_ok (atEnd_eq hget), h.finish]
        rfl
      · rw [hdrop]
        split <;> rfl
    · rw [bind_ok (atEnd_eq hget), hend, if_neg Bool.false_ne_true,
        bind_ok (previous_eq hpos hprev)]
      by_cases hsemicolon : prev.isSymbol .semicolon
      · simp only [hsemicolon, if_true]
        exact ⟨p.current, le_rfl, hp, rfl, rfl⟩
      · rw [if_neg hsemicolon, if_neg hsemicolon, bind_ok (peek_eq hget), hdrop, fromBoundary]
        by_cases hstart : startsStatement t
        · simp only [hstart, if_true]
          exact ⟨p.current, le_rfl, hp, rfl, hdrop⟩
        · obtain ⟨q, hq, hle, hskip, hrest⟩ :=
            @ih { p with current := p.current + 1 } t (Nat.succ_pos _) hlt hget
              (by dsimp only; omega)
          rw [if_neg hstart, if_neg hstart, bind_ok (advance_eq hget hend)]
          exact ⟨q, (Nat.le_succ _).trans hq, hle, hskip, hrest⟩

/-- What is skipped at a fault is the token at fault, if there is one, and what stands behind it up
to a boundary. -/
theorem synchronize (h : Layout tokens front finish) (hfront : front ≠ [])
    (hp : p.current ≤ front.length) :
    ∃ q, (p.current < q ∨ p.current = front.length ∧ q = front.length) ∧ q ≤ front.length ∧
      Indexing.synchronize tokens p = .ok () { p with current := q } ∧
      front.drop q = resync (front.drop p.current) := by
  have hlength := h.length_lt
  unfold Indexing.synchronize
  obtain ⟨hi, hdrop, hget⟩ | ⟨t, hlt, hdrop, hget, hend⟩ := h.ahead hp
  · have hpos : 0 < p.current := hi ▸ List.length_pos_iff.2 hfront
    obtain ⟨prev, hprev⟩ : ∃ prev, tokens[p.current - 1]? = some prev :=
      ⟨_, List.getElem?_eq_getElem (by omega)⟩
    have hadvance : Indexing.advance tokens p = .ok prev p := by
      rw [Indexing.advance, bind_ok (atEnd_eq hget), h.finish, if_pos rfl]
      exact previous_eq hpos hprev
    obtain ⟨q, hq, hle, hskip, hrest⟩ := h.skip tokens.length hpos hp hprev (by omega)
    rw [bind_ok hadvance]
    refine ⟨q, .inr ⟨hi, by omega⟩, hle, hskip, ?_⟩
    rw [hrest, hdrop]
    split <;> rfl
  · obtain ⟨q, hq, hle, hskip, hrest⟩ :=
      h.skip (p := { p with current := p.current + 1 }) tokens.length (Nat.succ_pos _) hlt hget
        (by dsimp only; omega)
    rw [bind_ok (advance_eq hget hend)]
    exact ⟨q, .inl hq, hle, hskip, by rw [hrest, hdrop, resync]⟩

/-- In front of the only token there is none. -/
theorem synchronize_nil (h : Layout tokens [] finish) (hp : p.current = 0) :
    Indexing.synchronize tokens p = .error .outOfBounds p := by
  obtain ⟨current, nextId, faults, anchors⟩ := p
  obtain rfl : current = 0 := hp
  obtain ⟨rest, rfl⟩ := h.eq
  have hadvance : Indexing.advance (finish :: rest) ⟨0, nextId, faults, anchors⟩ =
      .error .outOfBounds ⟨0, nextId, faults, anchors⟩ := by
    rw [Indexing.advance, bind_ok (atEnd_eq (t := finish) rfl), h.finish]
    rfl
  exact bind_error hadvance

theorem next_eq (h : Layout tokens front finish) (hp : p.current ≤ front.length) :
    tokens[p.current]? = some (p.cursor front finish).next := by
  obtain ⟨hi, hdrop, hget⟩ | ⟨t, hlt, hdrop, hget, hend⟩ := h.ahead hp
  · rw [hget, Cursor.next, Place.cursor, hdrop]
    rfl
  · rw [hget, Cursor.next, Place.cursor, hdrop]
    rfl

end Layout

/-! ### Both meanings of a script -/

/-- The token of the diagnostic stands at the position. -/
def AnchoredAt (tokens : List Token) (d : Diagnostic) (i : Nat) : Prop :=
  ∃ t cause, d = .grammar t cause ∧ tokens[i]? = some t

/-- Declarations were abandoned at their faults and in the order of the positions, which are behind
the current one; only the end of the input, at the position `last`, may be met again and again. -/
structure Place.Sound (tokens : List Token) (last : Nat) (p : Place) : Prop where
  current : p.current ≤ last
  anchored : List.Forall₂ (AnchoredAt tokens) (p.faults.filter Diagnostic.unwinds) p.anchors
  decreasing : p.anchors.Pairwise fun i j => j < i ∨ i = j ∧ i = last
  behind : ∀ i ∈ p.anchors, i < p.current ∨ i = last ∧ p.current = last

/-- A sound place may be moved forward. -/
theorem Place.Sound.move {tokens : List Token} {last q : Nat} {p : Place}
    (hp : p.Sound tokens last) (hq : p.current ≤ q) (hle : q ≤ last) :
    ({ p with current := q } : Place).Sound tokens last := by
  refine ⟨hle, hp.anchored, hp.decreasing, fun i hi => ?_⟩
  dsimp only
  have := hp.behind i hi
  omega

/-- The faults met when a reading ends. -/
def faultsOf : EStateM.Result Stop Cursor α → List Diagnostic
  | .ok _ d | .error _ d => d.faults

theorem Script.length_faults_le (script : Script α) (c : Cursor) :
    c.faults.length ≤ (faultsOf (script.read c)).length := by
  induction script generalizing c with
  | bind first next ihfirst ihnext =>
    have hfirst := ihfirst c
    cases hr : first.read c with
    | error stop d =>
      rw [hr] at hfirst
      rw [Script.read, bind_error hr]
      exact hfirst
    | ok a d =>
      rw [hr] at hfirst
      rw [Script.read, bind_ok hr]
      exact hfirst.trans (ihnext a d)
  | report anchor cause h => exact Nat.le_succ _
  | takeIf? p =>
    rw [Script.read, Grammar.takeIf?]
    split
    · split <;> exact le_rfl
    · exact le_rfl
  | recover script ih =>
    have hread := ih c
    rw [Script.read, Grammar.recover]
    cases hr : script.read c with
    | ok a d => rwa [hr] at hread
    | error stop d =>
      rw [hr] at hread
      cases stop with
      | fault anchor cause => exact hread.trans (Nat.le_succ _)
      | exhausted => exact hread
  | _ => exact le_rfl

/-- From a sound place the run does by position what the reading does to the tokens ahead, and gives
a sound place again. It is out of bounds only if nothing is ahead at all and the reading finds a
fault there. -/
def Follows (tokens front : List Token) (finish : Token) (read : Reading α) (run : Indexing α) :
    Prop :=
  ∀ p : Place, p.Sound tokens front.length →
    match run p with
    | .ok a q => read (p.cursor front finish) = .ok a (q.cursor front finish) ∧
        q.Sound tokens front.length
    | .error (.fault i t cause) q =>
        read (p.cursor front finish) = .error (.fault t cause) (q.cursor front finish) ∧
          q.Sound tokens front.length ∧ i = q.current ∧ tokens[i]? = some t ∧ cause.isNote = false
    | .error .exhausted _ => ∃ d, read (p.cursor front finish) = .error .exhausted d
    | .error .outOfBounds _ =>
        front = [] ∧ p.faults.length < (faultsOf (read (p.cursor front finish))).length

section Steps

variable {tokens front : List Token} {finish : Token}

theorem follows_bind {first : Script α} {next : α → Script β}
    (hfirst : Follows tokens front finish first.read (first.onVector tokens))
    (hnext : ∀ a, Follows tokens front finish (next a).read ((next a).onVector tokens)) :
    Follows tokens front finish (first.bind next).read ((first.bind next).onVector tokens) := by
  intro p hp
  have hstep := hfirst p hp
  rw [Script.read, Script.onVector]
  cases hr : first.onVector tokens p with
  | ok a q =>
    rw [hr] at hstep
    obtain ⟨hread, hq⟩ := hstep
    have hrest := hnext a q hq
    have hfaults : p.faults.length ≤ q.faults.length := by
      have hle := first.length_faults_le (p.cursor front finish)
      rwa [hread] at hle
    rw [bind_ok hr, bind_ok hread]
    split at hrest
    · exact hrest
    · exact hrest
    · exact hrest
    · exact ⟨hrest.1, hfaults.trans_lt hrest.2⟩
  | error halt q =>
    rw [hr] at hstep
    rw [bind_error hr]
    cases halt with
    | fault i t cause =>
      obtain ⟨hread, hrest⟩ := hstep
      exact ⟨bind_error hread, hrest⟩
    | exhausted =>
      obtain ⟨d, hread⟩ := hstep
      exact ⟨d, bind_error hread⟩
    | outOfBounds =>
      obtain ⟨hfront, hfaults⟩ := hstep
      refine ⟨hfront, ?_⟩
      cases hread : first.read (p.cursor front finish) with
      | ok a d =>
        rw [hread] at hfaults
        rw [bind_ok hread]
        exact hfaults.trans_le ((next a).length_faults_le d)
      | error stop d =>
        rw [hread] at hfaults
        rw [bind_error hread]
        exact hfaults

theorem follows_fail (h : Layout tokens front finish) {cause : GrammarFault}
    (hcause : cause.isNote = false) :
    Follows tokens front finish (fail cause : Reading α) (Indexing.fail tokens cause) := by
  intro p hp
  have hget := h.next_eq hp.current
  rw [Indexing.fail, bind_ok (Layout.peek_eq hget)]
  exact ⟨rfl, hp, rfl, hget, hcause⟩

theorem follows_peek (h : Layout tokens front finish) :
    Follows tokens front finish peek (Indexing.peek tokens) := by
  intro p hp
  rw [Layout.peek_eq (h.next_eq hp.current)]
  exact ⟨rfl, hp⟩

theorem follows_report {anchor : Token} {cause : GrammarFault} (hcause : cause.isNote) :
    Follows tokens front finish (report anchor cause) (Indexing.report anchor cause) := by
  intro p hp
  refine ⟨rfl, hp.current, ?_, hp.decreasing, hp.behind⟩
  dsimp only
  rw [List.filter_cons_of_neg (by simp [Diagnostic.unwinds_eq_false hcause])]
  exact hp.anchored

theorem follows_takeIf? (h : Layout tokens front finish) (f : Token → Bool) :
    Follows tokens front finish (takeIf? f) (Indexing.takeIf? tokens f) := by
  intro p hp
  obtain ⟨hi, hdrop, hget⟩ | ⟨t, hlt, hdrop, hget, hend⟩ := h.ahead hp.current
  · rw [Layout.takeIf?_eq f hget, h.finish]
    refine ⟨?_, hp⟩
    simp only [takeIf?, Place.cursor, hdrop]
  · rw [Layout.takeIf?_eq f hget, hend]
    cases hf : f t with
    | true =>
      refine ⟨?_, hp.move (Nat.le_succ _) hlt⟩
      simp only [takeIf?, Place.cursor, hdrop, hf, if_true]
    | false =>
      refine ⟨?_, hp⟩
      simp only [takeIf?, Place.cursor, hdrop, hf]
      rfl

theorem follows_nextIs (h : Layout tokens front finish) (s : Symbol) :
    Follows tokens front finish (nextIs s) (Indexing.check tokens (·.isSymbol s)) := by
  intro p hp
  obtain ⟨hi, hdrop, hget⟩ | ⟨t, hlt, hdrop, hget, hend⟩ := h.ahead hp.current
  · rw [Layout.check_eq _ hget, h.finish]
    refine ⟨?_, hp⟩
    change EStateM.Result.ok ((front.drop p.current).head?.any (·.isSymbol s)) _ = _
    rw [hdrop]
    rfl
  · rw [Layout.check_eq _ hget, hend]
    refine ⟨?_, hp⟩
    change EStateM.Result.ok ((front.drop p.current).head?.any (·.isSymbol s)) _ = _
    rw [hdrop]
    rfl

theorem follows_atEnd (h : Layout tokens front finish) :
    Follows tokens front finish atEnd (Indexing.atEnd tokens) := by
  intro p hp
  obtain ⟨hi, hdrop, hget⟩ | ⟨t, hlt, hdrop, hget, hend⟩ := h.ahead hp.current
  · rw [Layout.atEnd_eq hget, h.finish]
    refine ⟨?_, hp⟩
    change EStateM.Result.ok (front.drop p.current).isEmpty _ = _
    rw [hdrop]
    rfl
  · rw [Layout.atEnd_eq hget, hend]
    refine ⟨?_, hp⟩
    change EStateM.Result.ok (front.drop p.current).isEmpty _ = _
    rw [hdrop]
    rfl

/-- Where a declaration is abandoned, the position of the fault is behind those before it, and what
is skipped ends behind that of the fault. -/
theorem Place.Sound.abandon {last r : Nat} {q : Place} {t : Token} {cause : GrammarFault}
    (hq : q.Sound tokens last) (hget : tokens[q.current]? = some t) (hcause : cause.isNote = false)
    (hr : q.current < r ∨ q.current = last ∧ r = last) (hle : r ≤ last) :
    (⟨r, q.nextId, .grammar t cause :: q.faults, q.current :: q.anchors⟩ : Place).Sound
      tokens last := by
  refine ⟨hle, ?_, List.pairwise_cons.2 ⟨fun i hi => ?_, hq.decreasing⟩, fun i hi => ?_⟩
  · rw [List.filter_cons_of_pos (Diagnostic.unwinds_eq_true hcause)]
    exact .cons ⟨t, cause, rfl, hget⟩ hq.anchored
  · have := hq.behind i hi
    omega
  · dsimp only
    obtain rfl | hi := List.mem_cons.1 hi
    · exact hr
    · have := hq.behind i hi
      omega

theorem follows_recover (h : Layout tokens front finish) {script : Script α}
    (hscript : Follows tokens front finish script.read (script.onVector tokens)) :
    Follows tokens front finish script.recover.read (script.recover.onVector tokens) := by
  intro p hp
  have hstep := hscript p hp
  have hfaults := script.length_faults_le (p.cursor front finish)
  rw [Script.read, Script.onVector]
  unfold Grammar.recover Indexing.recover
  cases hr : script.onVector tokens p with
  | ok a q =>
    rw [hr] at hstep
    obtain ⟨hread, hq⟩ := hstep
    rw [hread]
    exact ⟨rfl, hq⟩
  | error halt q =>
    rw [hr] at hstep
    cases halt with
    | fault i t cause =>
      obtain ⟨hread, hq, rfl, hget, hcause⟩ := hstep
      rw [hread] at hfaults ⊢
      obtain rfl | hfront := eq_or_ne front []
      · have hq0 : q.current = 0 := Nat.le_zero.1 hq.current
        have hsync := h.synchronize_nil (p := ⟨q.current, q.nextId,
          .grammar t cause :: q.faults, q.current :: q.anchors⟩) hq0
        dsimp only
        rw [bind_error hsync]
        exact ⟨rfl, Nat.lt_succ_of_le hfaults⟩
      · obtain ⟨r, hr, hle, hsync, hdrop⟩ := h.synchronize (p := ⟨q.current, q.nextId,
          .grammar t cause :: q.faults, q.current :: q.anchors⟩) hfront hq.current
        dsimp only
        rw [bind_ok hsync]
        refine ⟨?_, hq.abandon hget hcause hr hle⟩
        simp only [Place.cursor, hdrop]
    | exhausted =>
      obtain ⟨d, hread⟩ := hstep
      rw [hread]
      exact ⟨d, rfl⟩
    | outOfBounds =>
      obtain ⟨hfront, hgrows⟩ := hstep
      refine ⟨hfront, ?_⟩
      cases hread : script.read (p.cursor front finish) with
      | ok a d => rwa [hread] at hgrows
      | error stop d =>
        rw [hread] at hgrows
        cases stop with
        | fault t cause => exact hgrows.trans (Nat.lt_succ_self _)
        | exhausted => exact hgrows

end Steps

theorem Script.follows {tokens front : List Token} {finish : Token}
    (h : Layout tokens front finish) (script : Script α) :
    Follows tokens front finish script.read (script.onVector tokens) := by
  induction script with
  | pure a => exact fun p hp => ⟨rfl, hp⟩
  | bind first next ihfirst ihnext => exact follows_bind ihfirst ihnext
  | exhausted => exact fun p hp => ⟨p.cursor front finish, rfl⟩
  | fail cause hcause => exact follows_fail h hcause
  | report anchor cause hcause => exact follows_report hcause
  | peek => exact follows_peek h
  | takeIf? f => exact follows_takeIf? h f
  | nextIs s => exact follows_nextIs h s
  | atEnd => exact follows_atEnd h
  | freshId => exact fun p hp => ⟨rfl, hp.current, hp.anchored, hp.decreasing, hp.behind⟩
  | recover script ih => exact follows_recover h ih

/-- At the end of the input a fault would be met without a token in front of it. -/
example : ∃ p, (Script.recover (.fail .missingExpression rfl) : Script (Option Stmt)).onVector
    [⟨.endOfInput, "", 1⟩] (.start 0) = .error .outOfBounds p := ⟨_, rfl⟩

/-! ### Token lists -/

theorem layout_withEnd (tokens : List Token) :
    Layout (withEnd tokens) (tokens.takeWhile (!·.isEnd)) (finishOf tokens) := by
  refine ⟨?_, fun t ht => ?_, ?_⟩
  · cases hfind : tokens.find? Token.isEnd with
    | none =>
      have hnone : ∀ t ∈ tokens, t.isEnd = false := by simpa using List.find?_eq_none.1 hfind
      have htake : tokens.takeWhile (!·.isEnd) = tokens :=
        List.takeWhile_eq_self_iff.2 fun t ht => by simp [hnone t ht]
      have hlast : tokens.getLast?.any Token.isEnd = false := by
        cases hlast : tokens.getLast? with
        | none => rfl
        | some t => exact hnone t (List.mem_of_getLast? hlast)
      refine ⟨[], ?_⟩
      rw [withEnd, hlast, htake, finishOf, hfind]
      rfl
    | some finish =>
      obtain ⟨hfinish, front, rest, rfl, hfront⟩ := List.find?_eq_some_iff_append.1 hfind
      have htake : (front ++ finish :: rest).takeWhile (!·.isEnd) = front := by
        rw [List.takeWhile_append_of_pos hfront, List.takeWhile_cons_of_neg (by simp [hfinish]),
          List.append_nil]
      rw [withEnd, htake, finishOf, hfind]
      split
      · exact ⟨rest, rfl⟩
      · exact ⟨rest ++ [_], by rw [List.append_assoc]; rfl⟩
  · simpa using List.mem_takeWhile_imp ht
  · rw [finishOf]
    split
    · next finish hfind => exact List.find?_some hfind
    · rfl

/-- **Every token list is read by position to its end.** Whatever steps the reader of programs is
made of, taken on the whole list they look at no position where there is no token, and they end.
The outcome is that of `parse`. There are at most as many faults as tokens, with the end of the
input, and the positions at which declarations are abandoned increase, but that the end of the input
may be met several times. -/
theorem parse_by_position (tokens : List Token) (firstId : NodeId) :
    (∃ script : Script (List Stmt), script.read = program (fuelFor tokens)) ∧
      ∀ script : Script (List Stmt), script.read = program (fuelFor tokens) →
        ∃ body place, script.onVector (withEnd tokens) (.start firstId) = .ok body place ∧
          parse tokens firstId = ⟨body, place.faults.reverse, place.nextId, true⟩ ∧
          place.faults.length ≤ (withEnd tokens).length ∧
          List.Forall₂ (AnchoredAt (withEnd tokens))
            (place.faults.reverse.filter Diagnostic.unwinds) place.anchors.reverse ∧
          place.anchors.reverse.Pairwise fun i j =>
            i < j ∨ i = j ∧ (withEnd tokens)[i]?.any Token.isEnd := by
  obtain ⟨script, -, hscript⟩ := hasScript_program (fuelFor tokens)
  refine ⟨⟨script, hscript⟩, fun script hscript => ?_⟩
  have hlayout := layout_withEnd tokens
  obtain ⟨body, c, hread⟩ := exists_program_eq tokens firstId
  have hlength := length_faults_le tokens firstId
  have hfollows := script.follows hlayout (.start firstId) ⟨Nat.zero_le _, .nil, .nil, nofun⟩
  rw [hscript] at hfollows
  have hstart : (Place.start firstId).cursor (tokens.takeWhile (!·.isEnd)) (finishOf tokens) =
      .start tokens firstId := rfl
  rw [hstart, hread] at hfollows
  rw [parse, hread] at hlength ⊢
  rw [List.length_reverse] at hlength
  split at hfollows
  · next body' place hrun =>
    obtain ⟨heq, hplace⟩ := hfollows
    obtain ⟨rfl, rfl⟩ := EStateM.Result.ok.inj heq
    refine ⟨body, place, hrun, rfl, hlength.trans hlayout.length_lt.le, ?_, ?_⟩
    · rw [List.filter_reverse]
      exact List.forall₂_reverse_iff.2 hplace.anchored
    · refine List.pairwise_reverse.2 (hplace.decreasing.imp fun {i j} h => h.imp_right ?_)
      rintro ⟨rfl, rfl⟩
      rw [hlayout.getElem?_length]
      exact ⟨rfl, hlayout.finish⟩
  · cases hfollows.1
  · obtain ⟨d, hd⟩ := hfollows
    cases hd
  · obtain ⟨hfront, hfaults⟩ := hfollows
    rw [hfront] at hlength
    exact absurd hfaults (Nat.not_lt.2 hlength)

/-- The tokens of `{ )` and an end of input, with a brace behind it. The first fault is met at the
parenthesis and the second one at the end of the input. -/
def unclosedTokens : List Token :=
  [⟨.symbol .leftBrace, "\x7b", 1⟩, ⟨.symbol .rightParen, ")", 1⟩, ⟨.endOfInput, "", 1⟩,
    ⟨.symbol .rightBrace, "\x7d", 1⟩]

theorem parse_by_position_unclosed :
    ∃ script : Script (List Stmt), script.read = program (fuelFor unclosedTokens) ∧
      ∃ body place, script.onVector (withEnd unclosedTokens) (.start 0) = .ok body place ∧
        place.faults.length = 2 := by
  obtain ⟨⟨script, hscript⟩, hall⟩ := parse_by_position unclosedTokens 0
  obtain ⟨body, place, hrun, hparse, -⟩ := hall script hscript
  have hfaults : (parse unclosedTokens 0).faults.length = 2 := by decide +kernel
  rw [hparse, List.length_reverse] at hfaults
  exact ⟨script, hscript, body, place, hrun, hfaults⟩

end Treewalk.Grammar
