import Treewalk.Proofs.Grammar.Named
import Treewalk.Tree.Uses

/-!
# Outlines

A program as a list, in the order of its text: where a scope opens, where a name is declared and
where one is used, and where a function returns. Every entry tells what it stands in, so that what
the scope rules ask about a place can be read off the entries before it, with no walk that keeps
scopes on a stack.

## Main definitions

* `Landmark`, `Entry` — what an outline lists
* `Spot` — a place between two entries
* `outline` — the outline of a program

## Main results

* `Stmt.grows_behind` — the entries of a statement stand in what the statement stands in
* `occurrences_outline` — the uses that are listed are those of the program

## Implementation notes

Landmarks are told apart by their positions in the outline. A `for` loop is listed like the block
and the `while` loop that it is built from, so that its increment stands behind the body; what the
body declares is in scopes of its own and cannot be seen from there.
-/

namespace Treewalk

/-- What is found in a program where scopes are concerned. The body of a class is the scope of
`this`; for a subclass it stands in a scope of `super`. -/
inductive Landmark
  | block
  | var (name : Token)
  | function (name : Token)
  | method (name : Token)
  | parameter (name : Token)
  | «class» (name : Token)
  | superclass (className : Token) (use : Use)
  | superScope
  | classBody (superclass : Option Use)
  | use (kind : OccurrenceKind) (use : Use)
  | «return» (keyword : Token) (hasValue : Bool)

namespace Landmark

/-- The parameters and the body of a function or method are one scope. -/
def opensScope : Landmark → Bool
  | block | function _ | method _ | superScope | classBody _ => true
  | _ => false

def isRoutine : Landmark → Bool
  | function _ | method _ => true
  | _ => false

def isClassBody : Landmark → Bool
  | classBody _ => true
  | _ => false

def isVar : Landmark → Bool
  | var _ => true
  | _ => false

/-- The name that is declared in the scope around the landmark. -/
def declared? : Landmark → Option Token
  | var name | function name | parameter name | «class» name => some name
  | _ => none

/-- The name that a scope has from the start. -/
def implicit? : Landmark → Option String
  | superScope => some "super"
  | classBody _ => some "this"
  | _ => none

/-- The use of a name. A superclass clause reads a variable. -/
def occurrence? : Landmark → Option (OccurrenceKind × Use)
  | use kind u => some (kind, u)
  | superclass _ u => some (.variable, u)
  | _ => none

end Landmark

/-- A landmark that something stands in, and where in the outline it is. -/
structure Enclosure where
  position : Nat
  landmark : Landmark

/-- A landmark, and what it stands in, innermost first. -/
structure Entry where
  landmark : Landmark
  around : List Enclosure

/-- The scopes among what something stands in, innermost first. -/
def scopesOf (around : List Enclosure) : List Enclosure := around.filter (·.landmark.opensScope)

theorem scopesOf_append (inner outer : List Enclosure) :
    scopesOf (inner ++ outer) = scopesOf inner ++ scopesOf outer :=
  List.filter_append ..

theorem scopesOf_cons_of_opensScope {x : Enclosure} (h : x.landmark.opensScope = true)
    (outer : List Enclosure) : scopesOf (x :: outer) = x :: scopesOf outer :=
  List.filter_cons_of_pos h

theorem mem_of_mem_scopesOf {x : Enclosure} {around : List Enclosure} (h : x ∈ scopesOf around) :
    x ∈ around :=
  (List.mem_filter.1 h).1

/-- A place in a program: the entries before it, and what it stands in. -/
structure Spot where
  before : List Entry
  around : List Enclosure

namespace Spot

/-- The beginning of a program. -/
def top : Spot := ⟨[], []⟩

/-- The spot behind a landmark. -/
def add (spot : Spot) (landmark : Landmark) : Spot :=
  { spot with before := spot.before ++ [⟨landmark, spot.around⟩] }

def addAll (spot : Spot) (landmarks : List Landmark) : Spot := landmarks.foldl add spot

/-- The spot in a landmark that begins here. -/
def enter (spot : Spot) (landmark : Landmark) : Spot :=
  ⟨(spot.add landmark).before, ⟨spot.before.length, landmark⟩ :: spot.around⟩

/-- The spot behind a landmark that begins here and ends at `inner`. -/
def leave (spot inner : Spot) : Spot := { spot with before := inner.before }

/-- The spot of the methods of the class `name`, behind its superclass clause. -/
def enterClass (spot : Spot) (name : Token) : Option Use → Spot
  | none => spot.enter (.classBody none)
  | some use =>
    ((spot.add (.superclass name use)).enter .superScope).enter (.classBody (some use))

end Spot

def Expr.landmarks (e : Expr) : List Landmark := e.occurrences.map fun o => .use o.kind o.use

mutual

/-- The spot behind a statement. A variable stands before its initializer, a function before its
body, and a class before its superclass clause and its methods. -/
def Stmt.behind (spot : Spot) : Stmt → Spot
  | .expression value => spot.addAll value.landmarks
  | .print value => spot.addAll value.landmarks
  | .var name none => spot.add (.var name)
  | .var name (some value) => spot.leave ((spot.enter (.var name)).addAll value.landmarks)
  | .block body => spot.leave (Stmt.behindAll (spot.enter .block) body)
  | .if condition thenBranch none => thenBranch.behind (spot.addAll condition.landmarks)
  | .if condition thenBranch (some elseBranch) =>
    elseBranch.behind (thenBranch.behind (spot.addAll condition.landmarks))
  | .while condition body => body.behind (spot.addAll condition.landmarks)
  | .function routine => spot.leave (routine.behind (spot.enter (.function routine.name)))
  | .return keyword none => spot.add (.return keyword false)
  | .return keyword (some value) => (spot.add (.return keyword true)).addAll value.landmarks
  | .class name superclass methods =>
    spot.leave (Routine.behindAll ((spot.add (.class name)).enterClass name superclass) methods)

def Stmt.behindAll (spot : Spot) : List Stmt → Spot
  | [] => spot
  | s :: rest => Stmt.behindAll (s.behind spot) rest

/-- The spot behind the body of a function, from the one before its parameters. -/
def Routine.behind (spot : Spot) : Routine → Spot
  | ⟨_, parameters, body⟩ => Stmt.behindAll (spot.addAll (parameters.map .parameter)) body

/-- The spot behind the methods of a class. -/
def Routine.behindAll (spot : Spot) : List Routine → Spot
  | [] => spot
  | r :: rest => Routine.behindAll (spot.leave (r.behind (spot.enter (.method r.name)))) rest

end

/-- The outline of a whole program. -/
def outline (program : List Stmt) : List Entry := (Stmt.behindAll .top program).before

/-! ### What an entry stands in -/

/-- What lies between two spots stands in what the first one stands in, and perhaps in landmarks
that lie between them too. -/
structure Grows (spot spot' : Spot) : Prop where
  around_eq : spot'.around = spot.around
  exists_new : ∃ new, spot'.before = spot.before ++ new ∧ ∀ e ∈ new, ∃ inner,
    e.around = inner ++ spot.around ∧ ∀ x ∈ inner, spot.before.length ≤ x.position

namespace Grows

variable {spot spot' spot'' inner : Spot}

theorem refl (spot : Spot) : Grows spot spot := ⟨rfl, [], by simp⟩

theorem trans (h : Grows spot spot') (h' : Grows spot' spot'') : Grows spot spot'' := by
  obtain ⟨new, hnew, hinside⟩ := h.exists_new
  obtain ⟨new', hnew', hinside'⟩ := h'.exists_new
  refine ⟨h'.around_eq.trans h.around_eq, new ++ new', ?_, fun e he => ?_⟩
  · rw [hnew', hnew, List.append_assoc]
  obtain he | he := List.mem_append.1 he
  · exact hinside e he
  · obtain ⟨inner, haround, hinner⟩ := hinside' e he
    refine ⟨inner, haround.trans (by rw [h.around_eq]), fun x hx => ?_⟩
    have hposition := hinner x hx
    rw [hnew, List.length_append] at hposition
    exact Nat.le_of_add_right_le hposition

theorem add (spot : Spot) (landmark : Landmark) : Grows spot (spot.add landmark) :=
  ⟨rfl, [⟨landmark, spot.around⟩], rfl, by simp⟩

theorem addAll (spot : Spot) (landmarks : List Landmark) : Grows spot (spot.addAll landmarks) := by
  induction landmarks generalizing spot with
  | nil => exact refl spot
  | cons landmark rest ih => exact (add spot landmark).trans (ih _)

theorem leave {landmark : Landmark} (h : Grows (spot.enter landmark) inner) :
    Grows spot (spot.leave inner) := by
  obtain ⟨new, hnew, hinside⟩ := h.exists_new
  refine ⟨rfl, ⟨landmark, spot.around⟩ :: new, ?_, fun e he => ?_⟩
  · rw [Spot.leave, hnew, Spot.enter, Spot.add, List.append_assoc, List.singleton_append]
  obtain rfl | he := List.mem_cons.1 he
  · exact ⟨[], by simp⟩
  · obtain ⟨within, haround, hwithin⟩ := hinside e he
    refine ⟨within ++ [⟨spot.before.length, landmark⟩], ?_, fun x hx => ?_⟩
    · rw [haround, Spot.enter, List.append_assoc, List.singleton_append]
    obtain hx | hx := List.mem_append.1 hx
    · have hposition := hwithin x hx
      rw [Spot.enter, Spot.add, List.length_append] at hposition
      exact Nat.le_of_add_right_le hposition
    · obtain rfl := List.mem_singleton.1 hx
      exact Nat.le_refl _

theorem leave_enterClass {name : Token} {superclass : Option Use}
    (h : Grows (spot.enterClass name superclass) inner) : Grows spot (spot.leave inner) := by
  cases superclass with
  | none => exact leave h
  | some use => exact (add spot (.superclass name use)).trans (leave (leave h) :)

end Grows

mutual

/-- What a statement consists of stands in what the statement stands in. -/
theorem Stmt.grows_behind (spot : Spot) (s : Stmt) : Grows spot (s.behind spot) := by
  match s with
  | .expression value | .print value => exact .addAll spot value.landmarks
  | .var name none => exact .add spot (.var name)
  | .var name (some value) => exact .leave (.addAll _ value.landmarks)
  | .block body => exact .leave (Stmt.grows_behindAll _ body)
  | .if condition branch none =>
    exact (Grows.addAll spot condition.landmarks).trans (Stmt.grows_behind _ branch)
  | .if condition branch (some other) =>
    exact ((Grows.addAll spot condition.landmarks).trans (Stmt.grows_behind _ branch)).trans
      (Stmt.grows_behind _ other)
  | .while condition body =>
    exact (Grows.addAll spot condition.landmarks).trans (Stmt.grows_behind _ body)
  | .function routine => exact .leave (Routine.grows_behind _ routine)
  | .return keyword none => exact .add spot (.return keyword false)
  | .return keyword (some value) =>
    exact (Grows.add spot (.return keyword true)).trans (.addAll _ value.landmarks)
  | .class name superclass methods =>
    have hmethods : Grows ((spot.add (.class name)).enterClass name superclass) _ :=
      Routine.grows_behindAll _ methods
    exact (Grows.add spot (.class name)).trans (.leave_enterClass hmethods)

theorem Stmt.grows_behindAll (spot : Spot) (ss : List Stmt) :
    Grows spot (Stmt.behindAll spot ss) := by
  match ss with
  | [] => exact .refl spot
  | s :: rest => exact (Stmt.grows_behind spot s).trans (Stmt.grows_behindAll _ rest)

theorem Routine.grows_behind (spot : Spot) (r : Routine) : Grows spot (r.behind spot) := by
  match r with
  | ⟨_, parameters, body⟩ => exact (Grows.addAll spot _).trans (Stmt.grows_behindAll _ body)

theorem Routine.grows_behindAll (spot : Spot) (rs : List Routine) :
    Grows spot (Routine.behindAll spot rs) := by
  match rs with
  | [] => exact .refl spot
  | r :: rest =>
    exact (Grows.leave (Routine.grows_behind _ r)).trans (Routine.grows_behindAll _ rest)

end

/-! ### The uses of names -/

/-- What is known of the uses before a spot: what they are, and which. -/
def Spot.occurrences (spot : Spot) : List (OccurrenceKind × Use) :=
  spot.before.filterMap (·.landmark.occurrence?)

namespace Spot

variable (spot : Spot)

@[simp] theorem occurrences_add (landmark : Landmark) :
    (spot.add landmark).occurrences = spot.occurrences ++ landmark.occurrence?.toList := by
  cases h : landmark.occurrence? <;> simp [occurrences, add, h]

@[simp] theorem occurrences_enter (landmark : Landmark) :
    (spot.enter landmark).occurrences = spot.occurrences ++ landmark.occurrence?.toList :=
  spot.occurrences_add landmark

@[simp] theorem occurrences_leave (inner : Spot) :
    (spot.leave inner).occurrences = inner.occurrences := rfl

theorem occurrences_addAll (landmarks : List Landmark) : (spot.addAll landmarks).occurrences =
    spot.occurrences ++ landmarks.filterMap Landmark.occurrence? := by
  induction landmarks generalizing spot with
  | nil => simp [addAll]
  | cons landmark rest ih =>
    refine (ih (spot.add landmark)).trans ?_
    cases h : landmark.occurrence? <;> simp [h]

@[simp] theorem occurrences_addAll_landmarks (e : Expr) : (spot.addAll e.landmarks).occurrences =
    spot.occurrences ++ e.occurrences.map fun o => (o.kind, o.use) := by
  rw [occurrences_addAll, Expr.landmarks, List.filterMap_map, ← List.filterMap_eq_map]
  rfl

@[simp] theorem occurrences_addAll_parameters (parameters : List Token) :
    (spot.addAll (parameters.map .parameter)).occurrences = spot.occurrences := by
  simp [occurrences_addAll, Landmark.occurrence?, Function.comp_def]

end Spot

open Landmark (occurrence?)

mutual

theorem Stmt.occurrences_behind (spot : Spot) (s : Stmt) : (s.behind spot).occurrences =
    spot.occurrences ++ s.occurrences.map fun o => (o.kind, o.use) := by
  match s with
  | .expression value | .print value => simp [Stmt.behind, Stmt.occurrences]
  | .var name none => simp [Stmt.behind, Stmt.occurrences, occurrence?]
  | .var name (some value) => simp [Stmt.behind, Stmt.occurrences, occurrence?]
  | .block body =>
    simp [Stmt.behind, Stmt.occurrences, occurrence?, Stmt.occurrences_behindAll _ body]
  | .if condition branch none =>
    simp [Stmt.behind, Stmt.occurrences, Stmt.occurrences_behind _ branch]
  | .if condition branch (some other) =>
    simp [Stmt.behind, Stmt.occurrences, Stmt.occurrences_behind _ branch,
      Stmt.occurrences_behind _ other]
  | .while condition body =>
    simp [Stmt.behind, Stmt.occurrences, Stmt.occurrences_behind _ body]
  | .function routine =>
    simp [Stmt.behind, Stmt.occurrences, occurrence?, Routine.occurrences_behind _ routine]
  | .return keyword none => simp [Stmt.behind, Stmt.occurrences, occurrence?]
  | .return keyword (some value) => simp [Stmt.behind, Stmt.occurrences, occurrence?]
  | .class name none methods =>
    simp [Stmt.behind, Spot.enterClass, Stmt.occurrences, occurrence?,
      Routine.occurrences_behindAll _ methods]
  | .class name (some superclass) methods =>
    simp [Stmt.behind, Spot.enterClass, Stmt.occurrences, occurrence?,
      Routine.occurrences_behindAll _ methods]

theorem Stmt.occurrences_behindAll (spot : Spot) (ss : List Stmt) :
    (Stmt.behindAll spot ss).occurrences =
      spot.occurrences ++ (Stmt.occurrencesAll ss).map fun o => (o.kind, o.use) := by
  match ss with
  | [] => simp [Stmt.behindAll, Stmt.occurrencesAll]
  | s :: rest =>
    simp [Stmt.behindAll, Stmt.occurrencesAll, Stmt.occurrences_behindAll _ rest,
      Stmt.occurrences_behind _ s]

theorem Routine.occurrences_behind (spot : Spot) (r : Routine) : (r.behind spot).occurrences =
    spot.occurrences ++ r.occurrences.map fun o => (o.kind, o.use) := by
  match r with
  | ⟨_, parameters, body⟩ =>
    simp [Routine.behind, Routine.occurrences, Stmt.occurrences_behindAll _ body]

theorem Routine.occurrences_behindAll (spot : Spot) (rs : List Routine) :
    (Routine.behindAll spot rs).occurrences =
      spot.occurrences ++ (Routine.occurrencesAll rs).map fun o => (o.kind, o.use) := by
  match rs with
  | [] => simp [Routine.behindAll, Routine.occurrencesAll]
  | r :: rest =>
    simp [Routine.behindAll, Routine.occurrencesAll, occurrence?,
      Routine.occurrences_behindAll _ rest, Routine.occurrences_behind _ r]

end

/-- An outline lists the uses of a program, in order. -/
theorem occurrences_outline (program : List Stmt) :
    (outline program).filterMap (·.landmark.occurrence?) =
      (Stmt.occurrencesAll program).map fun o => (o.kind, o.use) :=
  Stmt.occurrences_behindAll .top program

/-! ### Names -/

/-- The names that are declared, and those of variables, have a property; `this` and `super` are
spelled like that. -/
def Landmark.Named (P : String → Prop) : Landmark → Prop
  | .var name | .function name | .parameter name | .class name => P name.lexeme
  | .use .variable u | .use .assign u | .superclass _ u => P u.name
  | .use .this u => u.name = Keyword.this.spelling
  | .use .super u => u.name = Keyword.super.spelling
  | .block | .method _ | .superScope | .classBody _ | .return _ _ => True

/-- All entries before a spot are named with the property. -/
def Spot.Named (P : String → Prop) (spot : Spot) : Prop := ∀ e ∈ spot.before, e.landmark.Named P

section Named

variable {P : String → Prop} {spot : Spot}

theorem Spot.Named.add (h : spot.Named P) (landmark : Landmark) (hlandmark : landmark.Named P) :
    (spot.add landmark).Named P := by
  simp only [Spot.Named, Spot.add, List.forall_mem_append, List.forall_mem_singleton]
  exact ⟨h, hlandmark⟩

theorem Spot.Named.enter (h : spot.Named P) (landmark : Landmark) (hlandmark : landmark.Named P) :
    (spot.enter landmark).Named P :=
  h.add landmark hlandmark

theorem Spot.Named.leave {inner : Spot} (h : inner.Named P) : (spot.leave inner).Named P := h

theorem Spot.Named.addAll (h : spot.Named P) {landmarks : List Landmark}
    (hlandmarks : ∀ l ∈ landmarks, l.Named P) : (spot.addAll landmarks).Named P := by
  induction landmarks generalizing spot with
  | nil => exact h
  | cons landmark rest ih =>
    obtain ⟨hlandmark, hrest⟩ := List.forall_mem_cons.1 hlandmarks
    exact ih (h.add landmark hlandmark) hrest

mutual

theorem Expr.named_landmarks {e : Expr} (h : e.Named P) : ∀ l ∈ e.landmarks, l.Named P := by
  match e with
  | .literal _ => simp [Expr.landmarks, Expr.occurrences]
  | .unary _ operand => exact Expr.named_landmarks (e := operand) h
  | .group inner => exact Expr.named_landmarks (e := inner) h
  | .property object _ => exact Expr.named_landmarks (e := object) h
  | .binary left _ right | .logical left _ right | .setProperty left _ right =>
    rw [Expr.landmarks, Expr.occurrences, List.map_append, List.forall_mem_append]
    exact ⟨Expr.named_landmarks h.1, Expr.named_landmarks h.2⟩
  | .variable use | .this use | .super use _ =>
    intro l hl
    obtain rfl := List.mem_singleton.1 hl
    exact h
  | .assign target value =>
    rw [Expr.landmarks, Expr.occurrences, List.map_cons, List.forall_mem_cons]
    exact ⟨h.1, Expr.named_landmarks h.2⟩
  | .call callee _ arguments =>
    rw [Expr.landmarks, Expr.occurrences, List.map_append, List.forall_mem_append]
    exact ⟨Expr.named_landmarks h.1, Expr.named_landmarksAll h.2⟩

theorem Expr.named_landmarksAll {es : List Expr} (h : Expr.NamedAll P es) :
    ∀ l ∈ (Expr.occurrencesAll es).map fun o => Landmark.use o.kind o.use, l.Named P := by
  match es with
  | [] => simp [Expr.occurrencesAll]
  | e :: rest =>
    rw [Expr.occurrencesAll, List.map_append, List.forall_mem_append]
    exact ⟨Expr.named_landmarks h.1, Expr.named_landmarksAll h.2⟩

end

theorem Spot.Named.enterClass (h : spot.Named P) (name : Token) {superclass : Option Use}
    (hsuperclass : ∀ use ∈ superclass, P use.name) : (spot.enterClass name superclass).Named P := by
  cases superclass with
  | none => exact h.enter _ trivial
  | some use =>
    have hclause := h.add (.superclass name use) (hsuperclass use rfl)
    exact (hclause.enter .superScope trivial).enter _ trivial

mutual

theorem Stmt.named_behind {spot : Spot} {s : Stmt} (hs : s.Named P) (h : spot.Named P) :
    (s.behind spot).Named P := by
  match s with
  | .expression value | .print value => exact h.addAll (Expr.named_landmarks hs)
  | .var name none => exact h.add _ hs
  | .var name (some value) =>
    exact ((h.enter (.var name) hs.1).addAll (Expr.named_landmarks hs.2)).leave
  | .block body => exact (Stmt.named_behindAll hs (h.enter .block trivial)).leave
  | .if condition branch none =>
    exact Stmt.named_behind (s := branch) hs.2.1 (h.addAll (Expr.named_landmarks hs.1))
  | .if condition branch (some other) =>
    have hbranch := Stmt.named_behind (s := branch) hs.2.1.1
      (h.addAll (Expr.named_landmarks hs.1))
    exact Stmt.named_behind (s := other) hs.2.2.1 hbranch
  | .while condition body =>
    exact Stmt.named_behind (s := body) hs.2.1 (h.addAll (Expr.named_landmarks hs.1))
  | .function routine =>
    exact (Routine.named_behind hs.2 (h.enter (.function routine.name) hs.1)).leave
  | .return keyword none => exact h.add _ trivial
  | .return keyword (some value) =>
    have hreturn := h.add (.return keyword true) trivial
    exact hreturn.addAll (Expr.named_landmarks hs)
  | .class name superclass methods =>
    have hclass := (h.add (.class name) hs.1).enterClass name hs.2.1
    exact (Routine.named_behindAll hs.2.2 hclass).leave

theorem Stmt.named_behindAll {spot : Spot} {ss : List Stmt} (hs : Stmt.NamedAll P ss)
    (h : spot.Named P) : (Stmt.behindAll spot ss).Named P := by
  match ss with
  | [] => exact h
  | s :: rest =>
    rw [Stmt.behindAll]
    exact Stmt.named_behindAll hs.2 (Stmt.named_behind hs.1 h)

theorem Routine.named_behind {spot : Spot} {r : Routine} (hr : r.Named P) (h : spot.Named P) :
    (r.behind spot).Named P := by
  match r with
  | ⟨_, parameters, body⟩ =>
    refine Stmt.named_behindAll hr.2 (h.addAll fun l hl => ?_)
    obtain ⟨t, ht, rfl⟩ := List.mem_map.1 hl
    exact hr.1 t ht

theorem Routine.named_behindAll {spot : Spot} {rs : List Routine} (hrs : Routine.NamedAll P rs)
    (h : spot.Named P) : (Routine.behindAll spot rs).Named P := by
  match rs with
  | [] => exact h
  | r :: rest =>
    have hmethod := Routine.named_behind hrs.1 (h.enter (.method r.name) trivial)
    rw [Routine.behindAll]
    exact Routine.named_behindAll hrs.2 hmethod.leave

end

/-- The names in the outline of a program are the names in the program. -/
theorem named_outline {program : List Stmt} (h : Stmt.NamedAll P program) :
    ∀ e ∈ outline program, e.landmark.Named P :=
  Stmt.named_behindAll h (by simp [Spot.Named, Spot.top])

end Named

end Treewalk
