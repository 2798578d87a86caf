import Mathlib
import Treewalk.Proofs.Session.Moments

/-!
# Depths

The frames that a running program sees are those that were made for the scopes around the code that
runs, so that a depth that scope analysis found leads to the frame of the scope that the name
belongs to. A closure has the frames that were around its declaration in the activation that made
it.

## Main definitions

* `Moment.frame` — the frame from which the moment looks outwards
* `Session.DepthsSound` — the depths recorded for a program lead to the frames they stand for

## Main results

* `Session.depths_sound` — the depths recorded in a session are sound, and only a name that belongs
  to no scope and is missing from the globals is undefined
-/

namespace Treewalk

/-- The frame from which a moment looks outwards: that of the closure it is about, if it is about
how a closure is made, or else the current one. -/
def Moment.frame : Moment → FrameId
  | .own method _ => method.frame
  | .make closure _ _ => closure.frame
  | moment => moment.machine.current

/-- Outwards from a frame stand the given ones, then the globals, and then nothing. -/
theorem Mirrors.outward?_eq {s : Store} {marked : FrameId → Bool} {scopes : List Scope}
    {marks : List Bool} {frames : List FrameId} {frame : FrameId}
    (h : Mirrors s marked scopes marks frames frame) (hs : s.enclosing? Treewalk.globals = none)
    (hops : Nat) : s.outward? hops frame = (frames ++ [Treewalk.globals])[hops]? := by
  induction h generalizing hops with
  | globals =>
    cases hops with
    | zero => rfl
    | succ hops =>
      rw [Store.outward?, hs]
      rfl
  | enter hlt hmark hbound houter h ih =>
    cases hops with
    | zero => rfl
    | succ hops =>
      rw [Store.outward?, houter]
      exact ih hops

namespace Session

/-- The depths recorded for a program lead to the frames they stand for. `Here` tells the moments of
the run. -/
structure DepthsSound (Here : Place → Moment → Prop) : Prop where
  /-- There is a frame for every scope around the code, and these are the frames it sees. -/
  frames_eq : ∀ place moment, Here place moment →
    place.frames.length = place.site.scopes.length ∧
      ∀ hops, moment.machine.store.outward? hops moment.frame =
        (place.frames ++ [globals])[hops]?
  /-- A use has the depth of the scope that its name belongs to. -/
  depth?_eq : ∀ place kind use m, Here place (.access kind use m) →
    m.depths.depth? use.id = place.site.depth? use.name
  /-- The frame so many hops out is that of the scope, and a name that is read is bound there. -/
  exists_frame : ∀ place kind use m depth, Here place (.access kind use m) →
    m.depths.depth? use.id = some depth → ∃ frame, place.frames[depth]? = some frame ∧
      m.store.outward? depth m.current = some frame ∧
      (kind ≠ .assign → (m.store.local? frame use.name).isSome)
  /-- Directly inside the frame of `super` is one that binds `this`. -/
  exists_receiver : ∀ place use m depth, Here place (.access .super use m) →
    m.depths.depth? use.id = some depth → ∃ inner frame, depth = inner + 1 ∧
      place.site.depth? "this" = some inner ∧ place.frames[inner]? = some frame ∧
      m.store.outward? inner m.current = some frame ∧ (m.store.local? frame "this").isSome
  /-- What is called was made before, in this run or in one before it. -/
  exists_make : ∀ place fuel closure paren values m,
    Here place (.invoke fuel closure paren values m) → ∃ made context m₀,
      Here made (.make closure context m₀) ∧ made.text ≤ place.text ∧ m₀.store.Extends m.store
  /-- What is bound to a receiver is a method that a class has. -/
  exists_own : ∀ place method receiver m, Here place (.bind method receiver m) → ∃ owner m₀,
    Here owner (.own method m₀) ∧ owner.text ≤ place.text ∧ m₀.store.Extends m.store

section Visits

variable {R : Place → Moment → Prop} {ids : Nat → Numbering} {place : Place} {moment : Moment}
  {m : Machine} {kind : OccurrenceKind} {use : Use} {depth : Nat}

theorem mirrors_of_visit (h : Visit R ids place moment) : ∃ marked marks,
    Mirrors moment.machine.store marked place.site.scopes marks place.frames moment.frame ∧
      moment.machine.store.enclosing? globals = none := by
  have hat {p : Pair} {marks : List Bool} (hp : p.At R .plain place marks) :
      ∃ marked marks, Mirrors p.left.store marked place.site.scopes marks place.frames
        p.left.current ∧ p.left.store.enclosing? globals = none :=
    ⟨_, marks, hp.mirrors, hp.sound.enclosing?_globals⟩
  have hvisited := h.visited
  cases moment with
  | own method m =>
    obtain ⟨marks, hsound, hmirrors, -⟩ := hvisited
    exact ⟨_, marks, hmirrors, hsound.enclosing?_globals⟩
  | make closure context m =>
    obtain ⟨marks, hsound, hmirrors, -⟩ := hvisited
    exact ⟨_, marks, hmirrors, hsound.enclosing?_globals⟩
  | evaluate | evaluateAll | call | invoke | execute | executeAll | executeWhile | program | access
  | bind =>
    obtain ⟨marks, hp, -⟩ := hvisited
    exact hat hp

theorem exists_frame_of_visit (h : Visit R ids place (.access kind use m))
    (hdepth : m.depths.depth? use.id = some depth) : ∃ frame, place.frames[depth]? = some frame ∧
      m.store.outward? depth m.current = some frame ∧
      (kind ≠ .assign → (m.store.local? frame use.name).isSome) := by
  obtain ⟨marks, hat, hlinked⟩ := h.visited
  obtain ⟨frame, hframe, -, houtward, -, -, hbound⟩ := hlinked.target hat hdepth
  exact ⟨frame, hframe, houtward, hbound⟩

theorem exists_receiver_of_visit (h : Visit R ids place (.access .super use m))
    (hdepth : m.depths.depth? use.id = some depth) : ∃ inner frame, depth = inner + 1 ∧
      place.site.depth? "this" = some inner ∧ place.frames[inner]? = some frame ∧
      m.store.outward? inner m.current = some frame ∧ (m.store.local? frame "this").isSome := by
  obtain ⟨marks, hat, hlinked⟩ := h.visited
  obtain ⟨-, inner, scope, hsuper, hthis, hscope, hbound, -⟩ := hlinked.receiver rfl
  obtain ⟨frame, hframe, houtward, -, -, hlocal⟩ := hat.mirrors.at_depth hscope
  have hinner : some (inner + 1) = some depth := by rw [← hsuper, ← hlinked.left.2, ← hdepth]; rfl
  exact ⟨inner, frame, (Option.some.inj hinner).symm, hthis, hframe, houtward, hlocal "this" hbound⟩

end Visits

theorem applyUnary_ne_undefinedVariable {operator : Kind} {v : Value} {name : String} :
    v.applyUnary operator ≠ .error (.undefinedVariable name) := by
  unfold Value.applyUnary
  split <;> nofun

theorem applyBinary_ne_undefinedVariable {operator : Kind} {v w : Value} {name : String} :
    v.applyBinary operator w ≠ .error (.undefinedVariable name) := by
  unfold Value.applyBinary Value.add Value.applyNumeric
  repeat' split
  all_goals nofun

/-- Only a use without a depth is undefined, if its name is missing from the globals. -/
theorem access_of_undefinedVariable {moment : Moment} {token : Token} {name : String}
    (h : Raises moment token (.undefinedVariable name)) : ∃ kind use m,
      moment = .access kind use m ∧ use.name = name ∧ use.token = token ∧
        m.depths.depth? use.id = none ∧ m.store.local? globals name = none := by
  generalize hcause : RuntimeFault.undefinedVariable name = cause at h
  cases h with
  | operand hoperand h => exact absurd (hcause ▸ h) applyUnary_ne_undefinedVariable
  | operands hleft hright h => exact absurd (hcause ▸ h) applyBinary_ne_undefinedVariable
  | @access kind use m hdepth h =>
    obtain rfl : name = use.name := RuntimeFault.undefinedVariable.inj hcause
    exact ⟨kind, use, m, rfl, rfl, rfl, hdepth, h⟩
  | property | undefinedProperty | field | undefinedMethod | super | notCallable | arity
  | initializer | superclass => cases hcause

/-- **Depths are sound.** In all that happens in a session, the frames seen by the code that runs
are those that were made for the scopes around it, and a use with a depth finds its name in the
frame of the scope that the name belongs to. So a text fails at an undefined name only where the
name belongs to no scope and is missing from the globals. -/
theorem depths_sound (sink : Sink) (reading : Nat → Float) (fuel : Nat) (sources : List String) :
    DepthsSound (Happens (Begins (initial sink reading) fuel sources)) ∧
      ∀ before source after line name, sources = before ++ source :: after →
        (((initial sink reading).runAll fuel before).2.run fuel source).1 =
          .failed (.runtime line (.undefinedVariable name)) →
        ∃ place kind use m,
          Happens (Begins (initial sink reading) fuel sources) place (.access kind use m) ∧
            use.name = name ∧ use.token.line = line ∧ m.depths.depth? use.id = none ∧
            place.site.depth? name = none ∧ m.store.local? globals name = none := by
  have hdepth {place : Place} {kind : OccurrenceKind} {use : Use} {m : Machine}
      (h : Happens (Begins (initial sink reading) fuel sources) place (.access kind use m)) :
      m.depths.depth? use.id = place.site.depth? use.name := by
    obtain ⟨marks, hat, hlinked⟩ := (visit sink reading h).visited
    exact hlinked.left.2
  refine ⟨{ frames_eq := ?_, depth?_eq := fun place kind use m => hdepth, exists_frame := ?_
            exists_receiver := ?_, exists_make := ?_, exists_own := ?_ }, ?_⟩
  · intro place moment h
    obtain ⟨marked, marks, hmirrors, hglobals⟩ := mirrors_of_visit (visit sink reading h)
    exact ⟨hmirrors.length_eq, hmirrors.outward?_eq hglobals⟩
  · exact fun place kind use m depth h => exists_frame_of_visit (visit sink reading h)
  · exact fun place use m depth h => exists_receiver_of_visit (visit sink reading h)
  · intro place fuel closure paren values m h
    obtain ⟨marks, hat, hclosure, -⟩ := (visit sink reading h).visited
    obtain ⟨made, -, context, m₀, hmake, htext, hstore, -⟩ := hclosure.made
    exact ⟨made, context, m₀, hmake, hat.text_eq ▸ htext, hstore⟩
  · intro place method receiver m h
    obtain ⟨marks, hat, hmethod, -⟩ := (visit sink reading h).visited
    obtain ⟨owner, -, m₀, hown, htext, hstore, -⟩ := hmethod.owned
    exact ⟨owner, m₀, hown, hat.text_eq ▸ htext, hstore⟩
  · intro before source after line name hsources hfailed
    obtain ⟨place, moment, token, hh, hraises, rfl⟩ :=
      raises_of_failed sink reading hsources hfailed
    obtain ⟨kind, use, m, rfl, rfl, rfl, hnone, hglobals⟩ := access_of_undefinedVariable hraises
    exact ⟨place, kind, use, m, hh, rfl, rfl, hnone, (hdepth hh).symm.trans hnone, hglobals⟩

/-- A function that reads a variable of the block it is declared in. -/
def closureText : String := "\x7b var a; fun f() \x7b print a; \x7d f(); \x7d"

def closureProgram : List Stmt :=
  [.block [.var ⟨.identifier, "a", 1⟩ none,
    .function ⟨⟨.identifier, "f", 1⟩, [], [.print (.variable ⟨0, ⟨.identifier, "a", 1⟩⟩)]⟩,
    .expression (.call (.variable ⟨1, ⟨.identifier, "f", 1⟩⟩) ⟨.symbol .rightParen, ")", 1⟩ [])]]

set_option maxRecDepth 100000 in
theorem parse_closureText : Source.parse closureText 0 = ⟨closureProgram, [], 2, true⟩ := by
  cbv

theorem accept_closureText : (initial .unbounded fun _ => 0).accept closureText =
    (.ok closureProgram,
      ⟨(Machine.initial .unbounded fun _ => 0).record (analyse closureProgram), 2⟩) :=
  accept_of_parse parse_closureText rfl

/-- When the function runs, the variable is found one frame further out. -/
theorem depths_sound_closureText : ∃ place use m frame,
    Happens (Begins (initial .unbounded fun _ => 0) 20 [closureText]) place
        (.access .variable use m) ∧
      use.name = "a" ∧ m.depths.depth? use.id = some 1 ∧ place.frames[1]? = some frame ∧
      m.store.outward? 1 m.current = some frame ∧ (m.store.local? frame "a").isSome := by
  have hrun := Happens.root (Begins.first accept_closureText 20 [])
  have hblock := hrun.top.block rfl
  have hmake := (hblock.statements rfl).statement.function rfl
  have hcall := ((hblock.statements rfl).statements rfl).statement.expression.call rfl rfl
  have hbody := (hcall.invoke rfl).body hmake le_rfl (.refl _) rfl
  have haccess := hbody.statement.print.read
  obtain ⟨frame, hframe, houtward, hlocal⟩ :=
    (depths_sound .unbounded (fun _ => 0) 20 [closureText]).1.exists_frame _ _ _ _ 1 haccess rfl
  exact ⟨_, _, _, frame, haccess, rfl, rfl, hframe, houtward, hlocal nofun⟩

end Session

end Treewalk
