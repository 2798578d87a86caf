import Treewalk.Proofs.Evaluation.ClassDeclaration
import Treewalk.Proofs.Session.Depths
import Treewalk.Proofs.Session.Receivers
import Treewalk.Proofs.Session.Situations

/-!
# Class declarations in a session

A class statement of an accepted program is all or nothing. If its superclass clause names no class,
it fails, and everything is as it was. Otherwise the class is there: made from what its superclass
clause named when the statement began, with the last method of each name, and with the frames around
its methods that scope analysis has counted.

## Main definitions

* `Place.denotes?` — what a name stands for at a place
* `Place.Framed` — the frames that are seen from a frame are those of a place
* `ClassEnds` — the two ways in which a class statement ends

## Main results

* `Session.class_declared_whole` — all class statements end in one of them
-/

namespace Treewalk

open Eval

variable {place : Place} {m m' : Machine} {name : Token} {use : Use} {c : Option Class}
  {methods : List Routine} {made : Class} {frame : FrameId}

/-! ### What a name denotes -/

/-- What a name denotes at a place: what it is bound to in the frame of the scope that it belongs
to, or among the globals if it belongs to none. -/
def Place.denotes? (place : Place) (s : Store) (name : String) : Option Value :=
  match place.site.depth? name with
  | some depth => place.frames[depth]?.bind (s.local? · name)
  | none => s.local? globals name

namespace Place

variable {s : Store} {key : String}

theorem denotes?_of_some {depth : Nat} (h : place.site.depth? key = some depth) :
    place.denotes? s key = place.frames[depth]?.bind (s.local? · key) := by
  rw [denotes?, h]

theorem denotes?_of_none (h : place.site.depth? key = none) :
    place.denotes? s key = s.local? globals key := by
  rw [denotes?, h]

end Place

/-- A superclass clause, if there is one, names the class. -/
inductive Place.Inherits (place : Place) (s : Store) : Option Use → Option Class → Prop
  | none : Inherits place s none none
  | some {use : Use} {c : Class} (h : place.denotes? s use.name = some (.class c)) :
      Inherits place s (some use) (some c)

section Visits

variable {R : Place → Moment → Prop} {ids : Nat → Numbering}

/-- A name that is read has the value it denotes, and is undefined if there is none. -/
theorem Visit.lookUp_eq (h : Visit R ids place (.access .variable use m)) :
    lookUp use m = orFail ((place.denotes? m.store use.name).elim
      (.error (undefinedVariable use.token)) .ok) m := by
  obtain ⟨marks, hat, hlinked⟩ := h.visited
  have htable : m.depths.depth? use.id = place.site.depth? use.name := hlinked.left.2
  rw [lookUp, get_bind_apply, htable]
  cases hdepth : place.site.depth? use.name with
  | none =>
    have hget := m.store.get_globals hat.sound.globals_lt hat.sound.enclosing?_globals use.token
    rw [Place.denotes?_of_none hdepth]
    show orFail (m.store.get globals use.token) m = _
    rw [hget, Use.name]
    cases m.store.local? globals use.token.lexeme <;> rfl
  | some depth =>
    obtain ⟨target, hframe, houtward, hbound⟩ :=
      Session.exists_frame_of_visit h (htable.trans hdepth)
    obtain ⟨v, hv⟩ := Option.isSome_iff_exists.1 (hbound (by decide))
    have hget : m.store.getAt depth m.current use.token = .ok v :=
      Store.getAt_eq_ok_iff.2 ⟨target, houtward, hv⟩
    rw [Place.denotes?_of_some hdepth, hframe, Option.bind_some, hv]
    dsimp only
    rw [hget]
    rfl

/-- A superclass clause gives the class that its name denotes. -/
theorem Visit.superclassClassOf_eq (h : Visit R ids place (.access .variable use m)) :
    superclassClassOf (some use) m = match place.denotes? m.store use.name with
      | some (.class c) => .ok (some c) m
      | some _ => .error (.fault (.runtime use.token.line .superclassNotClass)) m
      | none => .error (.fault (undefinedVariable use.token)) m := by
  have hlookUp := h.lookUp_eq
  have hmap : superclassClassOf (some use) = (superclassOf use >>= fun c => pure (some c)) := rfl
  rw [hmap, superclassOf, bind_assoc]
  cases hv : place.denotes? m.store use.name with
  | none =>
    rw [hv] at hlookUp
    rw [bind_eq_error hlookUp]
  | some v =>
    rw [hv] at hlookUp
    rw [bind_eq_of_ok hlookUp]
    cases v <;> rfl

end Visits

/-! ### The frames around a place -/

/-- Outwards from a frame stand the frames that were made for the scopes around a place, and then
the globals. The frame of a scope binds the names that the scope holds by then. -/
structure Place.Framed (place : Place) (s : Store) (frame : FrameId) : Prop where
  length_eq : place.frames.length = place.site.scopes.length
  outward?_eq : ∀ hops, s.outward? hops frame = (place.frames ++ [globals])[hops]?
  bound : ∀ (depth : Nat) scope name, place.site.scopes[depth]? = some scope →
    scope.get? name = some true → ∃ target, place.frames[depth]? = some target ∧
      (s.local? target name).isSome

theorem Mirrors.framed {s : Store} {marked : FrameId → Bool} {marks : List Bool}
    (h : Mirrors s marked place.site.scopes marks place.frames frame)
    (hs : s.enclosing? Treewalk.globals = none) : place.Framed s frame where
  length_eq := h.length_eq
  outward?_eq := h.outward?_eq hs
  bound depth scope name hscope hname := by
    obtain ⟨target, hframe, -, -, -, hbound⟩ := h.at_depth hscope
    exact ⟨target, hframe, hbound name hname⟩

namespace Machine.Declares

/-- A class declaration binds one name, which is not reserved. -/
theorem extends_ (h : m.Declares name c methods made frame m') (hname : ¬IsReserved name.lexeme) :
    m.store.Extends m'.store where
  size_le := h.methodFrame.size_le
  enclosing?_eq := h.enclosing?_eq
  isSome_local? other key hkey := by
    by_cases hother : other < m.store.frames.size
    · by_cases heq : other = m.current ∧ key = name.lexeme
      · rw [heq.1, heq.2, h.bound]
        rfl
      · rwa [h.local?_eq other hother key fun h h' => heq ⟨h, h'⟩]
    · rw [Store.local?_of_size_le _ (Nat.not_lt.1 hother)] at hkey
      cases hkey
  reserved_eq other key hkey hlocal := by
    by_cases hother : other < m.store.frames.size
    · exact h.local?_eq other hother key fun _ heq => hname (heq ▸ hkey)
    · rw [Store.local?_of_size_le _ (Nat.not_lt.1 hother)] at hlocal
      cases hlocal

/-- The frame around the methods is that of the place around them. -/
theorem framed (h : m.Declares name c methods made frame m') (hname : ¬IsReserved name.lexeme)
    {superclass : Option Use} (hsome : c.isSome = superclass.isSome) {marked : FrameId → Bool}
    {marks : List Bool}
    (hmirrors : Mirrors m.store marked place.site.scopes marks place.frames m.current)
    (hm : globals < m.store.frames.size) (hglobals : m.store.enclosing? globals = none) :
    ((place.introduce name).aroundMethods superclass c frame).Framed m'.store frame := by
  have hext := h.extends_ hname
  have houter : Mirrors m'.store marked (place.site.introduce name).2.scopes marks place.frames
      m.current := (hmirrors.mono hext fun _ _ => rfl).introduce (by rw [h.bound]; rfl)
  have henclosing : m'.store.enclosing? globals = none :=
    (hext.enclosing?_eq _ hm).trans hglobals
  cases h.methodFrame with
  | current hsize =>
    obtain rfl : superclass = none := by simpa using hsome
    exact houter.framed henclosing
  | @inside d hsize hcurrent hsuper =>
    obtain ⟨use, rfl⟩ := Option.isSome_iff_exists.1 hsome.symm
    have hlt : m.store.frames.size < m'.store.frames.size := hsize ▸ Nat.lt_succ_self _
    have hbound : ∀ key, (Scope.single "super").get? key = some true →
        (m'.store.local? m.store.frames.size key).isSome := by
      intro key hkey
      rw [Scope.get?_single] at hkey
      split at hkey
      · next heq =>
        rw [hsuper, if_pos heq]
        rfl
      · cases hkey
    exact (Mirrors.enter hlt rfl hbound hcurrent houter).framed henclosing

end Machine.Declares

/-- How a class statement at a place ends: with a fault of its superclass clause and everything as
it was, or with the class declared. -/
inductive ClassEnds (place : Place) (name : Token) (methods : List Routine) (m : Machine) :
    Option Use → Ended Flow → Prop
  | undefined {use : Use} (h : place.denotes? m.store use.name = none) :
      ClassEnds place name methods m (some use) (.error (.fault (undefinedVariable use.token)) m)
  | notClass {use : Use} {v : Value} (h : place.denotes? m.store use.name = some v)
      (hv : ∀ c, v ≠ .class c) :
      ClassEnds place name methods m (some use)
        (.error (.fault (.runtime use.token.line .superclassNotClass)) m)
  /-- The class is new, its superclass is the one that was named, and the frames around its methods
  are those of the scopes around them. -/
  | declared {superclass : Option Use} {c : Option Class} {made : Class} {frame : FrameId}
      {m' : Machine} (hc : place.Inherits m.store superclass c)
      (hdeclares : m.Declares name c methods made frame m')
      (hframed : ((place.introduce name).aroundMethods superclass c frame).Framed m'.store frame)
      (hnew : ∀ s : State, s.Reachable → s.machine = m → ∀ v, s.HasValue v →
        v.equals (.class made) = false) :
      ClassEnds place name methods m superclass (.ok .normal m')

/-- A class statement that does not fail has declared the class. -/
theorem ClassEnds.of_ok {superclass : Option Use} {ended : Ended Flow} {flow : Flow}
    (h : ClassEnds place name methods m superclass ended) (hok : ended = .ok flow m') :
    ∃ c made frame, place.Inherits m.store superclass c ∧
      m.Declares name c methods made frame m' := by
  cases h with
  | undefined | notClass => cases hok
  | declared hc hdeclares =>
    cases hok
    exact ⟨_, _, _, hc, hdeclares⟩

/-- A class with the next stamp is new. -/
theorem Value.Within.equals_class {v : Value} (h : v.Within m)
    (hstamp : made.own.stamp = m.nextStamp) : v.equals (.class made) = false := by
  cases v with
  | «class» d =>
    have hlt : d.own.stamp < m.nextStamp := Class.Within.stamp_lt h
    exact beq_false_of_ne (hstamp ▸ hlt.ne)
  | _ => rfl

/-- Once its superclass is found, nothing can fail; and only its name says whether it is. -/
theorem Visit.classEnds {R : Place → Moment → Prop} {ids : Nat → Numbering} {fuel : Nat}
    {superclass : Option Use}
    (h : Visit R ids place (.execute (fuel + 1) (.class name superclass methods) m))
    (hsuperclass : ∀ use, superclass = some use → Visit R ids place (.access .variable use m)) :
    ClassEnds place name methods m superclass
      (execute (fuel + 1) (.class name superclass methods) m) := by
  obtain ⟨marks, hat, htwin⟩ := h.visited
  have hname : ¬IsReserved name.lexeme := by
    cases htwin with
    | «class» hname => exact hname.not_isReserved
  have hlt : m.current < m.store.frames.size := hat.current_lt
  have hexecute : execute (fuel + 1) (.class name superclass methods) m =
      (declareClass name superclass methods >>= fun _ => pure .normal) m := rfl
  have hdeclared {c : Option Class} (hc : superclassClassOf superclass m = .ok c m)
      (hsome : c.isSome = superclass.isSome) (hinherits : place.Inherits m.store superclass c) :
      ClassEnds place name methods m superclass
        (execute (fuel + 1) (.class name superclass methods) m) := by
    have hdeclares := Machine.declares_withClass name c methods hlt
    rw [hexecute, bind_eq_of_ok (declareClass_eq_withClass name methods hlt hc)]
    refine .declared hinherits hdeclares ?_ ?_
    · exact hdeclares.framed hname hsome hat.mirrors hat.sound.globals_lt
        hat.sound.enclosing?_globals
    · rintro s hs rfl v hv
      exact (hs.founded.within hv).equals_class hdeclares.stamp_eq
  cases superclass with
  | none => exact hdeclared rfl rfl .none
  | some use =>
    have heq := (hsuperclass use rfl).superclassClassOf_eq
    have hfails {halt : Halt} (hc : superclassClassOf (some use) m = .error halt m) :
        execute (fuel + 1) (.class name (some use) methods) m = .error halt m := by
      rw [hexecute, declareClass_eq, bind_assoc, bind_eq_error hc]
    cases hv : place.denotes? m.store use.name with
    | none =>
      rw [hv] at heq
      rw [hfails heq]
      exact .undefined hv
    | some v =>
      rw [hv] at heq
      cases v with
      | «class» c => exact hdeclared heq rfl (.some hv)
      | _ =>
        rw [hfails heq]
        exact .notClass hv nofun

namespace Session

/-- **A class is declared as a whole or not at all.** Wherever a class statement is executed in a
session, either its superclass clause names nothing or no class, and then it fails and the machine
is as it was; or it ends normally, and its name is bound in the current frame to a new class, while
all that was bound before is as it was. -/
theorem class_declared_whole (sink : Sink) (reading : Nat → Float) (fuel : Nat)
    (sources : List String) (place : Place) (fuel' : Nat) (name : Token) (superclass : Option Use)
    (methods : List Routine) (m : Machine)
    (h : Happens (Begins (initial sink reading) fuel sources) place
      (.execute (fuel' + 1) (.class name superclass methods) m)) :
    (∃ s : State, s.Reachable ∧ s.machine = m) ∧
      ClassEnds place name methods m superclass
        (execute (fuel' + 1) (.class name superclass methods) m) := by
  refine ⟨?_, (visit sink reading h).classEnds ?_⟩
  · obtain ⟨held, hs⟩ := isReached_of_happens h trivial
    exact ⟨_, hs.before, rfl⟩
  · rintro use rfl
    exact visit sink reading h.superclass

/-- The subclass is declared, on top of the class that its clause names. -/
theorem class_declared_whole_subclassText : ∃ place m c made frame m',
    Happens (Begins (initial .unbounded fun _ => 0) 20 [subclassText]) place
        (.execute 20 (.class ⟨.identifier, "B", 1⟩ (some ⟨0, ⟨.identifier, "A", 1⟩⟩)
          [subclassInitializer]) m) ∧
      place.Inherits m.store (some ⟨0, ⟨.identifier, "A", 1⟩⟩) c ∧
      m.Declares ⟨.identifier, "B", 1⟩ c [subclassInitializer] made frame m' := by
  have hrun := Happens.root (Begins.first accept_subclassText 20 [])
  have hclass := (hrun.topRest rfl).top
  obtain ⟨-, hends⟩ :=
    class_declared_whole .unbounded (fun _ => 0) 20 [subclassText] _ 19 _ _ _ _ hclass
  obtain ⟨c, made, frame, hc, hdeclares⟩ := hends.of_ok rfl
  exact ⟨_, _, c, made, frame, _, hclass, hc, hdeclares⟩

end Session

end Treewalk
