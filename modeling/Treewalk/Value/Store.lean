import Treewalk.Diagnostic
import Treewalk.Value.Basic

/-!
# The store

Frames hold the variables of a running program. Every frame but the outermost ones is inside
another, made before it. Frames are shared: a function keeps the frame it was declared in, and any
number of frames may be inside one. Beside the frames the store holds the fields of all objects.

A variable is reached in two ways: by searching its name outwards from a frame, or directly in the
frame a given number of hops out.

## Main definitions

* `Frame`, `Store`
* `Store.newFrame`, `Store.define`
* `Store.get`, `Store.assign` — by searching
* `Store.getAt`, `Store.assignAt` — by the number of hops
* `Store.newObject`, `Store.field?`, `Store.setField`

## Implementation notes

All operations are total. On a frame that does not exist, reading finds nothing and writing changes
nothing. A search looks at no more frames than there are, which is enough because a frame is always
inside an older one.
-/

namespace Treewalk

structure Frame where
  bindings : NameMap Value
  enclosing : Option FrameId
deriving Inhabited

structure Store where
  frames : Array Frame
  objects : Array (NameMap Value)
deriving Inhabited

/-- The fault of using a name that is not bound. -/
def undefinedVariable (name : Token) : Diagnostic :=
  .runtime name.line (.undefinedVariable name.lexeme)

namespace Store

def empty : Store := ⟨#[], #[]⟩

/-! ### Frames -/

/-- Adds an empty frame, inside `enclosing` if it is given. -/
def newFrame (s : Store) (enclosing : Option FrameId) : FrameId × Store :=
  (s.frames.size, { s with frames := s.frames.push ⟨.empty, enclosing⟩ })

/-- Binds a name in a frame, whether it was bound there or not. -/
def define (s : Store) (frame : FrameId) (name : String) (value : Value) : Store :=
  { s with frames := s.frames.modify frame fun f =>
      { f with bindings := f.bindings.set name value } }

/-- Binds names in a frame, in order. -/
def defineAll (s : Store) (frame : FrameId) (bindings : List (String × Value)) : Store :=
  bindings.foldl (fun s b => s.define frame b.1 b.2) s

/-- The value a frame itself binds to a name. -/
def local? (s : Store) (frame : FrameId) (name : String) : Option Value :=
  s.frames[frame]?.bind (·.bindings.get? name)

def enclosing? (s : Store) (frame : FrameId) : Option FrameId :=
  s.frames[frame]?.bind (·.enclosing)

/-! ### Direct access -/

/-- The frame `hops` frames out. -/
def outward? (s : Store) : (hops : Nat) → FrameId → Option FrameId
  | 0, frame => some frame
  | hops + 1, frame => (s.enclosing? frame).bind (s.outward? hops)

/-- Reads a name in the frame exactly `hops` frames out. -/
def getAt (s : Store) (hops : Nat) (frame : FrameId) (name : Token) : Except Diagnostic Value :=
  match (s.outward? hops frame).bind (s.local? · name.lexeme) with
  | some value => .ok value
  | none => .error (undefinedVariable name)

/-- The frame exactly `hops` frames out, as the target of an assignment to a name. -/
def targetAt (s : Store) (hops : Nat) (frame : FrameId) (name : Token) :
    Except Diagnostic FrameId :=
  match s.outward? hops frame with
  | some target => .ok target
  | none => .error (undefinedVariable name)

/-- Writes a name in the frame exactly `hops` frames out, whether it is bound there or not. -/
def assignAt (s : Store) (hops : Nat) (frame : FrameId) (name : Token) (value : Value) :
    Except Diagnostic Store := do
  return s.define (← s.targetAt hops frame name) name.lexeme value

/-! ### Search -/

/-- The nearest frame that binds a name, among the next `count` frames outwards. -/
def holderWithin? (s : Store) (name : String) : (count : Nat) → FrameId → Option FrameId
  | 0, _ => none
  | count + 1, frame =>
    match s.local? frame name with
    | some _ => some frame
    | none => (s.enclosing? frame).bind (s.holderWithin? name count)

/-- The nearest frame outwards that binds a name. -/
def holder? (s : Store) (frame : FrameId) (name : String) : Option FrameId :=
  s.holderWithin? name s.frames.size frame

/-- Reads a name in the nearest frame that binds it. -/
def get (s : Store) (frame : FrameId) (name : Token) : Except Diagnostic Value :=
  match (s.holder? frame name.lexeme).bind (s.local? · name.lexeme) with
  | some value => .ok value
  | none => .error (undefinedVariable name)

/-- The nearest frame that binds a name, as the target of an assignment to it. -/
def target (s : Store) (frame : FrameId) (name : Token) : Except Diagnostic FrameId :=
  match s.holder? frame name.lexeme with
  | some target => .ok target
  | none => .error (undefinedVariable name)

/-- Writes a name in the nearest frame that binds it. -/
def assign (s : Store) (frame : FrameId) (name : Token) (value : Value) :
    Except Diagnostic Store := do
  return s.define (← s.target frame name) name.lexeme value

/-! ### Objects -/

/-- Adds an object without fields. -/
def newObject (s : Store) : ObjectId × Store :=
  (s.objects.size, { s with objects := s.objects.push .empty })

def field? (s : Store) (object : ObjectId) (name : String) : Option Value :=
  s.objects[object]?.bind (·.get? name)

def setField (s : Store) (object : ObjectId) (name : String) (value : Value) : Store :=
  { s with objects := s.objects.modify object (·.set name value) }

/-! ### What the operations change -/

theorem local?_newFrame (s : Store) (enclosing : Option FrameId) (frame : FrameId) (name : String) :
    (s.newFrame enclosing).2.local? frame name = s.local? frame name := by
  simp only [local?, newFrame, Array.getElem?_push]
  split
  · rename_i h
    subst h
    simp
  · rfl

/-- Binding a name changes that name of that frame and no other. -/
theorem local?_define (s : Store) (frame other : FrameId) (name key : String) (value : Value) :
    (s.define frame name value).local? other key =
      if other = frame ∧ key = name ∧ frame < s.frames.size then some value
      else s.local? other key := by
  simp only [local?, define, Array.getElem?_modify]
  by_cases h : frame = other
  · subst h
    cases hf : s.frames[frame]? with
    | none =>
      have := Array.getElem?_eq_none_iff.1 hf
      simp [Nat.not_lt.2 this]
    | some f =>
      have := (Array.getElem?_eq_some_iff.1 hf).1
      simp [NameMap.get?_set, this]
  · simp [h, Ne.symm h]

theorem enclosing?_define (s : Store) (frame other : FrameId) (name : String) (value : Value) :
    (s.define frame name value).enclosing? other = s.enclosing? other := by
  simp only [enclosing?, define, Array.getElem?_modify]
  split
  · rename_i h
    subst h
    cases s.frames[frame]? <;> rfl
  · rfl

theorem field?_setField (s : Store) (object other : ObjectId) (name key : String) (value : Value) :
    (s.setField object name value).field? other key =
      if other = object ∧ key = name ∧ object < s.objects.size then some value
      else s.field? other key := by
  simp only [field?, setField, Array.getElem?_modify]
  by_cases h : object = other
  · subst h
    cases hf : s.objects[object]? with
    | none =>
      have := Array.getElem?_eq_none_iff.1 hf
      simp [Nat.not_lt.2 this]
    | some f =>
      have := (Array.getElem?_eq_some_iff.1 hf).1
      simp [NameMap.get?_set, this]
  · simp [h, Ne.symm h]

end Store

end Treewalk
