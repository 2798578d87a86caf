import Mathlib.Order.Bounds.Basic
import Treewalk.Proofs.Evaluation.Runs

/-!
# Search and direct access

A name is reached by searching it outwards from a frame or directly in the frame a number of hops
out. Frames are shared by all that is inside them, and names are bound anew at any time; still both
ways lead to the same bindings: the search ends at the fewest hops at which the name is found
directly. A write changes the binding that it reaches and no other one, and a write that fails
changes nothing.

## Main definitions

* `Store.Built` — the stores that come about by making frames, binding names and assigning to them
* `Store.Chain` — the frames from a frame outwards
* `Store.Rebinds` — one binding is changed or made, and all else is as it was
* `Store.AccessAgrees` — search and direct access from a frame agree on a name
* `Eval.FollowsStore` — a machine uses variables by the operations on its store

## Main results

* `Store.access_agrees` — so it is for every frame of every store, and failing writes change nothing
-/

namespace Treewalk

namespace Store

/-! ### What the operations give -/

section Operations

variable {s s' : Store} {frame : FrameId} {name : Token} {value : Value} {hops : Nat}

theorem assignAt_eq_map : s.assignAt hops frame name value =
    (s.targetAt hops frame name).map fun target => s.define target name.lexeme value := by
  rw [assignAt]
  cases s.targetAt hops frame name <;> rfl

theorem assign_eq_map : s.assign frame name value =
    (s.target frame name).map fun target => s.define target name.lexeme value := by
  rw [assign]
  cases s.target frame name <;> rfl

theorem assignAt_eq_ok_iff : s.assignAt hops frame name value = .ok s' ↔
    ∃ target, s.outward? hops frame = some target ∧ s.define target name.lexeme value = s' := by
  rw [assignAt_eq_map, targetAt]
  cases s.outward? hops frame <;> simp [Except.map]

theorem exists_assignAt_eq_error_iff :
    (∃ fault, s.assignAt hops frame name value = .error fault) ↔ s.outward? hops frame = none := by
  rw [assignAt_eq_map, targetAt]
  cases s.outward? hops frame <;> simp [Except.map]

theorem assign_eq_ok_iff : s.assign frame name value = .ok s' ↔
    ∃ target, s.holder? frame name.lexeme = some target ∧
      s.define target name.lexeme value = s' := by
  rw [assign_eq_map, Store.target]
  cases s.holder? frame name.lexeme <;> simp [Except.map]

end Operations

/-! ### Stores and chains -/

/-- The stores that come about by making frames, on their own or inside a frame that is there,
binding names and assigning to them. A write that fails makes no other store. -/
inductive Built : Store → Prop
  | empty : Built .empty
  | newFrame {s : Store} (h : Built s) : Built (s.newFrame none).2
  | newInside {s : Store} {enclosing : FrameId} (h : Built s)
      (henclosing : enclosing < s.frames.size) : Built (s.newFrame (some enclosing)).2
  | define {s : Store} {frame : FrameId} (h : Built s) (hframe : frame < s.frames.size)
      (name : String) (value : Value) : Built (s.define frame name value)
  | assign {s s' : Store} {frame : FrameId} {name : Token} {value : Value} (h : Built s)
      (hframe : frame < s.frames.size) (hassign : s.assign frame name value = .ok s') : Built s'
  | assignAt {s s' : Store} {hops : Nat} {frame : FrameId} {name : Token} {value : Value}
      (h : Built s) (hframe : frame < s.frames.size)
      (hassign : s.assignAt hops frame name value = .ok s') : Built s'

/-- Every frame is inside an older one, if it is inside any. -/
def Forest (s : Store) : Prop := ∀ frame outer, s.enclosing? frame = some outer → outer < frame

/-- The frames from `frame` outwards, itself the first one. -/
inductive Chain (s : Store) : FrameId → List FrameId → Prop
  | outermost {frame : FrameId} (hframe : frame < s.frames.size)
      (h : s.enclosing? frame = none) : Chain s frame [frame]
  | inside {frame outer : FrameId} {chain : List FrameId} (h : s.enclosing? frame = some outer)
      (hchain : Chain s outer chain) : Chain s frame (frame :: chain)

variable {s s' : Store} {frame target : FrameId} {chain : List FrameId} {name : Token}
  {value : Value} {hops : Nat}

theorem lt_size_of_enclosing? {outer : FrameId} (h : s.enclosing? frame = some outer) :
    frame < s.frames.size := by
  obtain ⟨f, hf, -⟩ := Option.bind_eq_some_iff.1 h
  exact (Array.getElem?_eq_some_iff.1 hf).1

theorem Forest.newFrame (hs : s.Forest) {enclosing : Option FrameId}
    (h : ∀ outer ∈ enclosing, outer < s.frames.size) : (s.newFrame enclosing).2.Forest := by
  intro frame outer houter
  rw [enclosing?_newFrame] at houter
  split at houter
  · next hframe => exact hframe ▸ h outer houter
  · exact hs frame outer houter

theorem Forest.define (hs : s.Forest) (frame : FrameId) (name : String) (value : Value) :
    (s.define frame name value).Forest := by
  intro other outer houter
  rw [enclosing?_define] at houter
  exact hs other outer houter

theorem Built.forest (h : s.Built) : s.Forest := by
  induction h with
  | empty => exact fun _ _ houter => by cases houter
  | newFrame h ih => exact ih.newFrame nofun
  | newInside h henclosing ih =>
    refine ih.newFrame fun outer houter => ?_
    obtain rfl := Option.some.inj houter
    exact henclosing
  | define h hframe name value ih => exact ih.define _ _ _
  | assign h hframe hassign ih =>
    obtain ⟨target, -, rfl⟩ := assign_eq_ok_iff.1 hassign
    exact ih.define _ _ _
  | assignAt h hframe hassign ih =>
    obtain ⟨target, -, rfl⟩ := assignAt_eq_ok_iff.1 hassign
    exact ih.define _ _ _

theorem Forest.exists_chain (hs : s.Forest) (hframe : frame < s.frames.size) :
    ∃ chain, s.Chain frame chain := by
  induction frame using Nat.strong_induction_on with
  | _ frame ih =>
    cases h : s.enclosing? frame with
    | none => exact ⟨_, .outermost hframe h⟩
    | some outer =>
      have hlt := hs frame outer h
      obtain ⟨chain, hchain⟩ := ih outer hlt (hlt.trans hframe)
      exact ⟨_, .inside h hchain⟩

namespace Chain

theorem lt_size (h : s.Chain frame chain) : frame < s.frames.size := by
  cases h with
  | outermost hframe => exact hframe
  | inside h => exact lt_size_of_enclosing? h

/-- There are no more frames in a chain than older frames and the first one. -/
theorem length_le (hs : s.Forest) (h : s.Chain frame chain) : chain.length ≤ frame + 1 := by
  induction h with
  | outermost => exact Nat.le_add_left 1 _
  | inside h _ ih => exact Nat.succ_le_succ (ih.trans (hs _ _ h))

/-- The frame a number of hops out is the one at that place in the chain. -/
theorem getElem?_eq (h : s.Chain frame chain) (hops : Nat) :
    chain[hops]? = s.outward? hops frame := by
  induction h generalizing hops with
  | @outermost frame _ h =>
    cases hops with
    | zero => rfl
    | succ hops => rw [outward?, h]; rfl
  | @inside frame outer chain h _ ih =>
    cases hops with
    | zero => rfl
    | succ hops => rw [outward?, h, List.getElem?_cons_succ, ih]; rfl

theorem holderWithin?_eq (h : s.Chain frame chain) (name : String) {count : Nat}
    (hcount : chain.length ≤ count) :
    s.holderWithin? name count frame = chain.find? fun f => (s.local? f name).isSome := by
  induction h generalizing count with
  | @outermost frame hframe h =>
    obtain ⟨count, rfl⟩ := Nat.exists_eq_succ_of_ne_zero (Nat.one_le_iff_ne_zero.1 hcount)
    rw [holderWithin?, h]
    cases hlocal : s.local? frame name <;> simp [hlocal]
  | @inside frame outer chain h _ ih =>
    obtain ⟨count, rfl⟩ := Nat.exists_eq_succ_of_ne_zero (Nat.ne_zero_of_lt hcount)
    rw [holderWithin?, h, Option.bind_some, ih (Nat.le_of_succ_le_succ hcount), List.find?_cons]
    cases s.local? frame name <;> rfl

/-- A search looks through the whole chain. -/
theorem holder?_eq (hs : s.Forest) (h : s.Chain frame chain) (name : String) :
    s.holder? frame name = chain.find? fun f => (s.local? f name).isSome :=
  h.holderWithin?_eq name ((h.length_le hs).trans h.lt_size)

end Chain

/-- A search goes on outside a frame that does not bind the name. -/
theorem holder?_inside (hs : s.Forest) {outer : FrameId} (h : s.enclosing? frame = some outer)
    {name : String} (hnone : s.local? frame name = none) :
    s.holder? frame name = s.holder? outer name := by
  have hlt : outer < s.frames.size := (hs _ _ h).trans (lt_size_of_enclosing? h)
  obtain ⟨chain, hchain⟩ := hs.exists_chain hlt
  rw [(Chain.inside h hchain).holder?_eq hs, hchain.holder?_eq hs, List.find?_cons, hnone]
  rfl

/-! ### Where a name is found -/

/-- The numbers of hops at which a name is found directly. -/
def hopsTo (s : Store) (frame : FrameId) (name : Token) : Set Nat :=
  {hops | ∃ v, s.getAt hops frame name = .ok v}

theorem Chain.mem_hopsTo_iff (h : s.Chain frame chain) : hops ∈ s.hopsTo frame name ↔
    ∃ target, chain[hops]? = some target ∧ (s.local? target name.lexeme).isSome := by
  have hmem : hops ∈ s.hopsTo frame name ↔ ∃ v, s.getAt hops frame name = .ok v := Iff.rfl
  simp only [hmem, getAt_eq_ok_iff, h.getElem?_eq, Option.isSome_iff_exists]
  exact ⟨fun ⟨v, target, htarget, hv⟩ => ⟨target, htarget, v, hv⟩,
    fun ⟨target, htarget, v, hv⟩ => ⟨v, target, htarget, hv⟩⟩

/-- A search ends at the fewest hops at which the name is found. -/
theorem Chain.holder?_eq_some_iff (hs : s.Forest) (h : s.Chain frame chain) :
    s.holder? frame name.lexeme = some target ↔
      ∃ hops, IsLeast (s.hopsTo frame name) hops ∧ chain[hops]? = some target := by
  rw [h.holder?_eq hs, List.find?_eq_some_iff_getElem]
  constructor
  · rintro ⟨hlocal, hops, hlt, rfl, hnearer⟩
    refine ⟨hops, ⟨h.mem_hopsTo_iff.2 ⟨_, List.getElem?_eq_getElem hlt, hlocal⟩, ?_⟩,
      List.getElem?_eq_getElem hlt⟩
    intro fewer hfewer
    obtain ⟨other, hother, hfound⟩ := h.mem_hopsTo_iff.1 hfewer
    by_contra hnot
    have hnone := hnearer fewer (Nat.not_le.1 hnot)
    obtain ⟨hlt', rfl⟩ := List.getElem?_eq_some_iff.1 hother
    rw [hfound] at hnone
    cases hnone
  · rintro ⟨hops, ⟨hmem, hleast⟩, htarget⟩
    obtain ⟨target', htarget', hlocal⟩ := h.mem_hopsTo_iff.1 hmem
    obtain rfl : target = target' := Option.some.inj (htarget.symm.trans htarget')
    obtain ⟨hlt, heq⟩ := List.getElem?_eq_some_iff.1 htarget
    refine ⟨hlocal, hops, hlt, heq, fun fewer hfewer => ?_⟩
    rw [Bool.not_eq_true']
    by_contra hfound
    rw [Bool.not_eq_false] at hfound
    have hmem := h.mem_hopsTo_iff.2 ⟨_, List.getElem?_eq_getElem (hfewer.trans hlt), hfound⟩
    exact absurd (hleast hmem) (Nat.not_le.2 hfewer)

/-- What a search reads is what is read directly at the fewest hops. -/
theorem Chain.get_eq_ok_iff (hs : s.Forest) (h : s.Chain frame chain) {v : Value} :
    s.get frame name = .ok v ↔
      ∃ hops, IsLeast (s.hopsTo frame name) hops ∧ s.getAt hops frame name = .ok v := by
  rw [Store.get_eq_ok_iff]
  constructor
  · rintro ⟨target, htarget, hv⟩
    obtain ⟨hops, hleast, hhops⟩ := (h.holder?_eq_some_iff hs).1 htarget
    exact ⟨hops, hleast, getAt_eq_ok_iff.2 ⟨target, h.getElem?_eq hops ▸ hhops, hv⟩⟩
  · rintro ⟨hops, hleast, hv⟩
    obtain ⟨target, htarget, hv⟩ := getAt_eq_ok_iff.1 hv
    exact ⟨target, (h.holder?_eq_some_iff hs).2 ⟨hops, hleast, h.getElem?_eq hops ▸ htarget⟩, hv⟩

/-- A search succeeds just if direct access does at some number of hops. -/
theorem Chain.exists_get_iff (hs : s.Forest) (h : s.Chain frame chain) :
    (∃ v, s.get frame name = .ok v) ↔ (s.hopsTo frame name).Nonempty := by
  constructor
  · rintro ⟨v, hv⟩
    obtain ⟨hops, hleast, -⟩ := (h.get_eq_ok_iff hs).1 hv
    exact ⟨hops, hleast.1⟩
  · intro hne
    classical
    have hleast : IsLeast (s.hopsTo frame name) (Nat.find hne) :=
      ⟨Nat.find_spec hne, fun _ => Nat.find_min' hne⟩
    obtain ⟨v, hv⟩ := hleast.1
    exact ⟨v, (h.get_eq_ok_iff hs).2 ⟨_, hleast, hv⟩⟩

/-! ### What a write changes -/

/-- One name of one frame is bound to a value, whether it was bound there or not, and every other
name of every frame is bound as it was. -/
structure Rebinds (s s' : Store) (target : FrameId) (name : String) (value : Value) : Prop where
  target_lt : target < s.frames.size
  local?_self : s'.local? target name = some value
  local?_other : ∀ other key, ¬(other = target ∧ key = name) →
    s'.local? other key = s.local? other key
  enclosing?_eq : ∀ other, s'.enclosing? other = s.enclosing? other
  size_eq : s'.frames.size = s.frames.size
  objects_eq : s'.objects = s.objects

theorem rebinds_define (h : target < s.frames.size) (name : String) (value : Value) :
    s.Rebinds (s.define target name value) target name value where
  target_lt := h
  local?_self := by rw [local?_define, if_pos ⟨rfl, rfl, h⟩]
  local?_other other key hne := by
    rw [local?_define, if_neg fun ⟨hother, hkey, _⟩ => hne ⟨hother, hkey⟩]
  enclosing?_eq other := s.enclosing?_define target other name value
  size_eq := s.size_define target name value
  objects_eq := rfl

/-- All frames of a chain are there. -/
theorem Chain.getElem?_lt (h : s.Chain frame chain) (htarget : chain[hops]? = some target) :
    target < s.frames.size := by
  induction h generalizing hops with
  | outermost hframe =>
    obtain rfl := List.mem_singleton.1 (List.mem_of_getElem? htarget)
    exact hframe
  | inside h _ ih =>
    cases hops with
    | zero =>
      obtain rfl := Option.some.inj htarget
      exact lt_size_of_enclosing? h
    | succ hops => exact ih htarget

namespace Rebinds

variable (h : s.Rebinds s' target name.lexeme value)
include h

theorem outward?_eq (hops : Nat) (frame : FrameId) :
    s'.outward? hops frame = s.outward? hops frame := by
  induction hops generalizing frame with
  | zero => rfl
  | succ hops ih =>
    rw [outward?, outward?, h.enclosing?_eq]
    exact Option.bind_congr fun outer _ => ih outer

/-- The new value is read directly from wherever the target is some number of hops out. -/
theorem getAt_eq (hhops : s.outward? hops frame = some target) :
    s'.getAt hops frame name = .ok value :=
  getAt_eq_ok_iff.2 ⟨target, (h.outward?_eq hops frame).trans hhops, h.local?_self⟩

theorem forest (hs : s.Forest) : s'.Forest := by
  intro frame outer houter
  rw [h.enclosing?_eq] at houter
  exact hs frame outer houter

/-- A search from inside the target finds the new value, unless it ends before. -/
theorem get_eq (hs : s.Forest) {child : FrameId} (hchild : s.enclosing? child = some target)
    (hnone : s.local? child name.lexeme = none) : s'.get child name = .ok value := by
  have houter : s'.enclosing? child = some target := (h.enclosing?_eq child).trans hchild
  have hne : child ≠ target := (hs _ _ hchild).ne'
  have hnone' : s'.local? child name.lexeme = none :=
    (h.local?_other _ _ fun heq => hne heq.1).trans hnone
  refine get_eq_ok_iff.2 ⟨target, ?_, h.local?_self⟩
  rw [holder?_inside (h.forest hs) houter hnone']
  refine holder?_self s' (h.size_eq ▸ h.target_lt) ?_
  rw [h.local?_self]
  rfl

end Rebinds

/-! ### Search and direct access -/

/-- What is reached by searching a name from a frame is what is reached directly at the fewest hops
at which the name is bound, and a write changes no other binding. -/
structure AccessAgrees (s : Store) (frame : FrameId) (chain : List FrameId) (name : Token) :
    Prop where
  getAt_eq_ok_iff : ∀ hops v, s.getAt hops frame name = .ok v ↔
    ∃ target, chain[hops]? = some target ∧ s.local? target name.lexeme = some v
  exists_get_iff : (∃ v, s.get frame name = .ok v) ↔ ∃ hops v, s.getAt hops frame name = .ok v
  get_eq_ok_iff : ∀ v, s.get frame name = .ok v ↔
    ∃ hops, IsLeast (s.hopsTo frame name) hops ∧ s.getAt hops frame name = .ok v
  exists_assign_iff : ∀ value,
    (∃ s', s.assign frame name value = .ok s') ↔ ∃ v, s.get frame name = .ok v
  rebinds_assign : ∀ value s', s.assign frame name value = .ok s' →
    ∃ hops target, IsLeast (s.hopsTo frame name) hops ∧ chain[hops]? = some target ∧
      s.Rebinds s' target name.lexeme value ∧
      ∀ child, s.enclosing? child = some target → s'.getAt 1 child name = .ok value ∧
        (s.local? child name.lexeme = none → s'.get child name = .ok value)
  rebinds_assignAt : ∀ value hops s', s.assignAt hops frame name value = .ok s' →
    ∃ target, chain[hops]? = some target ∧ s.Rebinds s' target name.lexeme value
  assignAt_fails_iff : ∀ value hops,
    (∃ fault, s.assignAt hops frame name value = .error fault) ↔ chain.length ≤ hops

namespace Chain

variable (h : s.Chain frame chain)
include h

/-- A search to write succeeds where a search to read does. -/
theorem exists_assign_iff (hs : s.Forest) :
    (∃ s', s.assign frame name value = .ok s') ↔ ∃ v, s.get frame name = .ok v := by
  constructor
  · rintro ⟨s', hassign⟩
    obtain ⟨target, htarget, -⟩ := assign_eq_ok_iff.1 hassign
    obtain ⟨hops, ⟨⟨v, hv⟩, hleast⟩, -⟩ := (h.holder?_eq_some_iff hs).1 htarget
    exact ⟨v, (h.get_eq_ok_iff hs).2 ⟨hops, ⟨⟨v, hv⟩, hleast⟩, hv⟩⟩
  · rintro ⟨v, hv⟩
    obtain ⟨target, htarget, -⟩ := Store.get_eq_ok_iff.1 hv
    exact ⟨_, assign_eq_ok_iff.2 ⟨target, htarget, rfl⟩⟩

theorem rebinds_assign (hs : s.Forest) (hassign : s.assign frame name value = .ok s') :
    ∃ hops target, IsLeast (s.hopsTo frame name) hops ∧ chain[hops]? = some target ∧
      s.Rebinds s' target name.lexeme value := by
  obtain ⟨target, htarget, rfl⟩ := assign_eq_ok_iff.1 hassign
  obtain ⟨hops, hleast, hhops⟩ := (h.holder?_eq_some_iff hs).1 htarget
  exact ⟨hops, target, hleast, hhops, rebinds_define (h.getElem?_lt hhops) _ _⟩

theorem rebinds_assignAt (hassign : s.assignAt hops frame name value = .ok s') :
    ∃ target, chain[hops]? = some target ∧ s.Rebinds s' target name.lexeme value := by
  obtain ⟨target, htarget, rfl⟩ := assignAt_eq_ok_iff.1 hassign
  rw [← h.getElem?_eq] at htarget
  exact ⟨target, htarget, rebinds_define (h.getElem?_lt htarget) _ _⟩

theorem accessAgrees (hs : s.Forest) (name : Token) : s.AccessAgrees frame chain name where
  getAt_eq_ok_iff hops v := by rw [Store.getAt_eq_ok_iff, h.getElem?_eq]
  exists_get_iff := h.exists_get_iff hs
  get_eq_ok_iff _ := h.get_eq_ok_iff hs
  exists_assign_iff _ := h.exists_assign_iff hs
  rebinds_assign value s' hassign := by
    obtain ⟨hops, target, hleast, hhops, hrebinds⟩ := h.rebinds_assign hs hassign
    refine ⟨hops, target, hleast, hhops, hrebinds, fun child hchild => ⟨?_, ?_⟩⟩
    · refine hrebinds.getAt_eq ?_
      rw [outward?, hchild]
      rfl
    · exact hrebinds.get_eq hs hchild
  rebinds_assignAt _ _ _ := h.rebinds_assignAt
  assignAt_fails_iff value hops := by
    rw [exists_assignAt_eq_error_iff, ← h.getElem?_eq, List.getElem?_eq_none_iff]

end Chain

end Store

/-! ### In a machine -/

namespace Eval

variable {α : Type} {m : Machine}

/-- The end of a computation that does an operation on the store of a machine. The machine goes on
with the store that the operation leaves, or halts as it was where the operation fails. -/
def ending (m : Machine) : Except Diagnostic (α × Store) → EStateM.Result Halt Machine α
  | .ok (a, s) => .ok a { m with store := s }
  | .error fault => .error (.fault fault) m

/-- Where the computation halts, the machine is as it was before. -/
def FailsUnchanged (c : Eval α) (m : Machine) : Prop :=
  ∀ halt m', c m = .error halt m' → m' = m

theorem failsUnchanged_of_eq_ending {c : Eval α} {result : Except Diagnostic (α × Store)}
    (h : c m = ending m result) : FailsUnchanged c m := by
  intro halt m' hhalt
  rw [h] at hhalt
  cases result <;> cases hhalt
  rfl

theorem orFail_eq_ending (result : Except Diagnostic α) :
    orFail result m = ending m (result.map (·, m.store)) := by
  cases result <;> rfl

/-- A write goes to a frame that was found, or halts where none was. -/
theorem orFail_bind_defineIn_eq_ending (target : Except Diagnostic FrameId) (name : String)
    (value : Value) : (orFail target >>= fun frame => defineIn frame name value) m =
      ending m ((target.map fun frame => m.store.define frame name value).map ((), ·)) := by
  cases target <;> rfl

theorem lookUp_eq_ending (use : Use) : lookUp use m =
    ending m ((match m.depths.depth? use.id with
      | some hops => m.store.getAt hops m.current use.token
      | none => m.store.get globals use.token).map (·, m.store)) := by
  rw [lookUp, get_bind_apply]
  cases m.depths.depth? use.id with
  | some hops => exact orFail_eq_ending _
  | none => exact orFail_eq_ending _

theorem assign_eq_ending (use : Use) (value : Value) : Eval.assign use value m =
    ending m ((match m.depths.depth? use.id with
      | some hops => m.store.assignAt hops m.current use.token value
      | none => m.store.assign globals use.token value).map ((), ·)) := by
  simp only [Store.assignAt_eq_map, Store.assign_eq_map]
  rw [Eval.assign, targetOf, bind_assoc, get_bind_apply]
  cases m.depths.depth? use.id with
  | some hops => exact orFail_bind_defineIn_eq_ending _ _ _
  | none => exact orFail_bind_defineIn_eq_ending _ _ _

theorem assignNearest_eq_ending (name : Token) (value : Value) : assignNearest name value m =
    ending m ((m.store.assign m.current name value).map ((), ·)) := by
  rw [assignNearest, get_bind_apply, orFail_bind_defineIn_eq_ending, Store.assign_eq_map]

/-- A machine reads and writes variables by the operations on its store, directly if a depth is
recorded and else by a search. Where one of them fails, nothing at all is changed. -/
structure FollowsStore (m : Machine) (use : Use) (value : Value) : Prop where
  lookUp_eq : lookUp use m = ending m ((match m.depths.depth? use.id with
    | some hops => m.store.getAt hops m.current use.token
    | none => m.store.get globals use.token).map (·, m.store))
  assign_eq : Eval.assign use value m = ending m ((match m.depths.depth? use.id with
    | some hops => m.store.assignAt hops m.current use.token value
    | none => m.store.assign globals use.token value).map ((), ·))
  assignNearest_eq : assignNearest use.token value m =
    ending m ((m.store.assign m.current use.token value).map ((), ·))
  lookUp_fails : FailsUnchanged (lookUp use) m
  assign_fails : FailsUnchanged (Eval.assign use value) m
  assignNearest_fails : FailsUnchanged (assignNearest use.token value) m

theorem followsStore (m : Machine) (use : Use) (value : Value) : FollowsStore m use value where
  lookUp_eq := lookUp_eq_ending use
  assign_eq := assign_eq_ending use value
  assignNearest_eq := assignNearest_eq_ending use.token value
  lookUp_fails := failsUnchanged_of_eq_ending (lookUp_eq_ending use)
  assign_fails := failsUnchanged_of_eq_ending (assign_eq_ending use value)
  assignNearest_fails := failsUnchanged_of_eq_ending (assignNearest_eq_ending use.token value)

end Eval

namespace Store

/-- **Search and direct access agree.** From every frame of every store they reach the same bindings
of every name, and a write changes no other one. A machine with that store reads and writes
variables in no other way, and it is unchanged where that fails. -/
theorem access_agrees {s : Store} (hs : s.Built) {frame : FrameId} (hframe : frame < s.frames.size)
    (name : Token) : (∃ chain, s.Chain frame chain ∧ s.AccessAgrees frame chain name) ∧
      ∀ m : Machine, m.store = s → ∀ use value, Eval.FollowsStore m use value := by
  obtain ⟨chain, hchain⟩ := hs.forest.exists_chain hframe
  exact ⟨⟨chain, hchain, hchain.accessAgrees hs.forest name⟩, fun m _ => Eval.followsStore m⟩

/-- Two frames are inside the outermost one. There, and inside one of them, a name is bound. -/
def shared : Store :=
  let s := (empty.newFrame none).2.define 0 "x" (.boolean false)
  let s := ((s.newFrame (some 0)).2.newFrame (some 0)).2
  (s.newFrame (some 2)).2.define 3 "x" .nil

theorem built_shared : shared.Built := by
  have outermost : ((empty.newFrame none).2.define 0 "x" (.boolean false)).Built :=
    .define (.newFrame .empty) (by decide) _ _
  exact .define (.newInside (.newInside (.newInside outermost (by decide)) (by decide)) (by decide))
    (by decide) _ _

/-- A write by a search from the first of the inner frames is seen through the second one, and seen
directly from inside the one that hides it. -/
theorem access_agrees_shared :
    let x : Token := ⟨.identifier, "x", 1⟩
    shared.Built ∧ 1 < shared.frames.size ∧
    ((∃ chain, shared.Chain 1 chain ∧ shared.AccessAgrees 1 chain x) ∧
      ∀ m : Machine, m.store = shared → ∀ use value, Eval.FollowsStore m use value) ∧
    ∃ s, shared.assign 1 x (.boolean true) = .ok s ∧ s.get 2 x = .ok (.boolean true) ∧
      s.get 3 x = .ok .nil ∧ s.getAt 2 3 x = .ok (.boolean true) :=
  ⟨built_shared, by decide, access_agrees built_shared (by decide) _, _, rfl, rfl, rfl, rfl⟩

end Store

end Treewalk
