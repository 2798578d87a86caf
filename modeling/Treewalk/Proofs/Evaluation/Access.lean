import Treewalk.Proofs.Evaluation.Runs

/-!
# Access to variables

The machines of a pair stand at a place if the frames from the current one outwards are those of the
scopes around it. Then a use with an entry finds the frame of its scope, and a use that reads a name
finds it bound there; only a use without an entry can fail.

## Main definitions

* `Pair.At` — where in the program the machines of a pair stand

## Main results

* `Mirrors.declare`, `Mirrors.define`, `Mirrors.newFrame` — the frames at other places
* `Linked.target` — the frame of the scope that a use belongs to
* `Runs.lookUp`, `Runs.assign` — reading and writing in step
-/

namespace Treewalk

open Eval

variable {R : Place → Moment → Prop} {S : Setting} {p p' : Pair}

/-! ### Places -/

namespace Mirrors

variable {s : Store} {marked : FrameId → Bool} {site : Site} {marks : List Bool}
  {frames : List FrameId} {frame : FrameId}

/-- A declared name need not be bound. -/
theorem declare (h : Mirrors s marked site.scopes marks frames frame) (name : Token) :
    Mirrors s marked (site.declare name).2.scopes marks frames frame := by
  obtain ⟨scopes, routine, classContext⟩ := site
  cases h with
  | globals => exact .globals
  | @enter scope _ _ _ _ _ _ hlt hmark hbound houter h =>
    have hhead := Mirrors.enter hlt hmark hbound houter h
    unfold Site.declare
    dsimp only
    split
    · exact hhead
    · refine hhead.congr_head fun other hother => hbound other ?_
      rw [NameMap.get?_set] at hother
      split at hother
      · simp at hother
      · exact hother

/-- A defined name must be bound. -/
theorem define (h : Mirrors s marked site.scopes marks frames frame) {name : Token}
    (hname : (s.local? frame name.lexeme).isSome) :
    Mirrors s marked (site.define name).scopes marks frames frame := by
  obtain ⟨scopes, routine, classContext⟩ := site
  cases h with
  | globals => exact .globals
  | enter hlt hmark hbound houter h =>
    refine (Mirrors.enter hlt hmark hbound houter h).congr_head fun other hother => ?_
    rw [NameMap.get?_set] at hother
    split at hother
    · next heq => exact heq ▸ hname
    · exact hbound other hother

theorem introduce (h : Mirrors s marked site.scopes marks frames frame) {name : Token}
    (hname : (s.local? frame name.lexeme).isSome) :
    Mirrors s marked (site.introduce name).2.scopes marks frames frame :=
  (h.declare name).define hname

theorem introduceAll {names : List Token} (h : Mirrors s marked site.scopes marks frames frame)
    (hnames : ∀ name ∈ names, (s.local? frame name.lexeme).isSome) :
    Mirrors s marked (site.introduceAll names).2.scopes marks frames frame := by
  induction names generalizing site with
  | nil => exact h
  | cons name rest ih =>
    exact ih (h.introduce (hnames name (.head _))) fun other hother => hnames other (.tail _ hother)

/-- The current frame is one of the store. -/
theorem lt_size (h : Mirrors s marked site.scopes marks frames frame)
    (hglobals : Treewalk.globals < s.frames.size) : frame < s.frames.size := by
  generalize site.scopes = scopes at h
  cases h with
  | globals => exact hglobals
  | enter hlt => exact hlt

/-- At the top level stand the globals, in which no name is replaced. -/
theorem marked_eq (h : Mirrors s marked site.scopes marks frames frame)
    (hglobals : marked Treewalk.globals = false) : marked frame = marks.headD false := by
  generalize site.scopes = scopes at h
  cases h with
  | globals => exact hglobals
  | enter hlt hmark => exact hmark

end Mirrors

/-- The machines of a pair stand at a place: the frames around it are those from the current frame
outwards. -/
structure Pair.At (R : Place → Moment → Prop) (S : Setting) (p : Pair) (place : Place)
    (marks : List Bool) : Prop where
  sound : p.Sound R S
  text_eq : place.text = p.text
  mirrors : Mirrors p.left.store p.marked place.site.scopes marks place.frames p.left.current

namespace Pair.At

variable {place : Place} {marks : List Bool}

theorem kept (h : p.At R S place marks) (hk : p.Kept R S p') : p'.At R S place marks :=
  ⟨hk.sound, h.text_eq.trans hk.text_eq.symm,
    hk.current_eq ▸ h.mirrors.mono hk.extends_.store hk.extends_.marked_eq⟩

theorem current_lt (h : p.At R S place marks) : p.left.current < p.left.store.frames.size :=
  h.mirrors.lt_size h.sound.globals_lt

theorem marked_current (h : p.At R S place marks) :
    p.marked p.left.current = marks.headD false :=
  h.mirrors.marked_eq h.sound.marked_globals

end Pair.At

/-! ### The frame of a use -/

theorem Site.exists_scope_of_depth? {site : Site} {name : String} {depth : Nat}
    (h : site.depth? name = some depth) :
    ∃ scope, site.scopes[depth]? = some scope ∧ scope.contains name := by
  obtain ⟨hlt, hname, -⟩ := List.findIdx?_eq_some_iff_getElem.1 h
  exact ⟨_, List.getElem?_eq_getElem hlt, hname⟩

namespace Linked

variable {place : Place} {marks : List Bool} {kind : OccurrenceKind} {use use' : Use}
  {depth origin : Nat}

theorem right_depth?_eq (h : p.linked S origin kind place.site marks use use') :
    p.right.depths.depth? use'.id = p.left.depths.depth? use.id :=
  h.right.2.trans h.left.2.symm

/-- A use with an entry belongs to the scope, and to the frame, that its entry tells. -/
theorem target (h : p.linked S origin kind place.site marks use use') (hat : p.At R S place marks)
    (hdepth : p.left.depths.depth? use.id = some depth) :
    ∃ target, place.frames[depth]? = some target ∧ target < p.left.store.frames.size ∧
      p.left.store.outward? depth p.left.current = some target ∧
      p.right.store.outward? depth p.right.current = some (S.frame target) ∧
      S.Spells (p.marked target) use.name use'.name ∧
      (kind ≠ .assign → (p.left.store.local? target use.name).isSome) := by
  have hsite : place.site.depth? use.name = some depth := h.left.2.symm.trans hdepth
  obtain ⟨scope, hscope, -⟩ := Site.exists_scope_of_depth? hsite
  obtain ⟨target, hframe, houtward, hlt, hmarked, hbound⟩ := hat.mirrors.at_depth hscope
  refine ⟨target, hframe, hlt, houtward, ?_, ?_, fun hkind => ?_⟩
  · rw [hat.sound.current_eq, hat.sound.outward?_eq, houtward, Option.map_some]
  · have := h.spells
    rw [Site.isRespelled, hsite] at this
    exact hmarked ▸ this
  · obtain ⟨scope', hscope', hname⟩ := h.defines hkind depth hsite
    obtain rfl : scope = scope' := Option.some.inj (hscope.symm.trans hscope')
    exact hbound _ hname

/-- A use without an entry has one spelling. -/
theorem name_eq (h : p.linked S origin kind place.site marks use use')
    (hdepth : p.left.depths.depth? use.id = none) : use'.name = use.name := by
  have := h.spells
  rw [Site.isRespelled, h.left.2.symm.trans hdepth] at this
  exact this.eq

end Linked

/-! ### Reading and writing -/

/-- The name of a use without an entry is looked up among the globals only. -/
theorem Store.get_globals (s : Store) (hlt : globals < s.frames.size)
    (h : s.enclosing? globals = none) (name : Token) :
    s.get globals name = match s.local? globals name.lexeme with
      | some value => .ok value
      | none => .error (undefinedVariable name) := by
  rw [get, s.holder?_globals hlt h]
  cases hl : s.local? globals name.lexeme <;> simp [hl]

theorem Store.target_globals (s : Store) (hlt : globals < s.frames.size)
    (h : s.enclosing? globals = none) (name : Token) :
    s.target globals name =
      if (s.local? globals name.lexeme).isSome then .ok globals
      else .error (undefinedVariable name) := by
  rw [target, s.holder?_globals hlt h]
  cases s.local? globals name.lexeme <;> rfl

namespace Runs

variable {α β : Type} {Q : Pair → α → β → Prop} {place : Place} {marks : List Bool}
  {kind : OccurrenceKind} {use use' : Use}

/-- A use without an entry, of a name that the globals of the first machine do not bind. -/
theorem undefinedVariable (hp : p.Sound R S)
    (hu : p.linked S place.origin kind place.site marks use use')
    (hh : Happens R place (.access kind use p.left))
    (hdepth : p.left.depths.depth? use.id = none)
    (hname : p.left.store.local? globals use.name = none) :
    Runs R S p (throw (.fault (undefinedVariable use.token)) : Eval α)
      (throw (.fault (Treewalk.undefinedVariable use'.token)) : Eval β) Q := by
  have heq : Treewalk.undefinedVariable use'.token =
      .runtime (use.token.line + S.lines place.origin) (.undefinedVariable use.name) := by
    rw [Treewalk.undefinedVariable, hu.line_eq]
    exact congrArg _ (congrArg _ (hu.name_eq hdepth))
  rw [heq]
  exact .throw hp (.fault hh (.access hdepth hname))

/-- The second machine binds a name that the first one does not bind yet. -/
theorem stale {halt : Halt} {c' : Eval β} {name : String} (hname : S.stale name)
    (h : p.left.store.local? globals name = none) : Runs R S p (throw halt : Eval α) c' Q :=
  throw_of_not_settled fun hsettled => by simpa [h] using hsettled name hname

theorem lookUp (hat : p.At R S place marks)
    (hu : p.linked S place.origin kind place.site marks use use')
    (hkind : kind ≠ .assign) (hh : Happens R place (.access kind use p.left)) :
    Runs R S p (lookUp use) (lookUp use') (Value.Twin R S) := by
  have hp := hat.sound
  refine .get_bind ?_
  rw [hu.right_depth?_eq]
  cases hdepth : p.left.depths.depth? use.id with
  | some depth =>
    obtain ⟨target, -, -, hleft, hright, hspells, hbound⟩ := hu.target hat hdepth
    obtain ⟨v, hv⟩ := Option.isSome_iff_exists.1 (hbound hkind)
    obtain ⟨v', hv', htwin⟩ := hp.exists_local? hu.used hspells hv
    unfold Use.name at hv hv'
    simp only [Store.getAt, hleft, hright, Option.bind_some, hv, hv']
    exact .pure hp htwin
  | none =>
    have hlocal := hp.locals globals _ _ hu.used (hp.marked_globals ▸ S.spells_refl use.name)
    have hname : use'.token.lexeme = use.name := hu.name_eq hdepth
    rw [S.frame_globals] at hlocal
    simp only [Store.get_globals _ hp.globals_lt hp.enclosing?_globals,
      Store.get_globals _ hp.globals_lt_right hp.enclosing?_globals_right, hname]
    change Runs R S p (orFail (match p.left.store.local? globals use.name with
      | some value => .ok value
      | none => .error (Treewalk.undefinedVariable use.token))) _ _
    generalize hv : p.left.store.local? globals use.name = o at hlocal
    generalize p.right.store.local? globals use.name = o' at hlocal
    cases hlocal with
    | bound htwin => exact .pure hp htwin
    | unbound => exact undefinedVariable hp hu hh hdepth hv
    | stale _ hstale => exact stale hstale hv

/-- An assignment to a name is one to a frame in which the name is not reserved. -/
theorem targetOf (hat : p.At R S place marks)
    (hu : p.linked S place.origin kind place.site marks use use')
    (hh : Happens R place (.access kind use p.left)) :
    Runs R S p (targetOf use) (targetOf use') fun p' target target' =>
      target' = S.frame target ∧ target < p'.left.store.frames.size ∧
        S.Spells (p'.marked target) use.name use'.name := by
  have hp := hat.sound
  refine .get_bind ?_
  rw [hu.right_depth?_eq]
  cases hdepth : p.left.depths.depth? use.id with
  | some depth =>
    obtain ⟨target, -, hlt, hleft, hright, hspells, -⟩ := hu.target hat hdepth
    simp only [Store.targetAt, hleft, hright]
    exact .pure hp ⟨rfl, hlt, hspells⟩
  | none =>
    have hlocal := hp.locals globals _ _ hu.used (hp.marked_globals ▸ S.spells_refl use.name)
    have hname : use'.token.lexeme = use.name := hu.name_eq hdepth
    rw [S.frame_globals] at hlocal
    simp only [Store.target_globals _ hp.globals_lt hp.enclosing?_globals,
      Store.target_globals _ hp.globals_lt_right hp.enclosing?_globals_right, hname]
    change Runs R S p (orFail (if (p.left.store.local? globals use.name).isSome then _ else _)) _ _
    generalize hv : p.left.store.local? globals use.name = o at hlocal
    generalize p.right.store.local? globals use.name = o' at hlocal
    cases hlocal with
    | bound htwin =>
      refine .pure hp ⟨S.frame_globals.symm, hp.globals_lt, ?_⟩
      rw [hp.marked_globals, hu.name_eq hdepth]
      exact S.spells_refl _
    | unbound => exact undefinedVariable hp hu hh hdepth hv
    | stale _ hstale => exact stale hstale hv

theorem defineIn {frame frame' : FrameId} {name name' : String} {v v' : Value} (hp : p.Sound R S)
    (hreserved : IsReserved name → p.left.store.local? frame name = none)
    (hframe' : frame' = S.frame frame) (hframe : frame < p.left.store.frames.size)
    (hname : S.Spells (p.marked frame) name name') (hv : Value.Twin R S p v v') :
    Runs R S p (defineIn frame name v) (defineIn frame' name' v') fun p' _ _ =>
      p' = p.define frame frame' name name' v v' := by
  subst hframe'
  have hext := p.extends_define hreserved (S.frame frame) name' v v'
  exact .modifyGet _ (hp.define hreserved hframe hname (hv.mono hext)) hext rfl rfl rfl rfl rfl rfl
    (.refl _) rfl

theorem assign {v v' : Value} (hat : p.At R S place marks)
    (hu : p.linked S place.origin .assign place.site marks use use')
    (hh : Happens R place (.access .assign use p.left)) (hv : Value.Twin R S p v v') :
    Runs R S p (assign use v) (assign use' v') fun _ _ _ => True := by
  refine (targetOf hat hu hh).bind ?_
  rintro p' target _ hk - ⟨rfl, hlt, hspells⟩
  have hnot := hu.names.not_reserved rfl
  refine (defineIn hk.sound (fun hreserved => ?_) rfl hlt hspells (hv.mono hk.extends_)).mono
    fun _ _ _ _ _ => trivial
  exact absurd hreserved (not_or.2 hnot)

end Runs

end Treewalk
