import Mathlib.Order.Nat
import Treewalk.Diagnostic
import Treewalk.Proofs.Scope.Outline

/-!
# The scope rules

What the scope rules say about a spot of a program: which scope a name belongs to there, and what
must not stand there. All of it is told by the entries of the outline before the spot and by what
the spot stands in.

## Main definitions

* `Declares` — a scope has a name
* `Nearest` — how many scopes out a name is declared
* `Breaches` — what stands at a spot breaks a rule
* `Stands`, `Violation` — the landmarks of a program at their spots, and those that break a rule

## Main results

* `Grows.declares_iff` — what stands in a scope declares nothing in the scopes around it
-/

namespace Treewalk

/-- The entry declares `name` in `scope`, the innermost one around it. -/
def Entry.DeclaresIn (e : Entry) (scope : Enclosure) (name : String) : Prop :=
  (scopesOf e.around).head? = some scope ∧
    ∃ token, e.landmark.declared? = some token ∧ token.lexeme = name

/-- A scope has a name, from the start or by one of the entries. -/
def Declares (before : List Entry) (scope : Enclosure) (name : String) : Prop :=
  scope.landmark.implicit? = some name ∨ ∃ e ∈ before, e.DeclaresIn scope name

/-- Counted from the innermost scope, `depth` is the number of the first one with the name. -/
structure Nearest (spot : Spot) (name : String) (depth : Nat) : Prop where
  declares : ∃ scope, (scopesOf spot.around)[depth]? = some scope ∧
    Declares spot.before scope name
  nearest : ∀ inner < depth, ∀ scope, (scopesOf spot.around)[inner]? = some scope →
    ¬Declares spot.before scope name

/-- The spot is in the initializer of a local variable, and this is the first declaration of its
name in its scope. -/
def InOwnInitializer (spot : Spot) (name : String) : Prop :=
  ∃ inner position token outer scope, spot.around = inner ++ ⟨position, .var token⟩ :: outer ∧
    token.lexeme = name ∧ (scopesOf outer).head? = some scope ∧
    ¬Declares (spot.before.take position) scope name

def OutsideFunction (spot : Spot) : Prop := ∀ x ∈ spot.around, x.landmark.isRoutine = false

/-- The innermost function around the spot is a method `init`. -/
def InInitializer (spot : Spot) : Prop :=
  ∃ position name, spot.around.find? (·.landmark.isRoutine) = some ⟨position, .method name⟩ ∧
    name.lexeme = "init"

def OutsideClass (spot : Spot) : Prop := ∀ x ∈ spot.around, x.landmark.isClassBody = false

/-- A use of `this` that belongs to no class. -/
def Stray (spot : Spot) (kind : OccurrenceKind) : Prop := kind = .this ∧ OutsideClass spot

/-- The innermost class around the spot has no superclass. -/
def InPlainClass (spot : Spot) : Prop :=
  ∃ position, spot.around.find? (·.landmark.isClassBody) = some ⟨position, .classBody none⟩

/-- What breaks the scope rules at a spot, and how that is reported. -/
inductive Breaches (spot : Spot) : Landmark → Diagnostic → Prop
  | redeclared {landmark : Landmark} {name : Token} {scope : Enclosure}
      (hname : landmark.declared? = some name) (hscope : (scopesOf spot.around).head? = some scope)
      (h : Declares spot.before scope name.lexeme) :
      Breaches spot landmark (.scope name .redeclared)
  | readInOwnInitializer {use : Use} (h : InOwnInitializer spot use.name) :
      Breaches spot (.use .variable use) (.scope use.token .readInOwnInitializer)
  | returnOutsideFunction {keyword : Token} {hasValue : Bool} (h : OutsideFunction spot) :
      Breaches spot (.return keyword hasValue) (.scope keyword .returnOutsideFunction)
  | valueFromInitializer {keyword : Token} (h : InInitializer spot) :
      Breaches spot (.return keyword true) (.scope keyword .valueFromInitializer)
  | thisOutsideClass {use : Use} (h : OutsideClass spot) :
      Breaches spot (.use .this use) (.scope use.token .thisOutsideClass)
  | superOutsideClass {use : Use} (h : OutsideClass spot) :
      Breaches spot (.use .super use) (.scope use.token .superOutsideClass)
  | superWithoutSuperclass {use : Use} (h : InPlainClass spot) :
      Breaches spot (.use .super use) (.scope use.token .superWithoutSuperclass)
  | selfInheritance {className : Token} {use : Use} (h : use.name = className.lexeme) :
      Breaches spot (.superclass className use) (.scope use.token .selfInheritance)

/-- A landmark of a program, with its position in the outline and its spot. -/
inductive Stands (program : List Stmt) : Nat → Spot → Landmark → Prop
  | mk {position : Nat} {e : Entry} (h : (outline program)[position]? = some e) :
      Stands program position ⟨(outline program).take position, e.around⟩ e.landmark

/-- What stands at a position of the outline breaks a rule. -/
def Violation (program : List Stmt) (position : Nat) (diagnostic : Diagnostic) : Prop :=
  ∃ spot landmark, Stands program position spot landmark ∧ Breaches spot landmark diagnostic

/-! ### Spots in order -/

namespace Spot

/-- What something stands in begins before it, and inner landmarks begin behind outer ones. -/
structure Ordered (spot : Spot) : Prop where
  entry_lt : ∀ e ∈ spot.before, ∀ x ∈ e.around, x.position < spot.before.length
  around_lt : ∀ x ∈ spot.around, x.position < spot.before.length
  around_sorted : spot.around.Pairwise fun x y => y.position < x.position

/-- The spot is in no initializer of a variable. -/
def Plain (spot : Spot) : Prop := ∀ x ∈ spot.around, x.landmark.isVar = false

variable {spot spot' inner : Spot} {landmark : Landmark}

theorem ordered_top : top.Ordered := ⟨by simp [top], by simp [top], .nil⟩

theorem plain_top : top.Plain := by simp [Plain, top]

@[simp] theorem length_before_add (spot : Spot) (landmark : Landmark) :
    (spot.add landmark).before.length = spot.before.length + 1 := by simp [add]

@[simp] theorem length_before_enter (spot : Spot) (landmark : Landmark) :
    (spot.enter landmark).before.length = spot.before.length + 1 := spot.length_before_add landmark

theorem Ordered.add (h : spot.Ordered) (landmark : Landmark) : (spot.add landmark).Ordered := by
  refine ⟨fun e he x hx => ?_, fun x hx => ?_, h.around_sorted⟩ <;> rw [length_before_add]
  · obtain he | he := List.mem_append.1 he
    · exact Nat.lt_succ_of_lt (h.entry_lt e he x hx)
    · obtain rfl := List.mem_singleton.1 he
      exact Nat.lt_succ_of_lt (h.around_lt x hx)
  · exact Nat.lt_succ_of_lt (h.around_lt x hx)

theorem Ordered.enter (h : spot.Ordered) (landmark : Landmark) : (spot.enter landmark).Ordered := by
  refine ⟨(h.add landmark).entry_lt, fun x hx => ?_, .cons h.around_lt h.around_sorted⟩
  obtain rfl | hx := List.mem_cons.1 hx
  · simp
  · exact (h.add landmark).around_lt x hx

/-- Behind a landmark the spot is in order if it is in order inside. -/
theorem Ordered.leave (hinner : inner.Ordered) (h : Grows (spot.enter landmark) inner) :
    (spot.leave inner).Ordered := by
  have haround : inner.around = ⟨spot.before.length, landmark⟩ :: spot.around := h.around_eq
  refine ⟨hinner.entry_lt, fun x hx => ?_, ?_⟩
  · exact hinner.around_lt x (haround ▸ List.mem_cons_of_mem _ hx)
  · have hsorted := hinner.around_sorted
    rw [haround] at hsorted
    exact (List.pairwise_cons.1 hsorted).2

theorem Plain.enter (h : spot.Plain) (hlandmark : landmark.isVar = false) :
    (spot.enter landmark).Plain :=
  List.forall_mem_cons.2 ⟨hlandmark, h⟩

theorem Plain.grows (hplain : spot.Plain) (h : Grows spot spot') : spot'.Plain := by
  rw [Plain, h.around_eq]
  exact hplain

end Spot

/-! ### What a scope declares -/

section Declares

variable {spot spot' inner : Spot} {landmark : Landmark} {scope : Enclosure} {name : String}

theorem declares_append (before new : List Entry) (scope : Enclosure) (name : String) :
    Declares (before ++ new) scope name ↔
      Declares before scope name ∨ ∃ e ∈ new, e.DeclaresIn scope name := by
  simp only [Declares, List.mem_append, or_and_right, exists_or, or_assoc]

theorem declares_add (spot : Spot) (landmark : Landmark) (scope : Enclosure) (name : String) :
    Declares (spot.add landmark).before scope name ↔
      Declares spot.before scope name ∨
        (⟨landmark, spot.around⟩ : Entry).DeclaresIn scope name := by
  simp [Spot.add, declares_append]

/-- A landmark that declares no name leaves all scopes as they are. -/
theorem declares_add_of_declared?_eq_none (h : landmark.declared? = none) :
    Declares (spot.add landmark).before scope name ↔ Declares spot.before scope name := by
  simp [declares_add, Entry.DeclaresIn, h]

theorem declares_addAll_of_declared?_eq_none {landmarks : List Landmark}
    (h : ∀ l ∈ landmarks, l.declared? = none) :
    Declares (spot.addAll landmarks).before scope name ↔ Declares spot.before scope name := by
  induction landmarks generalizing spot with
  | nil => rfl
  | cons landmark rest ih =>
    obtain ⟨hlandmark, hrest⟩ := List.forall_mem_cons.1 h
    exact (ih hrest).trans (declares_add_of_declared?_eq_none hlandmark)

/-- At its beginning a scope has no name but the one it has from the start. -/
theorem declares_enter (h : spot.Ordered) (landmark : Landmark) (name : String) :
    Declares (spot.enter landmark).before ⟨spot.before.length, landmark⟩ name ↔
      landmark.implicit? = some name := by
  refine ⟨fun hdeclares => hdeclares.resolve_right ?_, .inl⟩
  rintro ⟨e, he, hscope, -⟩
  have hmem := mem_of_mem_scopesOf (List.mem_of_head? hscope)
  obtain he | he := List.mem_append.1 he
  · exact absurd (h.entry_lt e he _ hmem) (Nat.lt_irrefl _)
  · obtain rfl := List.mem_singleton.1 he
    exact absurd (h.around_lt _ hmem) (Nat.lt_irrefl _)

/-- What stands in a scope declares nothing in the scopes around it. -/
theorem Grows.declares_iff (h : Grows (spot.enter landmark) inner)
    (hopens : landmark.opensScope = true) (hscope : scope.position < spot.before.length) :
    Declares inner.before scope name ↔ Declares (spot.add landmark).before scope name := by
  obtain ⟨new, hnew, hinside⟩ := h.exists_new
  rw [hnew, declares_append]
  refine ⟨fun hdeclares => hdeclares.resolve_right ?_, .inl⟩
  rintro ⟨e, he, hhead, -⟩
  obtain ⟨within, haround, hwithin⟩ := hinside e he
  -- the innermost scope around the entry is this one or stands in it
  have hposition : spot.before.length ≤ scope.position := by
    rw [haround, scopesOf_append, Spot.enter, scopesOf_cons_of_opensScope hopens] at hhead
    cases hscopes : scopesOf within with
    | nil =>
      rw [hscopes] at hhead
      obtain rfl := Option.some.inj hhead
      exact Nat.le_refl _
    | cons x rest =>
      rw [hscopes] at hhead
      obtain rfl : x = scope := Option.some.inj hhead
      have hx := hwithin x (mem_of_mem_scopesOf (hscopes ▸ .head _))
      rw [Spot.length_before_enter] at hx
      exact Nat.le_of_succ_le hx
  exact absurd hscope (Nat.not_lt.2 hposition)

/-- Behind the declaration of a name, the innermost scope has it, and no scope has another name than
before. -/
theorem declares_add_of_declared? {token : Token} (h : landmark.declared? = some token) :
    Declares (spot.add landmark).before scope name ↔ Declares spot.before scope name ∨
      (scopesOf spot.around).head? = some scope ∧ token.lexeme = name := by
  simp [declares_add, Entry.DeclaresIn, h]

end Declares

/-! ### The nearest scope -/

section Nearest

variable {spot : Spot} {name : String}

theorem Nearest.unique {depth depth' : Nat} (h : Nearest spot name depth)
    (h' : Nearest spot name depth') : depth = depth' := by
  obtain ⟨scope, hscope, hdeclares⟩ := h.declares
  obtain ⟨scope', hscope', hdeclares'⟩ := h'.declares
  refine Nat.le_antisymm (Nat.not_lt.1 fun hlt => ?_) (Nat.not_lt.1 fun hlt => ?_)
  · exact h.nearest depth' hlt scope' hscope' hdeclares'
  · exact h'.nearest depth hlt scope hscope hdeclares

/-- A name that some scope declares is declared by a nearest one. -/
theorem exists_nearest_iff : (∃ depth, Nearest spot name depth) ↔
    ∃ scope ∈ scopesOf spot.around, Declares spot.before scope name := by
  classical
  constructor
  · rintro ⟨depth, ⟨scope, hscope, hdeclares⟩, -⟩
    exact ⟨scope, List.mem_of_getElem? hscope, hdeclares⟩
  · rintro ⟨scope, hscope, hdeclares⟩
    have hexists : ∃ depth : Nat, ∃ scope, (scopesOf spot.around)[depth]? = some scope ∧
        Declares spot.before scope name := by
      obtain ⟨depth, hdepth⟩ := List.mem_iff_getElem?.1 hscope
      exact ⟨depth, scope, hdepth, hdeclares⟩
    exact ⟨Nat.find hexists, Nat.find_spec hexists, fun inner hinner scope' hscope' hdeclares' =>
      Nat.find_min hexists hinner ⟨scope', hscope', hdeclares'⟩⟩

end Nearest

/-! ### Functions and classes -/

section Enter

variable {spot : Spot} {landmark : Landmark}

theorem outsideFunction_enter : OutsideFunction (spot.enter landmark) ↔
    landmark.isRoutine = false ∧ OutsideFunction spot :=
  List.forall_mem_cons

theorem outsideClass_enter : OutsideClass (spot.enter landmark) ↔
    landmark.isClassBody = false ∧ OutsideClass spot :=
  List.forall_mem_cons

theorem inInitializer_enter (h : landmark.isRoutine = false) :
    InInitializer (spot.enter landmark) ↔ InInitializer spot := by
  simp [InInitializer, Spot.enter, h]

theorem inInitializer_enter_of_isRoutine (h : landmark.isRoutine = true) :
    InInitializer (spot.enter landmark) ↔
      ∃ name, landmark = .method name ∧ name.lexeme = "init" := by
  simp [InInitializer, Spot.enter, h, and_assoc]

theorem inPlainClass_enter (h : landmark.isClassBody = false) :
    InPlainClass (spot.enter landmark) ↔ InPlainClass spot := by
  simp [InPlainClass, Spot.enter, h]

theorem inPlainClass_enter_classBody (superclass : Option Use) :
    InPlainClass (spot.enter (.classBody superclass)) ↔ superclass = none := by
  simp [InPlainClass, Spot.enter, Landmark.isClassBody]

end Enter

/-! ### Initializers -/

section InOwnInitializer

variable {spot spot' : Spot} {name : String}

theorem not_inOwnInitializer (h : spot.Plain) : ¬InOwnInitializer spot name := by
  rintro ⟨inner, position, token, outer, scope, haround, -⟩
  have hmem : ⟨position, .var token⟩ ∈ spot.around := by simp [haround]
  exact Bool.noConfusion (h _ hmem)

/-- Only what stands before an initializer counts there. -/
theorem inOwnInitializer_congr (haround : spot'.around = spot.around)
    (hbefore : spot.before <+: spot'.before) (hordered : spot.Ordered) :
    InOwnInitializer spot' name ↔ InOwnInitializer spot name := by
  obtain ⟨new, hnew⟩ := hbefore
  unfold InOwnInitializer
  rw [haround]
  refine exists₅_congr fun inner position token outer scope => and_congr_right fun hsplit => ?_
  have hlt : position < spot.before.length :=
    hordered.around_lt ⟨position, .var token⟩ (by simp [hsplit])
  rw [← hnew, List.take_append_of_le_length (Nat.le_of_lt hlt)]

/-- In the initializer of a variable, its name cannot be read if it is local and new in its
scope. -/
theorem inOwnInitializer_enter_var (h : spot.Plain) (token : Token) :
    InOwnInitializer (spot.enter (.var token)) name ↔ token.lexeme = name ∧
      ∃ scope, (scopesOf spot.around).head? = some scope ∧ ¬Declares spot.before scope name := by
  have htake : (spot.enter (.var token)).before.take spot.before.length = spot.before := by
    simp [Spot.enter, Spot.add]
  constructor
  · rintro ⟨inner, position, token', outer, scope, haround, hname, hhead, hnew⟩
    cases inner with
    | nil =>
      obtain ⟨hx, rfl⟩ := List.cons.inj haround
      obtain ⟨rfl, hvar⟩ := Enclosure.mk.inj hx
      obtain rfl := Landmark.var.inj hvar
      exact ⟨hname, scope, hhead, htake ▸ hnew⟩
    | cons x inner =>
      have hmem : ⟨position, .var token'⟩ ∈ spot.around := by simp [(List.cons.inj haround).2]
      exact Bool.noConfusion (h _ hmem)
  · rintro ⟨hname, scope, hhead, hnew⟩
    exact ⟨[], _, token, spot.around, scope, rfl, hname, hhead, htake.symm ▸ hnew⟩

end InOwnInitializer

/-! ### Rules for each landmark -/

section Breaches

variable {spot : Spot} {landmark : Landmark} {diagnostic : Diagnostic}

/-- A declaration is wrong only if the name is there already. -/
theorem breaches_iff_of_declared? {token : Token} (h : landmark.declared? = some token) :
    Breaches spot landmark diagnostic ↔ diagnostic = .scope token .redeclared ∧
      ∃ scope, (scopesOf spot.around).head? = some scope ∧
        Declares spot.before scope token.lexeme := by
  constructor
  · rintro (⟨hname, hscope, hdeclares⟩ | _ | _ | _ | _ | _ | _ | _)
    · obtain rfl := Option.some.inj (h.symm.trans hname)
      exact ⟨rfl, _, hscope, hdeclares⟩
    all_goals cases h
  · rintro ⟨rfl, scope, hscope, hdeclares⟩
    exact .redeclared h hscope hdeclares

theorem breaches_return_iff {keyword : Token} {hasValue : Bool} :
    Breaches spot (.return keyword hasValue) diagnostic ↔
      OutsideFunction spot ∧ .scope keyword .returnOutsideFunction = diagnostic ∨
        (hasValue = true ∧ InInitializer spot) ∧
          .scope keyword .valueFromInitializer = diagnostic := by
  constructor
  · intro h
    cases h with
    | redeclared hname => cases hname
    | returnOutsideFunction houtside => exact .inl ⟨houtside, rfl⟩
    | valueFromInitializer hinside => exact .inr ⟨⟨rfl, hinside⟩, rfl⟩
  · rintro (⟨houtside, rfl⟩ | ⟨⟨rfl, hinside⟩, rfl⟩)
    · exact .returnOutsideFunction houtside
    · exact .valueFromInitializer hinside

variable {use : Use}

theorem breaches_variable_iff : Breaches spot (.use .variable use) diagnostic ↔
    InOwnInitializer spot use.name ∧ .scope use.token .readInOwnInitializer = diagnostic := by
  constructor
  · intro h
    cases h with
    | redeclared hname => cases hname
    | readInOwnInitializer hinitializer => exact ⟨hinitializer, rfl⟩
  · rintro ⟨hinitializer, rfl⟩
    exact .readInOwnInitializer hinitializer

theorem not_breaches_assign : ¬Breaches spot (.use .assign use) diagnostic := by
  intro h
  cases h with
  | redeclared hname => cases hname

theorem breaches_this_iff : Breaches spot (.use .this use) diagnostic ↔
    OutsideClass spot ∧ .scope use.token .thisOutsideClass = diagnostic := by
  constructor
  · intro h
    cases h with
    | redeclared hname => cases hname
    | thisOutsideClass houtside => exact ⟨houtside, rfl⟩
  · rintro ⟨houtside, rfl⟩
    exact .thisOutsideClass houtside

theorem breaches_super_iff : Breaches spot (.use .super use) diagnostic ↔
    OutsideClass spot ∧ .scope use.token .superOutsideClass = diagnostic ∨
      InPlainClass spot ∧ .scope use.token .superWithoutSuperclass = diagnostic := by
  constructor
  · intro h
    cases h with
    | redeclared hname => cases hname
    | superOutsideClass houtside => exact .inl ⟨houtside, rfl⟩
    | superWithoutSuperclass hplain => exact .inr ⟨hplain, rfl⟩
  · rintro (⟨houtside, rfl⟩ | ⟨hplain, rfl⟩)
    · exact .superOutsideClass houtside
    · exact .superWithoutSuperclass hplain

theorem breaches_superclass_iff {className : Token} :
    Breaches spot (.superclass className use) diagnostic ↔
      use.name = className.lexeme ∧ .scope use.token .selfInheritance = diagnostic := by
  constructor
  · intro h
    cases h with
    | redeclared hname => cases hname
    | selfInheritance hself => exact ⟨hself, rfl⟩
  · rintro ⟨hself, rfl⟩
    exact .selfInheritance hself

end Breaches

end Treewalk
