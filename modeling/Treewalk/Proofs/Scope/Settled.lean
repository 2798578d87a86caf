import Treewalk.Proofs.Scope.Linking

/-!
# Names that are being initialized

Between statements all names of the scopes around a place are defined. Scope analysis marks a name
as undefined only while it walks the initializer of its variable, and then it is one name of the
innermost scope.

## Main definitions

* `Site.Settled` — no name of the scopes around a place is being initialized

## Main results

* `Site.Settled.analyse` — the place behind a statement
* `Site.Settled.declare` — the name that is being initialized
-/

namespace Treewalk

/-- All names of the scopes around the place are defined. -/
def Site.Settled (site : Site) : Prop :=
  ∀ scope ∈ site.scopes, ∀ name, scope.get? name ≠ some false

namespace Site.Settled

variable {site : Site}

theorem top : Site.top.Settled := nofun

theorem enter (h : site.Settled) {scope : Scope} (hscope : ∀ name, scope.get? name ≠ some false) :
    (site.enter scope).Settled := by
  intro scope' hmem
  obtain rfl | hmem := List.mem_cons.1 hmem
  · exact hscope
  · exact h scope' hmem

theorem enter_empty (h : site.Settled) : (site.enter .empty).Settled := h.enter fun _ => nofun

theorem enter_single (h : site.Settled) (key : String) : (site.enter (.single key)).Settled := by
  refine h.enter fun name => ?_
  rw [Scope.single, NameMap.get?_set]
  split <;> simp

theorem introduce (h : site.Settled) (name : Token) : (site.introduce name).2.Settled := by
  obtain ⟨scopes, routine, classContext⟩ := site
  cases scopes with
  | nil => exact h
  | cons scope outer =>
    obtain ⟨scope', hscope', hself, hother⟩ := introduce_cons scope outer routine classContext name
    rw [hscope']
    intro scope'' hmem key
    obtain rfl | hmem := List.mem_cons.1 hmem
    · by_cases hkey : key = name.lexeme
      · rw [hkey, hself]
        nofun
      · rw [hother key hkey]
        exact h scope List.mem_cons_self key
    · exact h scope'' (List.mem_cons_of_mem _ hmem) key

theorem introduceAll (h : site.Settled) (names : List Token) :
    (site.introduceAll names).2.Settled := by
  induction names generalizing site with
  | nil => exact h
  | cons name rest ih => exact ih (h.introduce name)

theorem body (h : site.Settled) (context : RoutineContext) (parameters : List Token) :
    (site.body context parameters).Settled := by
  have hinner : ({ site with routine := context }.enter .empty).Settled := enter_empty h
  exact hinner.introduceAll parameters

theorem aroundMethods (h : site.Settled) (superclass : Option Use) :
    (site.aroundMethods superclass).Settled := by
  cases superclass with
  | none => exact h
  | some use =>
    have hsubclass : ({ site with classContext := .subclass } : Site).Settled := h
    exact hsubclass.enter_single "super"

/-- While a variable is initialized, only its name is undefined. -/
theorem declare (h : site.Settled) {name : Token} {key : String} {depth : Nat} {scope : Scope}
    (hscope : (site.declare name).2.scopes[depth]? = some scope)
    (hkey : scope.get? key = some false) : depth = 0 ∧ name.lexeme = key := by
  obtain ⟨scopes, routine, classContext⟩ := site
  cases scopes with
  | nil => cases hscope
  | cons first outer =>
    unfold Site.declare at hscope
    dsimp only at hscope
    split at hscope
    · exact absurd hkey (h scope (List.mem_of_getElem? hscope) key)
    · cases depth with
      | zero =>
        obtain rfl := Option.some.inj hscope
        refine ⟨rfl, by_contra fun hne => ?_⟩
        rw [NameMap.get?_set_of_ne _ (Ne.symm hne)] at hkey
        exact h first List.mem_cons_self key hkey
      | succ depth =>
        have hmem : scope ∈ outer := List.mem_of_getElem? hscope
        exact absurd hkey (h scope (List.mem_cons_of_mem _ hmem) key)

/-- The place behind a statement. -/
theorem analyse {site : Site} (h : site.Settled) (s : Stmt) : (s.analyse site).2.Settled := by
  match s with
  | .expression _ | .print _ | .block _ | .return _ none | .return _ (some _) => exact h
  | .var name none | .var name (some _) => exact h.introduce name
  | .if _ branch none | .while _ branch => exact h.analyse branch
  | .if _ branch (some other) => exact (h.analyse branch).analyse other
  | .function routine => exact h.introduce routine.name
  | .class name _ _ => exact h.introduce name

end Site.Settled

end Treewalk
