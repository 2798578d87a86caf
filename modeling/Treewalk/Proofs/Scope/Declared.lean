import Treewalk.Proofs.Grammar.Named
import Treewalk.Proofs.Scope.Linked
import Treewalk.Proofs.Scope.Placed

/-!
# The names a scope declares

A statement that is no declaration leaves the scopes around it as they are. If nothing is wrong with
the statements of a scope, they declare different names.

## Main results

* `Stmt.analyse_of_declares_eq_false` — the place behind a statement that is no declaration
* `Stmt.fixedName?_ne` — a variable and a routine or class of one scope have different names
-/

namespace Treewalk

/-- The name of the variable that a statement declares. -/
def Stmt.variableName? : Stmt → Option String
  | .var name _ => some name.lexeme
  | _ => none

/-- The name of the function or class that a statement declares. -/
def Stmt.fixedName? : Stmt → Option String
  | .function routine => some routine.name.lexeme
  | .class name _ _ => some name.lexeme
  | _ => none

/-- The names of the variables that a list of statements declares in its own scope. -/
def Stmt.variableNames (ss : List Stmt) : List String := ss.filterMap Stmt.variableName?

theorem Stmt.fixedName?_of_declares_eq_false {s : Stmt} (h : s.declares = false) :
    s.fixedName? = none := by
  cases s <;> first | rfl | cases h

variable {P : String → Prop} {site : Site}

theorem Stmt.Named.variableName? {s : Stmt} (h : s.Named P) {name : String}
    (hname : s.variableName? = some name) : P name := by
  cases s with
  | var t initializer =>
    obtain rfl : t.lexeme = name := Option.some.inj hname
    cases initializer with
    | none => exact h
    | some value => exact h.1
  | _ => cases hname

theorem Stmt.NamedAll.variableNames {ss : List Stmt} (h : Stmt.NamedAll P ss) {name : String}
    (hname : name ∈ Stmt.variableNames ss) : P name := by
  induction ss with
  | nil => cases hname
  | cons s rest ih =>
    obtain ⟨s', hs', hvariable⟩ := List.mem_filterMap.1 hname
    obtain rfl | hrest := List.mem_cons.1 hs'
    · exact h.1.variableName? hvariable
    · exact ih h.2 (List.mem_filterMap.2 ⟨s', hrest, hvariable⟩)

/-- Behind a statement that is no declaration the place is the same as before it. -/
theorem Stmt.analyse_of_declares_eq_false {s : Stmt} (h : s.Named P) (hs : s.declares = false)
    (site : Site) : (s.analyse site).2 = site := by
  match s with
  | .expression _ | .print _ | .block _ | .return _ none | .return _ (some _) => rfl
  | .var _ _ | .function _ | .class _ _ _ => cases hs
  | .if _ branch none => exact analyse_of_declares_eq_false (s := branch) h.2.1 h.2.2 site
  | .if _ branch (some other) =>
    have hbranch := analyse_of_declares_eq_false (s := branch) h.2.1.1 h.2.1.2 site
    simp only [analyse, hbranch]
    exact analyse_of_declares_eq_false (s := other) h.2.2.1 h.2.2.2 site
  | .while _ body => exact analyse_of_declares_eq_false (s := body) h.2.1 h.2.2 site

/-! ### Names of the innermost scope -/

/-- Whether a name is declared in the innermost scope. -/
def Site.declares (site : Site) (name : String) : Bool :=
  site.scopes.head?.any (·.contains name)

theorem Site.declares_cons (scope : Scope) (outer : List Scope) (routine : RoutineContext)
    (classContext : ClassContext) (name : String) :
    declares ⟨scope :: outer, routine, classContext⟩ name = scope.contains name := rfl

/-- A name that can be declared is new in its scope, and is there afterwards. -/
theorem Site.declares_introduce {name : Token} (hsite : site.scopes ≠ [])
    (h : scopeFaults (site.introduce name).1 = []) : site.declares name.lexeme = false ∧
      (site.introduce name).2.scopes ≠ [] ∧
      ∀ other, (site.introduce name).2.declares other ↔
        name.lexeme = other ∨ site.declares other := by
  obtain ⟨scopes, routine, classContext⟩ := site
  obtain ⟨scope, outer, rfl⟩ := List.exists_cons_of_ne_nil hsite
  have hnew : scope.contains name.lexeme = false := by
    by_contra hc
    rw [Bool.not_eq_false] at hc
    simp [introduce, declare, hc] at h
  obtain ⟨scope', hintroduced, hname, hother⟩ :=
    introduce_cons scope outer routine classContext name
  rw [hintroduced, declares_cons]
  refine ⟨hnew, List.cons_ne_nil _ _, fun other => ?_⟩
  rw [declares_cons, declares_cons]
  by_cases heq : other = name.lexeme
  · simp [NameMap.contains, heq, hname]
  · simp [NameMap.contains, hother other heq, Ne.symm heq]

/-- The parameters of a function are declared in its scope. -/
theorem Site.declares_introduceAll {names : List Token} (hsite : site.scopes ≠ [])
    (h : scopeFaults (site.introduceAll names).1 = []) :
    (site.introduceAll names).2.scopes ≠ [] ∧
      ∀ other, (site.introduceAll names).2.declares other ↔
        other ∈ names.map Token.lexeme ∨ site.declares other := by
  induction names generalizing site with
  | nil => exact ⟨hsite, by simp [introduceAll]⟩
  | cons name rest ih =>
    simp only [introduceAll, scopeFaults_append_eq_nil] at h
    obtain ⟨-, hbehind, hdeclares⟩ := declares_introduce hsite h.1
    obtain ⟨hscopes, hrest⟩ := ih hbehind h.2
    refine ⟨hscopes, fun other => (hrest other).trans ?_⟩
    rw [hdeclares other, List.map_cons, List.mem_cons, eq_comm (a := other)]
    tauto

/-- What a statement declares is new in its scope, and is there afterwards. -/
theorem Stmt.declares_analyse {s : Stmt} (hs : s.Named P) (hsite : site.scopes ≠ [])
    (h : scopeFaults (s.analyse site).1 = []) : (s.analyse site).2.scopes ≠ [] ∧
      ∀ name, ((s.analyse site).2.declares name ↔
          (s.variableName? = some name ∨ s.fixedName? = some name) ∨ site.declares name) ∧
        (s.variableName? = some name ∨ s.fixedName? = some name → site.declares name = false) := by
  have hintroduce {name : Token} (hfaults : scopeFaults (site.introduce name).1 = []) :
      (site.introduce name).2.scopes ≠ [] ∧ ∀ other,
        ((site.introduce name).2.declares other ↔ name.lexeme = other ∨ site.declares other) ∧
          (name.lexeme = other → site.declares other = false) := by
    obtain ⟨hnew, hscopes, hdeclares⟩ := Site.declares_introduce hsite hfaults
    exact ⟨hscopes, fun other => ⟨hdeclares other, fun heq => heq ▸ hnew⟩⟩
  cases s with
  | var name initializer =>
    have hfaults : scopeFaults (site.introduce name).1 = [] := by
      cases initializer with
      | none => exact h
      | some value => exact ((scopeFaults_append_eq_nil _ _).1 h).1
    have hbehind : ((Stmt.var name initializer).analyse site).2 = (site.introduce name).2 := by
      cases initializer <;> rfl
    rw [hbehind]
    simpa [variableName?, fixedName?] using hintroduce hfaults
  | function routine =>
    have hfaults : scopeFaults (site.introduce routine.name).1 = [] :=
      ((scopeFaults_append_eq_nil _ _).1 h).1
    simpa [analyse, variableName?, fixedName?] using hintroduce hfaults
  | «class» name superclass methods =>
    have hfaults : scopeFaults (site.introduce name).1 = [] := by
      simp only [analyse, scopeFaults_append_eq_nil] at h
      exact h.1.1
    simpa [analyse, variableName?, fixedName?] using hintroduce hfaults
  | _ =>
    rw [analyse_of_declares_eq_false hs rfl]
    exact ⟨hsite, fun name => by simp [variableName?, fixedName?]⟩

/-- A name that a scope has already is not declared in it. -/
theorem Stmt.name?_ne_of_declares {ss : List Stmt} (hss : Stmt.NamedAll P ss)
    (hsite : site.scopes ≠ []) (h : scopeFaults (Stmt.analyseAll site ss).1 = []) {name : String}
    (hname : site.declares name) :
    ∀ s ∈ ss, s.variableName? ≠ some name ∧ s.fixedName? ≠ some name := by
  induction ss generalizing site with
  | nil => simp
  | cons s rest ih =>
    simp only [analyseAll, scopeFaults_append_eq_nil] at h
    obtain ⟨hbehind, hs⟩ := declares_analyse hss.1 hsite h.1
    obtain ⟨hiff, hnew⟩ := hs name
    refine List.forall_mem_cons.2 ⟨?_, ih hss.2 hbehind h.2 (hiff.2 (.inr hname))⟩
    rw [hname] at hnew
    exact not_or.1 fun hdeclared => Bool.noConfusion (hnew hdeclared)

/-- A variable and a routine or class of one scope have different names. -/
theorem Stmt.fixedName?_ne {ss : List Stmt} (hss : Stmt.NamedAll P ss) (hsite : site.scopes ≠ [])
    (h : scopeFaults (Stmt.analyseAll site ss).1 = []) {name : String}
    (hname : site.declares name ∨ name ∈ Stmt.variableNames ss) :
    ∀ s ∈ ss, s.fixedName? ≠ some name := by
  rcases hname with hname | hname
  · exact fun s hs => (name?_ne_of_declares hss hsite h hname s hs).2
  induction ss generalizing site with
  | nil => simp
  | cons s rest ih =>
    simp only [analyseAll, scopeFaults_append_eq_nil] at h
    obtain ⟨hbehind, hs⟩ := declares_analyse hss.1 hsite h.1
    obtain ⟨s', hs', hvariable⟩ := List.mem_filterMap.1 hname
    have hlater := fun hdeclared =>
      name?_ne_of_declares hss.2 hbehind h.2 ((hs name).1.2 (.inl hdeclared))
    obtain rfl | hrest := List.mem_cons.1 hs'
    · refine List.forall_mem_cons.2 ⟨?_, fun s hs => (hlater (.inl hvariable) s hs).2⟩
      cases s' <;> simp_all [variableName?, fixedName?]
    · refine List.forall_mem_cons.2 ⟨fun hfixed => ?_, ?_⟩
      · exact (hlater (.inr hfixed) s' hrest).1 hvariable
      · exact ih hss.2 hbehind h.2 (List.mem_filterMap.2 ⟨s', hrest, hvariable⟩)

end Treewalk
