import Treewalk.Proofs.Scope.Declared
import Treewalk.Proofs.Scope.Sites
import Treewalk.Proofs.Tree.Relabel

/-!
# Renaming a local variable

The scopes of a program are numbered in the order in which they begin. Renaming a variable of one of
them respells its declaration and the uses that belong to it: those whose name is that of the
variable and whose depth, at the place where they stand, leads to this scope. An edit also moves the
program down by a number of lines.

The edited program is a twin of the program, if the new name is nowhere in it.

## Main definitions

* `Stmt.localNames` — the variables and parameters of each scope
* `Stmt.edit` — renames a variable of one scope, and moves the program down

## Main results

* `Stmt.twin_edit` — the edited program is a twin
* `Stmt.edit_of_old_eq_new` — a program in which no name is replaced is merely moved down
-/

namespace Treewalk

variable (r : Edit)

/-! ### The edited program -/

def Token.edit (respelled : Bool) (t : Token) : Token :=
  { t.down r.lines with lexeme := r.spell respelled t.lexeme }

def Use.down (use : Use) (lines : Nat) : Use := ⟨use.id, use.token.down lines⟩

/-- A use is respelled if it belongs to a scope in which names are replaced. -/
def Use.edit (site : Site) (marks : List Bool) (use : Use) : Use :=
  ⟨use.id, use.token.edit r (site.isRespelled marks use.name)⟩

mutual

/-- The uses of variables and the assignments are renamed, and nothing else is. -/
def Expr.edit (site : Site) (marks : List Bool) : Expr → Expr
  | .literal value => .literal value
  | .unary operator operand => .unary (operator.down r.lines) (operand.edit site marks)
  | .binary left operator right =>
    .binary (left.edit site marks) (operator.down r.lines) (right.edit site marks)
  | .logical left operator right =>
    .logical (left.edit site marks) (operator.down r.lines) (right.edit site marks)
  | .group inner => .group (inner.edit site marks)
  | .variable use => .variable (use.edit r site marks)
  | .assign target value => .assign (target.edit r site marks) (value.edit site marks)
  | .call callee paren arguments =>
    .call (callee.edit site marks) (paren.down r.lines) (Expr.editAll site marks arguments)
  | .property object name => .property (object.edit site marks) (name.down r.lines)
  | .setProperty object name value =>
    .setProperty (object.edit site marks) (name.down r.lines) (value.edit site marks)
  | .this use => .this (use.down r.lines)
  | .super use method => .super (use.down r.lines) (method.down r.lines)

def Expr.editAll (site : Site) (marks : List Bool) : List Expr → List Expr
  | [] => []
  | e :: rest => e.edit site marks :: Expr.editAll site marks rest

end

mutual

/-- For each scope that begins in a statement, the variables and parameters declared in it. -/
def Stmt.localNames : Stmt → List (List String)
  | .block body => Stmt.variableNames body :: Stmt.localNamesAll body
  | .if _ branch none => branch.localNames
  | .if _ branch (some other) => branch.localNames ++ other.localNames
  | .while _ body => body.localNames
  | .function routine => routine.localNames
  | .class _ _ methods => Routine.localNamesAll methods
  | _ => []

def Stmt.localNamesAll : List Stmt → List (List String)
  | [] => []
  | s :: rest => s.localNames ++ Stmt.localNamesAll rest

/-- The parameters and the body of a routine are one scope. -/
def Routine.localNames : Routine → List (List String)
  | ⟨_, parameters, body⟩ =>
    (parameters.map Token.lexeme ++ Stmt.variableNames body) :: Stmt.localNamesAll body

def Routine.localNamesAll : List Routine → List (List String)
  | [] => []
  | r :: rest => r.localNames ++ Routine.localNamesAll rest

end

section LocalNames

variable {P : String → Prop} {name : String} {names : List String}

mutual

theorem Stmt.Named.localNames (s : Stmt) (h : s.Named P) (hnames : names ∈ s.localNames)
    (hname : name ∈ names) : P name := by
  match s with
  | .expression _ | .print _ | .return _ none | .return _ (some _) => cases hnames
  | .var _ none | .var _ (some _) => cases hnames
  | .block body =>
    obtain rfl | hnames := List.mem_cons.1 hnames
    · exact Stmt.NamedAll.variableNames h hname
    · exact Stmt.NamedAll.localNames body h hnames hname
  | .if _ branch none => exact Stmt.Named.localNames branch h.2.1 hnames hname
  | .if _ branch (some other) =>
    obtain hnames | hnames := List.mem_append.1 hnames
    · exact Stmt.Named.localNames branch h.2.1.1 hnames hname
    · exact Stmt.Named.localNames other h.2.2.1 hnames hname
  | .while _ body => exact Stmt.Named.localNames body h.2.1 hnames hname
  | .function routine => exact Routine.Named.localNames routine h.2 hnames hname
  | .class _ _ methods =>
    exact Routine.NamedAll.localNames methods h.2.2 hnames hname

theorem Stmt.NamedAll.localNames (ss : List Stmt) (h : Stmt.NamedAll P ss)
    (hnames : names ∈ Stmt.localNamesAll ss) (hname : name ∈ names) : P name := by
  match ss with
  | [] => cases hnames
  | s :: rest =>
    obtain hnames | hnames := List.mem_append.1 hnames
    · exact Stmt.Named.localNames s h.1 hnames hname
    · exact Stmt.NamedAll.localNames rest h.2 hnames hname

theorem Routine.Named.localNames (routine : Routine) (h : routine.Named P)
    (hnames : names ∈ routine.localNames) (hname : name ∈ names) : P name := by
  match routine with
  | ⟨_, parameters, body⟩ =>
    obtain rfl | hnames := List.mem_cons.1 hnames
    · obtain hname | hname := List.mem_append.1 hname
      · obtain ⟨t, ht, rfl⟩ := List.mem_map.1 hname
        exact h.1 t ht
      · exact Stmt.NamedAll.variableNames h.2 hname
    · exact Stmt.NamedAll.localNames body h.2 hnames hname

theorem Routine.NamedAll.localNames (methods : List Routine) (h : Routine.NamedAll P methods)
    (hnames : names ∈ Routine.localNamesAll methods) (hname : name ∈ names) : P name := by
  match methods with
  | [] => cases hnames
  | method :: rest =>
    obtain hnames | hnames := List.mem_append.1 hnames
    · exact Routine.Named.localNames method h.1 hnames hname
    · exact Routine.NamedAll.localNames rest h.2 hnames hname

end

end LocalNames

mutual

/-- Renames a variable of the `chosen`-th scope that begins in a statement, counted from one on, and
moves the statement down. With zero no scope is chosen. -/
def Stmt.edit (site : Site) (marks : List Bool) (chosen : Nat) : Stmt → Stmt
  | .expression value => .expression (value.edit r site marks)
  | .print value => .print (value.edit r site marks)
  | .var name none => .var (name.edit r (marks.headD false)) none
  | .var name (some value) =>
    .var (name.edit r (marks.headD false)) (some (value.edit r (site.declare name).2 marks))
  | .block body =>
    .block (Stmt.editAll (site.enter .empty) ((chosen == 1) :: marks) (chosen - 1) body)
  | .if condition branch none =>
    .if (condition.edit r site marks) (branch.edit site marks chosen) none
  | .if condition branch (some other) =>
    .if (condition.edit r site marks) (branch.edit site marks chosen)
      (some (other.edit site marks (chosen - branch.localNames.length)))
  | .while condition body =>
    .while (condition.edit r site marks) (body.edit site marks chosen)
  | .function routine =>
    .function (routine.edit (site.introduce routine.name).2 marks .function chosen)
  | .return keyword none => .return (keyword.down r.lines) none
  | .return keyword (some value) =>
    .return (keyword.down r.lines) (some (value.edit r site marks))
  | .class name superclass methods =>
    let behind := (site.introduce name).2
    .class (name.down r.lines) (superclass.map (·.edit r behind marks)) (Routine.editAll
      (behind.enterClass superclass) (false :: classMarks superclass marks) chosen methods)

def Stmt.editAll (site : Site) (marks : List Bool) (chosen : Nat) : List Stmt → List Stmt
  | [] => []
  | s :: rest =>
    s.edit site marks chosen ::
      Stmt.editAll (s.analyse site).2 marks (chosen - s.localNames.length) rest

def Routine.edit (site : Site) (marks : List Bool) (context : RoutineContext) (chosen : Nat) :
    Routine → Routine
  | ⟨name, parameters, body⟩ =>
    ⟨name.down r.lines, parameters.map (Token.edit r (chosen == 1)), Stmt.editAll
      (site.body context parameters) ((chosen == 1) :: marks) (chosen - 1) body⟩

def Routine.editAll (site : Site) (marks : List Bool) (chosen : Nat) : List Routine → List Routine
  | [] => []
  | method :: rest =>
    method.edit site marks (methodContext method.name) chosen ::
      Routine.editAll site marks (chosen - method.localNames.length) rest

end

/-! ### The edited program is a twin -/

/-- If a scope is chosen, it declares a variable of the old name. -/
def Respelling.Chosen (r : Respelling) (chosen : Nat) (scopes : List (List String)) : Prop :=
  0 < chosen → r.old ≠ r.new ∧ ∀ names, scopes[chosen - 1]? = some names → r.old ∈ names

/-- Names that may stand in a program in which names are replaced: none is reserved, none is the new
spelling, and none is known not to be used. -/
structure Respelling.Admits (r : Respelling) (name : String) : Prop where
  ne_this : name ≠ "this"
  ne_super : name ≠ "super"
  ne_new : r.old ≠ r.new → name ≠ r.new
  used : ¬r.unused name

variable {r}

namespace Respelling.Chosen

variable {chosen : Nat} {scopes scopes' : List (List String)} {names : List String}

theorem left (h : r.Chosen chosen (scopes ++ scopes')) : r.Chosen chosen scopes := fun hpos =>
  ⟨(h hpos).1, fun names hnames => (h hpos).2 names <| by
    obtain ⟨hlt, -⟩ := List.getElem?_eq_some_iff.1 hnames
    rw [List.getElem?_append_left hlt, hnames]⟩

theorem right (h : r.Chosen chosen (scopes ++ scopes')) :
    r.Chosen (chosen - scopes.length) scopes' := by
  intro hpos
  refine ⟨(h (by omega)).1, fun names hnames => (h (by omega)).2 names ?_⟩
  rw [List.getElem?_append_right (by omega), ← hnames]
  congr 1
  omega

theorem head (h : r.Chosen chosen (names :: scopes)) (hchosen : (chosen == 1) = true) :
    r.old ≠ r.new ∧ r.old ∈ names := by
  obtain rfl : chosen = 1 := by simpa using hchosen
  exact ⟨(h Nat.one_pos).1, (h Nat.one_pos).2 names rfl⟩

theorem tail (h : r.Chosen chosen (names :: scopes)) : r.Chosen (chosen - 1) scopes := by
  have h : r.Chosen chosen ([names] ++ scopes) := h
  exact h.right

end Respelling.Chosen

section Twins

variable {site : Site} {marks : List Bool} {name : Token} {use : Use} {kind : OccurrenceKind}

theorem Site.mem_of_isRespelled {name : String} (h : site.isRespelled marks name = true) :
    true ∈ marks := by
  unfold isRespelled at h
  cases hdepth : site.depth? name with
  | none => simp [hdepth] at h
  | some depth =>
    rw [hdepth, Option.elim_some, List.getD_eq_getElem?_getD] at h
    cases hmark : marks[depth]? with
    | none => simp [hmark] at h
    | some mark =>
      obtain rfl : mark = true := by simpa [hmark] using h
      exact List.mem_of_getElem? hmark

theorem true_mem_of_headD (h : marks.headD false = true) : true ∈ marks := by
  cases marks with
  | nil => cases h
  | cons mark rest => exact h ▸ .head _

namespace Respelling.Admits

theorem declaresTwins (h : r.Admits name.lexeme) (hmarks : true ∈ marks → r.old ≠ r.new) :
    DeclaresTwins r marks name (name.edit r (marks.headD false)) :=
  ⟨rfl, rfl, ⟨rfl, fun hmark => h.ne_new (hmarks (true_mem_of_headD hmark))⟩, h.ne_new, h.ne_this,
    h.ne_super, h.used⟩

/-- The name of a routine or class is kept if no name of its scope is replaced or it is not the old
one. -/
theorem declaresTwins_down (h : r.Admits name.lexeme) (hmarks : true ∈ marks → r.old ≠ r.new)
    (hname : marks.headD false = true → name.lexeme ≠ r.old) :
    DeclaresTwins r marks name (name.down r.lines) := by
  refine ⟨rfl, rfl, ⟨?_, fun hmark => h.ne_new (hmarks (true_mem_of_headD hmark))⟩, h.ne_new,
    h.ne_this, h.ne_super, h.used⟩
  rw [spell, if_neg, Token.lexeme_down]
  exact fun hold => hname hold.1 hold.2

end Respelling.Admits

theorem Paired.edit (h : r.Admits use.name) (hmarks : true ∈ marks → r.old ≠ r.new)
    (hthis : kind ≠ .this) (hsuper : kind ≠ .super) :
    Paired r kind site marks use (use.edit r site marks) :=
  ⟨rfl, rfl, ⟨rfl, fun hmark => h.ne_new (hmarks (Site.mem_of_isRespelled hmark))⟩, h.ne_new,
    h.used, fun heq => absurd heq hthis, fun heq => absurd heq hsuper,
    fun _ => ⟨h.ne_this, h.ne_super⟩⟩

/-- A use that is spelled like neither name is kept. -/
theorem Paired.down (hold : use.name ≠ r.old) (hnew : r.old ≠ r.new → use.name ≠ r.new)
    (hmarks : true ∈ marks → r.old ≠ r.new) (hused : ¬r.unused use.name)
    (hkind : kind.Names use.name) : Paired r kind site marks use (use.down r.lines) := by
  refine ⟨rfl, rfl, ⟨?_, fun hmark => hnew (hmarks (Site.mem_of_isRespelled hmark))⟩, hnew, hused,
    hkind⟩
  rw [Respelling.spell, if_neg]
  · rfl
  · exact fun h => hold h.2

mutual

theorem Expr.twin_edit (hr : r.Fair) (hmarks : true ∈ marks → r.old ≠ r.new) (e : Expr)
    (h : e.Named r.Admits) : Expr.Twin r (Paired r) site marks e (e.edit r site marks) := by
  match e with
  | .literal _ => exact .literal
  | .unary _ operand => exact .unary (operand.twin_edit hr hmarks h)
  | .binary left _ right =>
    exact .binary (left.twin_edit hr hmarks h.1) (right.twin_edit hr hmarks h.2)
  | .logical left _ right =>
    exact .logical (left.twin_edit hr hmarks h.1) (right.twin_edit hr hmarks h.2)
  | .group inner => exact .group (inner.twin_edit hr hmarks h)
  | .variable use => exact .variable (.edit h hmarks nofun nofun)
  | .assign target value =>
    exact .assign (.edit h.1 hmarks nofun nofun) (value.twin_edit hr hmarks h.2)
  | .call callee _ arguments =>
    exact .call (callee.twin_edit hr hmarks h.1) (Expr.twinAll_edit hr hmarks arguments h.2)
  | .property object _ => exact .property (object.twin_edit hr hmarks h)
  | .setProperty object _ value =>
    exact .setProperty (object.twin_edit hr hmarks h.1) (value.twin_edit hr hmarks h.2)
  | .this use =>
    have hname : use.name = "this" := h
    exact .this (.down (hname ▸ hr.old_ne_this.symm)
      (fun hne => hname ▸ (hr.new_ne_this hne).symm) hmarks (hname ▸ r.used_this)
      ⟨fun _ => hname, nofun, nofun⟩)
  | .super use _ =>
    have hname : use.name = "super" := h
    exact .super (.down (hname ▸ hr.old_ne_super.symm)
      (fun hne => hname ▸ (hr.new_ne_super hne).symm) hmarks (hname ▸ r.used_super)
      ⟨nofun, fun _ => hname, nofun⟩)

theorem Expr.twinAll_edit (hr : r.Fair) (hmarks : true ∈ marks → r.old ≠ r.new)
    (es : List Expr) (h : Expr.NamedAll r.Admits es) :
    Expr.TwinAll r (Paired r) site marks es (Expr.editAll r site marks es) := by
  match es with
  | [] => exact .nil
  | e :: rest => exact .cons (e.twin_edit hr hmarks h.1) (Expr.twinAll_edit hr hmarks rest h.2)

end

/-- In a chosen scope no routine or class has the old name. -/
theorem Respelling.Chosen.fixedName?_ne {chosen : Nat} {scopes : List (List String)}
    {names : List String} {body : List Stmt} {P : String → Prop}
    (h : r.Chosen chosen ((names ++ Stmt.variableNames body) :: scopes))
    (hbody : Stmt.NamedAll P body) (hsite : site.scopes ≠ [])
    (hdeclares : ∀ name ∈ names, site.declares name)
    (hfaults : scopeFaults (Stmt.analyseAll site body).1 = []) (hchosen : (chosen == 1) = true) :
    ∀ s ∈ body, s.fixedName? ≠ some r.old :=
  Stmt.fixedName?_ne hbody hsite hfaults <|
    (List.mem_append.1 (h.head hchosen).2).imp (hdeclares r.old) id

theorem mem_cons_marks {chosen : Nat} {scopes : List (List String)} {names : List String}
    (h : r.Chosen chosen (names :: scopes)) (hmarks : true ∈ marks → r.old ≠ r.new) :
    true ∈ (chosen == 1) :: marks → r.old ≠ r.new := fun hmem =>
  (List.mem_cons.1 hmem).elim (fun hchosen => (h.head hchosen.symm).1) hmarks

mutual

theorem Stmt.twin_edit (hr : r.Fair) {site : Site} {marks : List Bool} {chosen : Nat}
    (hmarks : true ∈ marks → r.old ≠ r.new) (s : Stmt) (h : s.Named r.Admits)
    (hchosen : r.Chosen chosen s.localNames)
    (hfixed : marks.headD false = true → s.fixedName? ≠ some r.old)
    (hfaults : scopeFaults (s.analyse site).1 = []) :
    Stmt.Twin r (Paired r) site marks s (s.edit r site marks chosen) := by
  match s with
  | .expression value => exact .expression (value.twin_edit hr hmarks h)
  | .print value => exact .print (value.twin_edit hr hmarks h)
  | .var name none => exact .declaration (h.declaresTwins hmarks)
  | .var name (some value) =>
    exact .definition (h.1.declaresTwins hmarks) (value.twin_edit hr hmarks h.2)
  | .block body =>
    refine .block _ (fun hone => (hchosen.head hone).1) ?_
    have hnames : r.Chosen chosen (([] ++ Stmt.variableNames body) :: Stmt.localNamesAll body) :=
      hchosen
    have hbody := hnames.fixedName?_ne h (List.cons_ne_nil _ _) nofun hfaults
    exact Stmt.twinAll_edit hr (mem_cons_marks hchosen hmarks) body h hchosen.tail hbody hfaults
  | .if condition branch none =>
    obtain ⟨hcondition, hbranch, hdeclares⟩ := h
    simp only [Stmt.analyse, scopeFaults_append_eq_nil] at hfaults
    refine .ifThen (condition.twin_edit hr hmarks hcondition) ?_
      (Stmt.analyse_of_declares_eq_false hbranch hdeclares site)
    exact branch.twin_edit hr hmarks hbranch hchosen (fun _ => by
      simp [Stmt.fixedName?_of_declares_eq_false hdeclares]) hfaults.2
  | .if condition branch (some other) =>
    obtain ⟨hcondition, ⟨hbranch, hdeclares⟩, hother, hdeclares'⟩ := h
    have hbehind := Stmt.analyse_of_declares_eq_false hbranch hdeclares site
    simp only [Stmt.analyse, hbehind, scopeFaults_append_eq_nil] at hfaults
    refine .ifElse (condition.twin_edit hr hmarks hcondition) ?_ hbehind ?_
      (Stmt.analyse_of_declares_eq_false hother hdeclares' site)
    · exact branch.twin_edit hr hmarks hbranch hchosen.left (fun _ => by
        simp [Stmt.fixedName?_of_declares_eq_false hdeclares]) hfaults.1.2
    · exact other.twin_edit hr hmarks hother hchosen.right (fun _ => by
        simp [Stmt.fixedName?_of_declares_eq_false hdeclares']) hfaults.2
  | .while condition body =>
    obtain ⟨hcondition, hbody, hdeclares⟩ := h
    simp only [Stmt.analyse, scopeFaults_append_eq_nil] at hfaults
    refine .while (condition.twin_edit hr hmarks hcondition) ?_
      (Stmt.analyse_of_declares_eq_false hbody hdeclares site)
    exact body.twin_edit hr hmarks hbody hchosen (fun _ => by
      simp [Stmt.fixedName?_of_declares_eq_false hdeclares]) hfaults.2
  | .function routine =>
    simp only [Stmt.analyse, scopeFaults_append_eq_nil] at hfaults
    have hroutine := routine.twin_edit hr hmarks h.2 hchosen hfaults.2
    refine .function ?_ hroutine
    rw [hroutine.name_eq]
    exact h.1.declaresTwins_down hmarks fun hmark heq => hfixed hmark (congrArg some heq)
  | .return _ none => exact .return
  | .return _ (some value) => exact .returnValue (value.twin_edit hr hmarks h)
  | .class name superclass methods =>
    obtain ⟨hname, hsuperclass, hmethods⟩ := h
    simp only [Stmt.analyse_class, scopeFaults_append_eq_nil] at hfaults
    have hmarks' : true ∈ false :: classMarks superclass marks → r.old ≠ r.new := by
      cases superclass <;> simpa [classMarks] using hmarks
    refine .class (hname.declaresTwins_down hmarks fun hmark heq => ?_) ?_
      (Routine.twinAll_edit hr hmarks' methods hmethods hchosen hfaults.2)
    · exact hfixed hmark (congrArg some heq)
    · cases superclass with
      | none => exact .none
      | some use =>
        refine .some (.edit (hsuperclass use rfl) hmarks nofun nofun) fun heq => ?_
        simp [clauseFindings, superclassFindings, heq] at hfaults

theorem Stmt.twinAll_edit (hr : r.Fair) {site : Site} {marks : List Bool} {chosen : Nat}
    (hmarks : true ∈ marks → r.old ≠ r.new) (ss : List Stmt) (h : Stmt.NamedAll r.Admits ss)
    (hchosen : r.Chosen chosen (Stmt.localNamesAll ss))
    (hfixed : marks.headD false = true → ∀ s ∈ ss, s.fixedName? ≠ some r.old)
    (hfaults : scopeFaults (Stmt.analyseAll site ss).1 = []) :
    Stmt.TwinAll r (Paired r) site marks ss (Stmt.editAll r site marks chosen ss) := by
  match ss with
  | [] => exact .nil
  | s :: rest =>
    simp only [Stmt.analyseAll, scopeFaults_append_eq_nil] at hfaults
    refine .cons (s.twin_edit hr hmarks h.1 hchosen.left (fun hmark => hfixed hmark s (.head _))
      hfaults.1) ?_
    exact Stmt.twinAll_edit hr hmarks rest h.2 hchosen.right
      (fun hmark s hs => hfixed hmark s (.tail _ hs)) hfaults.2

theorem Routine.twin_edit (hr : r.Fair) {site : Site} {marks : List Bool} {chosen : Nat}
    {context : RoutineContext} (hmarks : true ∈ marks → r.old ≠ r.new) (routine : Routine)
    (h : routine.Named r.Admits) (hchosen : r.Chosen chosen routine.localNames)
    (hfaults : scopeFaults (routine.findings site context) = []) :
    Routine.Twin r (Paired r) site marks context routine
      (routine.edit r site marks context chosen) := by
  match routine with
  | ⟨name, parameters, body⟩ =>
    simp only [Routine.findings, scopeFaults_append_eq_nil] at hfaults
    have hmarks' := mem_cons_marks hchosen hmarks
    obtain ⟨hscopes, hdeclares⟩ := Site.declares_introduceAll (List.cons_ne_nil _ _) hfaults.1
    have hbody := hchosen.fixedName?_ne h.2 hscopes
      (fun name hname => (hdeclares name).2 (.inl hname)) hfaults.2
    refine .mk _ (fun hone => (hchosen.head hone).1) ?_
      (Stmt.twinAll_edit hr hmarks' body h.2 hchosen.tail hbody hfaults.2)
    rw [List.forall₂_map_right_iff, List.forall₂_same]
    exact fun t ht => (h.1 t ht).declaresTwins hmarks'

theorem Routine.twinAll_edit (hr : r.Fair) {site : Site} {marks : List Bool} {chosen : Nat}
    (hmarks : true ∈ marks → r.old ≠ r.new) (methods : List Routine)
    (h : Routine.NamedAll r.Admits methods)
    (hchosen : r.Chosen chosen (Routine.localNamesAll methods))
    (hfaults : scopeFaults (Routine.findingsAll site methods) = []) :
    MethodsTwin r (Paired r) site marks methods (Routine.editAll r site marks chosen methods) := by
  match methods with
  | [] => exact .nil
  | method :: rest =>
    simp only [Routine.findingsAll, scopeFaults_append_eq_nil] at hfaults
    exact .cons (method.twin_edit hr hmarks h.1 hchosen.left hfaults.1)
      (Routine.twinAll_edit hr hmarks rest h.2 hchosen.right hfaults.2)

end

end Twins

/-! ### A program in which no name is replaced -/

/-- What becomes of the tokens of a program that is moved down. -/
def Relabeling.down (lines : Nat) : Relabeling := ⟨(·.down lines), id⟩

theorem Relabeling.down_zero : down 0 = keep := rfl

/-- No line further down is where a program stands already. -/
theorem Stmt.map_relabel_down_zero (ss : List Stmt) : ss.map (Stmt.relabel (.down 0)) = ss := by
  rw [Relabeling.down_zero, ← Stmt.relabelAll_eq_map, Stmt.relabelAll_keep]

section Down

variable {r : Edit}

theorem Token.edit_of_old_eq_new (hr : r.old = r.new) (respelled : Bool) (t : Token) :
    t.edit r respelled = t.down r.lines := by
  rw [edit, r.spell_of_old_eq_new hr]
  rfl

theorem Use.edit_of_old_eq_new (hr : r.old = r.new) (site : Site) (marks : List Bool) (use : Use) :
    use.edit r site marks = use.relabel (.down r.lines) := by
  rw [edit, use.token.edit_of_old_eq_new hr]
  rfl

mutual

theorem Expr.edit_of_old_eq_new (hr : r.old = r.new) (site : Site) (marks : List Bool) (e : Expr) :
    e.edit r site marks = e.relabel (.down r.lines) := by
  match e with
  | .literal _ | .this _ | .super _ _ => rfl
  | .unary _ operand | .property operand _ =>
    rw [Expr.edit, Expr.relabel, operand.edit_of_old_eq_new hr]
    rfl
  | .group inner => rw [Expr.edit, Expr.relabel, inner.edit_of_old_eq_new hr]
  | .binary left _ right | .logical left _ right | .setProperty left _ right =>
    rw [Expr.edit, Expr.relabel, left.edit_of_old_eq_new hr, right.edit_of_old_eq_new hr]
    rfl
  | .variable use => rw [Expr.edit, Expr.relabel, use.edit_of_old_eq_new hr]
  | .assign use value =>
    rw [Expr.edit, Expr.relabel, use.edit_of_old_eq_new hr, value.edit_of_old_eq_new hr]
  | .call callee _ arguments =>
    rw [Expr.edit, Expr.relabel, callee.edit_of_old_eq_new hr,
      Expr.editAll_of_old_eq_new hr site marks arguments]
    rfl

theorem Expr.editAll_of_old_eq_new (hr : r.old = r.new) (site : Site) (marks : List Bool)
    (es : List Expr) : Expr.editAll r site marks es = Expr.relabelAll (.down r.lines) es := by
  match es with
  | [] => rfl
  | e :: rest =>
    rw [Expr.editAll, Expr.relabelAll, e.edit_of_old_eq_new hr,
      Expr.editAll_of_old_eq_new hr site marks rest]

end

mutual

/-- A statement in which no name is replaced is merely moved down. -/
theorem Stmt.edit_of_old_eq_new (hr : r.old = r.new) (site : Site) (marks : List Bool)
    (chosen : Nat) (s : Stmt) : s.edit r site marks chosen = s.relabel (.down r.lines) := by
  match s with
  | .expression value | .print value =>
    rw [Stmt.edit, Stmt.relabel, value.edit_of_old_eq_new hr]
  | .var name none =>
    rw [Stmt.edit, Stmt.relabel, name.edit_of_old_eq_new hr]
    rfl
  | .var name (some value) =>
    rw [Stmt.edit, Stmt.relabel, name.edit_of_old_eq_new hr, value.edit_of_old_eq_new hr]
    rfl
  | .return _ none => rfl
  | .return _ (some value) =>
    rw [Stmt.edit, Stmt.relabel, value.edit_of_old_eq_new hr]
    rfl
  | .block body => rw [Stmt.edit, Stmt.relabel, Stmt.editAll_of_old_eq_new hr _ _ _ body]
  | .if condition branch none =>
    rw [Stmt.edit, Stmt.relabel, condition.edit_of_old_eq_new hr, branch.edit_of_old_eq_new hr]
  | .if condition branch (some other) =>
    rw [Stmt.edit, Stmt.relabel, condition.edit_of_old_eq_new hr, branch.edit_of_old_eq_new hr,
      other.edit_of_old_eq_new hr]
  | .while condition body =>
    rw [Stmt.edit, Stmt.relabel, condition.edit_of_old_eq_new hr, body.edit_of_old_eq_new hr]
  | .function routine => rw [Stmt.edit, Stmt.relabel, routine.edit_of_old_eq_new hr]
  | .class _ superclass methods =>
    have hsuperclass (site : Site) : (superclass.map fun use => use.edit r site marks) =
        superclass.map (Use.relabel (.down r.lines)) := by
      simp only [Use.edit_of_old_eq_new hr]
    rw [Stmt.edit, Stmt.relabel, hsuperclass, Routine.editAll_of_old_eq_new hr _ _ _ methods]
    rfl

theorem Stmt.editAll_of_old_eq_new (hr : r.old = r.new) (site : Site) (marks : List Bool)
    (chosen : Nat) (ss : List Stmt) :
    Stmt.editAll r site marks chosen ss = Stmt.relabelAll (.down r.lines) ss := by
  match ss with
  | [] => rfl
  | s :: rest =>
    rw [Stmt.editAll, Stmt.relabelAll, s.edit_of_old_eq_new hr,
      Stmt.editAll_of_old_eq_new hr _ _ _ rest]

theorem Routine.edit_of_old_eq_new (hr : r.old = r.new) (site : Site) (marks : List Bool)
    (context : RoutineContext) (chosen : Nat) (routine : Routine) :
    routine.edit r site marks context chosen = routine.relabel (.down r.lines) := by
  match routine with
  | ⟨_, parameters, body⟩ =>
    have hparameters : parameters.map (Token.edit r (chosen == 1)) =
        parameters.map (Relabeling.down r.lines).token :=
      List.map_congr_left fun t _ => t.edit_of_old_eq_new hr _
    rw [Routine.edit, Routine.relabel, hparameters, Stmt.editAll_of_old_eq_new hr _ _ _ body]
    rfl

theorem Routine.editAll_of_old_eq_new (hr : r.old = r.new) (site : Site) (marks : List Bool)
    (chosen : Nat) (methods : List Routine) :
    Routine.editAll r site marks chosen methods = Routine.relabelAll (.down r.lines) methods := by
  match methods with
  | [] => rfl
  | method :: rest =>
    rw [Routine.editAll, Routine.relabelAll, method.edit_of_old_eq_new hr,
      Routine.editAll_of_old_eq_new hr _ _ _ rest]

end

/-- A program without faults is a twin of the same program some lines further down. -/
theorem twinAll_down (hr : r.old = r.new) {program : List Stmt} (hfair : r.Fair)
    (h : Stmt.NamedAll r.Admits program) (hfaults : scopeFaults (analyse program) = []) :
    Stmt.TwinAll r (Paired r) .top [] program (program.map (Stmt.relabel (.down r.lines))) := by
  have hchosen : r.Chosen 0 (Stmt.localNamesAll program) := nofun
  have hmarks : true ∈ ([] : List Bool) → r.old ≠ r.new := nofun
  have htwin := Stmt.twinAll_edit hfair hmarks program h hchosen nofun hfaults
  rwa [Stmt.editAll_of_old_eq_new hr, Stmt.relabelAll_eq_map] at htwin

/-- A program without faults is its own twin. -/
theorem twinAll_self (hr : r.old = r.new) (hlines : r.lines = 0) {program : List Stmt}
    (hfair : r.Fair) (h : Stmt.NamedAll r.Admits program)
    (hfaults : scopeFaults (analyse program) = []) :
    Stmt.TwinAll r (Paired r) .top [] program program := by
  have htwin := twinAll_down hr hfair h hfaults
  rwa [hlines, Stmt.map_relabel_down_zero] at htwin

end Down

theorem Respelling.fair_plain : plain.Fair :=
  ⟨by decide, by decide, fun h => absurd rfl h, fun h => absurd rfl h⟩

end Treewalk
