import Treewalk.Proofs.Grammar.RenderedForms
import Treewalk.Proofs.Lexing.Rescan
import Treewalk.Proofs.Session.Acceptance

/-!
# Rendered trees are uniquely readable

Trees that are rendered alike have the same parts, so they are of the same form, and their parts are
the renderings of trees again. By induction they are the same tree, up to node numbers and lines: all
other tokens of a program are either rendered or the only ones of their kind.

## Main results

* `Expr.unlined_eq_of_render`, `Stmt.unlined_eq_of_render` — trees that are rendered alike
* `Source.render_unique` — programs that are rendered alike
-/

namespace Treewalk

open Grammar

/-! ### Trees that are rendered alike -/

theorem Use.relabel_unlined_eq {use use' : Use} (h : use.token.unlined = use'.token.unlined) :
    use.relabel .unlined = use'.relabel .unlined :=
  congrArg (Use.mk 0) h

mutual

/-- Expressions that are rendered alike are the same up to node numbers and lines. -/
theorem Expr.unlined_eq_of_render {e e' : Expr} (h : e.Spelled) (h' : e'.Spelled)
    (hplain : e.Each NoString) (hplain' : e'.Each NoString) (heq : e.render = e'.render) :
    e.unlined = e'.unlined := by
  have hparts := (e.laid h hplain).parts_unique (e'.laid h' hplain') heq
  have hform : e.form? = e'.form? := by rw [← h.self.form?_eq, ← h'.self.form?_eq, hparts]
  match e with
  | .literal value =>
    cases e' with
    | literal value' => exact congrArg Expr.literal (Literal.eq_of_render h h' hplain hplain' heq)
    | this => exact absurd heq (Literal.render_ne_this h hplain)
    | _ => cases hform
  | .this use =>
    cases e' with
    | this use' =>
      have htoken := (Token.Spells.unlined_of_keyword h).trans
        (Token.Spells.unlined_of_keyword h').symm
      exact congrArg Expr.this (Use.relabel_unlined_eq htoken)
    | literal value' => exact absurd heq.symm (Literal.render_ne_this h' hplain')
    | _ => cases hform
  | .unary operator operand =>
    cases e' with
    | unary operator' operand' =>
      simp only [parts?, Option.some.injEq, List.cons.injEq, and_true] at hparts
      have htoken := h.1.unlined_eq h'.1 hparts.1
      have hoperand := Expr.unlined_eq_of_render h.2 h'.2 hplain.2 hplain'.2 hparts.2
      exact congrArg₂ Expr.unary htoken hoperand
    | _ => cases hform
  | .binary left operator right =>
    cases e' with
    | binary left' operator' right' =>
      simp only [parts?, Option.some.injEq, List.cons.injEq, and_true] at hparts
      obtain ⟨level, hlevel, -⟩ := h.1
      obtain ⟨level', hlevel', -⟩ := h'.1
      have htoken := hlevel.unlined_eq hlevel' hparts.1
      have hleft := Expr.unlined_eq_of_render h.2.1 h'.2.1 hplain.2.1 hplain'.2.1 hparts.2.1
      have hright := Expr.unlined_eq_of_render h.2.2 h'.2.2 hplain.2.2 hplain'.2.2 hparts.2.2
      show Expr.binary left.unlined operator.unlined right.unlined = _
      rw [hleft, htoken, hright]
      rfl
    | _ => cases hform
  | .logical left operator right =>
    cases e' with
    | logical left' operator' right' =>
      simp only [parts?, Option.some.injEq, List.cons.injEq, and_true] at hparts
      obtain ⟨_, hoperator⟩ : ∃ p, operator.Spells p := h.1.elim (⟨_, ·⟩) (⟨_, ·⟩)
      obtain ⟨_, hoperator'⟩ : ∃ p, operator'.Spells p := h'.1.elim (⟨_, ·⟩) (⟨_, ·⟩)
      have htoken := hoperator.unlined_eq hoperator' hparts.1
      have hleft := Expr.unlined_eq_of_render h.2.1 h'.2.1 hplain.2.1 hplain'.2.1 hparts.2.1
      have hright := Expr.unlined_eq_of_render h.2.2 h'.2.2 hplain.2.2 hplain'.2.2 hparts.2.2
      show Expr.logical left.unlined operator.unlined right.unlined = _
      rw [hleft, htoken, hright]
      rfl
    | _ => cases hform
  | .group inner =>
    cases e' with
    | group inner' =>
      simp only [parts?, Option.some.injEq, List.cons.injEq, true_and, and_true] at hparts
      have hinner := Expr.unlined_eq_of_render h.2 h'.2 hplain.2 hplain'.2 hparts
      exact congrArg Expr.group hinner
    | _ => cases hform
  | .variable use =>
    cases e' with
    | «variable» use' =>
      simp only [parts?, Option.some.injEq, List.cons.injEq, true_and, and_true] at hparts
      have htoken := Token.Spells.unlined_eq h h' hparts
      exact congrArg Expr.variable (Use.relabel_unlined_eq htoken)
    | _ => cases hform
  | .assign target value =>
    cases e' with
    | assign target' value' =>
      simp only [parts?, Option.some.injEq, List.cons.injEq, true_and, and_true] at hparts
      have htarget := Use.relabel_unlined_eq (h.1.unlined_eq h'.1 hparts.1)
      have hvalue := Expr.unlined_eq_of_render h.2 h'.2 hplain.2 hplain'.2 hparts.2
      exact congrArg₂ Expr.assign htarget hvalue
    | _ => cases hform
  | .call callee paren arguments =>
    cases e' with
    | call callee' paren' arguments' =>
      simp only [parts?, Option.some.injEq, List.cons.injEq, true_and] at hparts
      have hparen := h.1.unlined_of_symbol.trans h'.1.unlined_of_symbol.symm
      have hcallee := Expr.unlined_eq_of_render h.2.1 h'.2.1 hplain.2.1 hplain'.2.1 hparts.1
      have harguments :=
        Expr.relabelAll_eq_of_render h.2.2 h'.2.2 hplain.2.2 hplain'.2.2 hparts.2
      show Expr.call callee.unlined paren.unlined (Expr.relabelAll .unlined arguments) = _
      rw [hcallee, hparen, harguments]
      rfl
    | _ => cases hform
  | .property object name =>
    cases e' with
    | property object' name' =>
      simp only [parts?, Option.some.injEq, List.cons.injEq, true_and, and_true] at hparts
      have hobject := Expr.unlined_eq_of_render h.2 h'.2 hplain.2 hplain'.2 hparts.1
      exact congrArg₂ Expr.property hobject (h.1.unlined_eq h'.1 hparts.2)
    | _ => cases hform
  | .setProperty object name value =>
    cases e' with
    | setProperty object' name' value' =>
      simp only [parts?, Option.some.injEq, List.cons.injEq, true_and, and_true] at hparts
      have hobject := Expr.unlined_eq_of_render h.2.1 h'.2.1 hplain.2.1 hplain'.2.1 hparts.1
      have hname := h.1.unlined_eq h'.1 hparts.2.1
      have hvalue := Expr.unlined_eq_of_render h.2.2 h'.2.2 hplain.2.2 hplain'.2.2 hparts.2.2
      show Expr.setProperty object.unlined name.unlined value.unlined = _
      rw [hobject, hname, hvalue]
      rfl
    | _ => cases hform
  | .super use method =>
    cases e' with
    | super use' method' =>
      simp only [parts?, Option.some.injEq, List.cons.injEq, true_and, and_true] at hparts
      obtain ⟨huse, hmethod⟩ := h
      obtain ⟨huse', hmethod'⟩ := h'
      have htoken := huse.unlined_of_keyword.trans huse'.unlined_of_keyword.symm
      exact congrArg₂ Expr.super (Use.relabel_unlined_eq htoken)
        (hmethod.unlined_eq hmethod' hparts)
    | _ => cases hform

theorem Expr.relabelAll_eq_of_render {es es' : List Expr} (h : Expr.EachAll RootSpelled es)
    (h' : Expr.EachAll RootSpelled es') (hplain : Expr.EachAll NoString es)
    (hplain' : Expr.EachAll NoString es') (heq : Expr.renderAll es = Expr.renderAll es') :
    Expr.relabelAll .unlined es = Expr.relabelAll .unlined es' := by
  match es, es' with
  | [], [] => rfl
  | e :: rest, e' :: rest' =>
    obtain ⟨hfirst, hrest⟩ := List.cons.inj heq
    exact congrArg₂ List.cons
      (Expr.unlined_eq_of_render h.1 h'.1 hplain.1 hplain'.1 hfirst)
      (Expr.relabelAll_eq_of_render h.2 h'.2 hplain.2 hplain'.2 hrest)

end

/-- No routine is rendered as a word. -/
theorem Routine.renderAll_ne_cons {text : String} (h : IsWord text) (routines : List Routine)
    (rest : List String) : Routine.renderAll routines ≠ text :: rest := by
  cases routines with
  | nil => nofun
  | cons routine routines =>
    obtain ⟨name, parameters, body⟩ := routine
    intro heq
    exact h.ne_parenthesized _ (List.cons.inj heq).1.symm

theorem Token.map_unlined_eq {ts ts' : List Token} (h : ∀ t ∈ ts, t.Spells Token.isIdentifier)
    (h' : ∀ t ∈ ts', t.Spells Token.isIdentifier)
    (heq : ts.map Token.lexeme = ts'.map Token.lexeme) :
    ts.map Token.unlined = ts'.map Token.unlined := by
  induction ts generalizing ts' with
  | nil =>
    cases ts' with
    | nil => rfl
    | cons => cases heq
  | cons t rest ih =>
    cases ts' with
    | nil => cases heq
    | cons t' rest' =>
      obtain ⟨hfirst, hrest⟩ := List.cons.inj heq
      rw [List.forall_mem_cons] at h h'
      exact congrArg₂ List.cons (h.1.unlined_eq h'.1 hfirst) (ih h.2 h'.2 hrest)

mutual

/-- Statements that are rendered alike are the same up to node numbers and lines. -/
theorem Stmt.unlined_eq_of_render {s s' : Stmt} (h : s.Spelled) (h' : s'.Spelled)
    (hplain : s.Plain) (hplain' : s'.Plain) (heq : s.render = s'.render) :
    s.unlined = s'.unlined := by
  have hparts := (s.laid h hplain).parts_unique (s'.laid h' hplain') heq
  have hform : s.form? = s'.form? := by
    rw [← Stmt.form?_eq h hplain, ← Stmt.form?_eq h' hplain', hparts]
  match s with
  | .expression value =>
    cases s' with
    | expression value' =>
      exact congrArg Stmt.expression (Expr.unlined_eq_of_render h h' hplain hplain' heq)
    | _ => cases hform
  | .print value =>
    cases s' with
    | print value' =>
      simp only [Stmt.parts?, Option.some.injEq, List.cons.injEq, true_and, and_true] at hparts
      exact congrArg Stmt.print (Expr.unlined_eq_of_render h h' hplain hplain' hparts)
    | _ => cases hform
  | .var name none => exact hplain.elim
  | .var name (some value) =>
    cases s' with
    | var name' value' =>
      cases value' with
      | none => exact hplain'.elim
      | some value' =>
        simp only [Stmt.parts?, Option.some.injEq, List.cons.injEq, true_and, and_true] at hparts
        have hname := h.1.unlined_eq h'.1 hparts.1
        have hvalue := Expr.unlined_eq_of_render h.2 h'.2 hplain hplain' hparts.2
        exact congrArg₂ (fun name value => Stmt.var name (some value)) hname hvalue
    | _ => cases hform
  | .block body =>
    cases s' with
    | block body' =>
      simp only [Stmt.parts?, Option.some.injEq, List.cons.injEq, true_and] at hparts
      exact congrArg Stmt.block (Stmt.relabelAll_eq_of_render h h' hplain hplain' hparts)
    | _ => cases hform
  | .if condition branch none =>
    cases s' with
    | «if» condition' branch' other' =>
      cases other' with
      | none =>
        simp only [Stmt.parts?, Option.some.injEq, List.cons.injEq, true_and, and_true] at hparts
        have hcondition := Expr.unlined_eq_of_render h.1 h'.1 hplain.1 hplain'.1 hparts.1
        have hbranch := Stmt.unlined_eq_of_render h.2 h'.2 hplain.2 hplain'.2 hparts.2
        exact congrArg₂ (Stmt.if · · none) hcondition hbranch
      | some => simp [Stmt.parts?] at hparts
    | _ => cases hform
  | .if condition branch (some other) =>
    cases s' with
    | «if» condition' branch' other' =>
      cases other' with
      | none => simp [Stmt.parts?] at hparts
      | some other' =>
        simp only [Stmt.parts?, Option.some.injEq, List.cons.injEq, true_and, and_true] at hparts
        have hcondition := Expr.unlined_eq_of_render h.1 h'.1 hplain.1 hplain'.1 hparts.1
        have hbranch := Stmt.unlined_eq_of_render h.2.1 h'.2.1 hplain.2.1 hplain'.2.1 hparts.2.1
        have hother := Stmt.unlined_eq_of_render h.2.2 h'.2.2 hplain.2.2 hplain'.2.2 hparts.2.2
        show Stmt.if condition.unlined branch.unlined (some other.unlined) = _
        rw [hcondition, hbranch, hother]
        rfl
    | _ => cases hform
  | .while condition body =>
    cases s' with
    | «while» condition' body' =>
      simp only [Stmt.parts?, Option.some.injEq, List.cons.injEq, true_and, and_true] at hparts
      have hcondition := Expr.unlined_eq_of_render h.1 h'.1 hplain.1 hplain'.1 hparts.1
      have hbody := Stmt.unlined_eq_of_render h.2 h'.2 hplain.2 hplain'.2 hparts.2
      exact congrArg₂ Stmt.while hcondition hbody
    | _ => cases hform
  | .function routine =>
    cases s' with
    | function routine' =>
      exact congrArg Stmt.function (Routine.unlined_eq_of_render h h' hplain hplain' heq)
    | _ => cases hform
  | .return keyword none =>
    cases s' with
    | «return» keyword' value' =>
      cases value' with
      | none =>
        have hkeyword := (Token.Spells.unlined_of_keyword h).trans
          (Token.Spells.unlined_of_keyword h').symm
        exact congrArg (Stmt.return · none) hkeyword
      | some => cases hparts
    | _ => cases hform
  | .return keyword (some value) =>
    cases s' with
    | «return» keyword' value' =>
      cases value' with
      | none => cases hparts
      | some value' =>
        simp only [Stmt.parts?, Option.some.injEq, List.cons.injEq, true_and, and_true] at hparts
        have hkeyword := h.1.unlined_of_keyword.trans h'.1.unlined_of_keyword.symm
        have hvalue := Expr.unlined_eq_of_render h.2 h'.2 hplain hplain' hparts
        exact congrArg₂ (fun keyword value => Stmt.return keyword (some value)) hkeyword hvalue
    | _ => cases hform
  | .class name none methods =>
    cases s' with
    | «class» name' superclass' methods' =>
      cases superclass' with
      | none =>
        simp only [Stmt.parts?, Option.some.injEq, List.cons.injEq, true_and] at hparts
        have hname := h.1.unlined_eq h'.1 hparts.1
        have hmethods :=
          Routine.relabelAll_eq_of_render h.2.2 h'.2.2 hplain hplain' hparts.2
        exact congrArg₂ (Stmt.class · none ·) hname hmethods
      | some superclass' =>
        simp only [Stmt.parts?, Option.some.injEq, List.cons.injEq, true_and] at hparts
        exact absurd hparts.2 (Routine.renderAll_ne_cons (by decide) _ _)
    | _ => cases hform
  | .class name (some superclass) methods =>
    cases s' with
    | «class» name' superclass' methods' =>
      cases superclass' with
      | none =>
        simp only [Stmt.parts?, Option.some.injEq, List.cons.injEq, true_and] at hparts
        exact absurd hparts.2.symm (Routine.renderAll_ne_cons (by decide) _ _)
      | some superclass' =>
        simp only [Stmt.parts?, Option.some.injEq, List.cons.injEq, true_and] at hparts
        have hname := h.1.unlined_eq h'.1 hparts.1
        have hsuperclass := Use.relabel_unlined_eq
          ((h.2.1 superclass rfl).unlined_eq (h'.2.1 superclass' rfl) hparts.2.1)
        have hmethods :=
          Routine.relabelAll_eq_of_render h.2.2 h'.2.2 hplain hplain' hparts.2.2
        show Stmt.class name.unlined (some (superclass.relabel .unlined))
          (Routine.relabelAll .unlined methods) = _
        rw [hname, hsuperclass, hmethods]
        rfl
    | _ => cases hform

theorem Stmt.relabelAll_eq_of_render {ss ss' : List Stmt} (h : Stmt.SpelledAll ss)
    (h' : Stmt.SpelledAll ss') (hplain : Stmt.PlainAll ss) (hplain' : Stmt.PlainAll ss')
    (heq : Stmt.renderAll ss = Stmt.renderAll ss') :
    Stmt.relabelAll .unlined ss = Stmt.relabelAll .unlined ss' := by
  match ss, ss' with
  | [], [] => rfl
  | s :: rest, s' :: rest' =>
    obtain ⟨hfirst, hrest⟩ := List.cons.inj heq
    exact congrArg₂ List.cons
      (Stmt.unlined_eq_of_render h.1 h'.1 hplain.1 hplain'.1 hfirst)
      (Stmt.relabelAll_eq_of_render h.2 h'.2 hplain.2 hplain'.2 hrest)

theorem Routine.unlined_eq_of_render {routine routine' : Routine} (h : routine.Spelled)
    (h' : routine'.Spelled) (hplain : routine.Plain) (hplain' : routine'.Plain)
    (heq : routine.render = routine'.render) : routine.unlined = routine'.unlined := by
  have hparts := Option.some.inj
    ((routine.laid h hplain).parts_unique (routine'.laid h' hplain') heq)
  match routine, routine' with
  | ⟨name, parameters, body⟩, ⟨name', parameters', body'⟩ =>
    simp only [Routine.parts, List.cons.injEq, true_and] at hparts
    obtain ⟨hlexeme, hlist, hbody⟩ := hparts
    have hname := h.1.unlined_eq h'.1 hlexeme
    have hparameters := Token.map_unlined_eq h.2.1 h'.2.1 (parenthesized_inj
      (List.forall_mem_map.2 fun t ht => .word (h.2.1 t ht).isWord)
      (List.forall_mem_map.2 fun t ht => .word (h'.2.1 t ht).isWord) hlist)
    have hbody := Stmt.relabelAll_eq_of_render h.2.2 h'.2.2 hplain hplain' hbody
    show Routine.mk name.unlined (parameters.map Token.unlined)
      (Stmt.relabelAll .unlined body) = _
    rw [hname, hparameters, hbody]
    rfl

theorem Routine.relabelAll_eq_of_render {routines routines' : List Routine}
    (h : Routine.SpelledAll routines) (h' : Routine.SpelledAll routines')
    (hplain : Routine.PlainAll routines) (hplain' : Routine.PlainAll routines')
    (heq : Routine.renderAll routines = Routine.renderAll routines') :
    Routine.relabelAll .unlined routines = Routine.relabelAll .unlined routines' := by
  match routines, routines' with
  | [], [] => rfl
  | r :: rest, r' :: rest' =>
    obtain ⟨hfirst, hrest⟩ := List.cons.inj heq
    exact congrArg₂ List.cons
      (Routine.unlined_eq_of_render h.1 h'.1 hplain.1 hplain'.1 hfirst)
      (Routine.relabelAll_eq_of_render h.2 h'.2 hplain.2 hplain'.2 hrest)

end

/-! ### Programs that are rendered alike -/

theorem Stmt.renderAll_eq_map (ss : List Stmt) : Stmt.renderAll ss = ss.map Stmt.render := by
  induction ss with
  | nil => rfl
  | cons s rest ih => rw [renderAll, ih, List.map_cons]

namespace Source

/-- All tokens of the tree of a program are those of its text. -/
theorem spelledAll_of_parse {source : String} {firstId : NodeId} {ss : List Stmt}
    (h : (parse source firstId).result = .ok ss) : Stmt.SpelledAll ss :=
  (derives_of_parse (parse_result_eq_ok_iff.1 h).2).spelled fun _ ht => lexeme_of_mem_content ht

/-- **Renderings are uniquely readable.** Two programs without strings, in which every variable has
an initializer, are the same up to node numbers and lines if their statements are rendered alike. -/
theorem render_unique {source source' : String} {firstId firstId' : NodeId} {ss ss' : List Stmt}
    (h : (parse source firstId).result = .ok ss) (h' : (parse source' firstId').result = .ok ss')
    (hplain : Stmt.PlainAll ss) (hplain' : Stmt.PlainAll ss')
    (heq : ss.map Stmt.render = ss'.map Stmt.render) :
    ss.map Stmt.unlined = ss'.map Stmt.unlined := by
  rw [← Stmt.renderAll_eq_map, ← Stmt.renderAll_eq_map] at heq
  have htrees := Stmt.relabelAll_eq_of_render (spelledAll_of_parse h) (spelledAll_of_parse h')
    hplain hplain' heq
  rwa [Stmt.relabelAll_eq_map, Stmt.relabelAll_eq_map] at htrees

/-- The tree of a call with its parts on these lines. -/
def callProgram (id : NodeId) (line line' : Nat) : List Stmt :=
  [.expression (.call (.variable ⟨id, ⟨.identifier, "f", line⟩⟩)
    ⟨.symbol .rightParen, ")", line'⟩ [.variable ⟨id + 1, ⟨.identifier, "x", line'⟩⟩])]

/-- The same call with other lines and node numbers. -/
theorem render_unique_call :
    (parse "f(x);" 0).result = .ok (callProgram 0 1 1) ∧
      (parse "f\n( x );" 7).result = .ok (callProgram 7 1 2) ∧
      (callProgram 0 1 1).map Stmt.unlined = (callProgram 7 1 2).map Stmt.unlined := by
  have h : (parse "f(x);" 0).result = .ok (callProgram 0 1 1) := by cbv
  have h' : (parse "f\n( x );" 7).result = .ok (callProgram 7 1 2) := by cbv
  exact ⟨h, h', render_unique h h' ⟨⟨trivial, trivial, trivial, trivial⟩, trivial⟩
    ⟨⟨trivial, trivial, trivial, trivial⟩, trivial⟩ rfl⟩

end Source

end Treewalk
