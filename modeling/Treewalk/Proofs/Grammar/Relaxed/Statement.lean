import Treewalk.Proofs.Grammar.Relaxed.Expression

/-!
# Every relaxed program is read

The reader of a phrase takes the tokens of any phrase of its kind in which every `else` belongs to
the nearest `if`, gives the tree of that phrase up to its node numbers, and notes down the faults in
it. Behind an open statement no `else` may stand, since the reader would take it.

## Main definitions

* `Relaxed.StmtComplete` — what the reader of a phrase does with its tokens

## Main results

* `Relaxed.statement_complete` — every phrase of a program is read
* `Relaxed.program_notes` — the same for programs
-/

namespace Treewalk.Grammar

variable {w r : List Token}

/-! ### Behind a statement -/

theorem Ends.of_isSymbol {n : Nat} {t : Token} {s : Symbol} (h : t.isSymbol s)
    (hs : reach ⟨.symbol s, "", 0⟩ < n) : Ends n (t :: r) :=
  .cons (by rw [reach_of_isSymbol h]; exact hs)

/-- No `else` comes next. -/
def NoElse (r : List Token) : Prop := ∀ t ∈ r.head?, t.isKeyword .else = false

theorem NoElse.nil : NoElse [] := by simp [NoElse]

theorem NoElse.of_isSymbol {t : Token} {s : Symbol} (h : t.isSymbol s) : NoElse (t :: r) := by
  intro t' ht
  obtain rfl := Option.some.inj ht
  simp_all [Token.isSymbol, Token.isKeyword]

theorem NoElse.of_startsDeclaration {t : Token} (h : startsDeclaration t) : NoElse (t :: r) := by
  intro t' ht
  obtain rfl := Option.some.inj ht
  exact isKeyword_eq_false (fun _ => rfl) h rfl

/-! ### Parts without an expression inside -/

theorem classHeader_accepts {name left : Token} {superclass : Option Use}
    (hname : name.isIdentifier) (h : SuperclassClause w superclass)
    (hleft : left.isSymbol .leftBrace) :
    Accepts classHeader (name :: (w ++ [left])) r fun a => a.1 = name ∧
      a.2.map (·.relabel .eraseIds) = superclass.map (·.relabel .eraseIds) := by
  rw [classHeader_eq]
  refine (Accepts.expectName hname).bind_cons ?_
  rintro _ rfl
  refine Accepts.bind (P := fun a =>
    a.map (·.relabel .eraseIds) = superclass.map (·.relabel .eraseIds)) ?_ ?_
  · cases h with
    | none =>
      refine (Accepts.takeIf?_none_cons ?_).bind_nil fun o ho => ?_
      · exact isSymbol_eq_false (p := (·.isSymbol .leftBrace)) (fun _ => rfl) hleft rfl
      · subst ho
        exact .pure rfl
    | some hless hname =>
      refine (Accepts.takeIf?_some hless).bind_cons fun o ho => ?_
      subst ho
      refine (Accepts.expectName hname).bind_cons ?_
      rintro _ rfl
      exact Accepts.freshId.bind_pure fun _ _ => rfl
  · intro a ha
    exact (Accepts.expect hleft).bind_pure fun _ _ => ⟨rfl, ha⟩

namespace Relaxed

/-! ### In front of a statement -/

theorem ExpressionStatement.exists_head {s : Stmt} {F : Multiset Diagnostic}
    (h : ExpressionStatement w s F) : ∃ t w', w = t :: w' ∧ startsExpression t := by
  obtain ⟨hvalue, hsemicolon⟩ := h
  obtain ⟨t, w', rfl, ht⟩ := hvalue.exists_head id
  exact ⟨t, _, rfl, ht⟩

theorem statement_exists_head {rule : ElseRule} {isOpen : Bool} {s : Stmt}
    {F : Multiset Diagnostic} (h : StmtDerives rule (.statement isOpen) w s F) :
    ∃ t w', w = t :: w' ∧ startsBody t := by
  cases h with
  | braces h =>
    cases h with
    | block hleft hbody hright => exact ⟨_, _, rfl, of_isSymbol (fun _ => rfl) hleft rfl⟩
  | expression h =>
    obtain ⟨t, w', rfl, ht⟩ := h.exists_head
    exact ⟨t, w', rfl, by rw [startsBody, ht, Bool.true_or]⟩
  | print h | «return» h | «while» h | «for» h | ifThen h | ifElse h =>
    exact ⟨_, _, rfl, of_isKeyword (fun _ => rfl) h rfl⟩

theorem declaration_exists_head {rule : ElseRule} {s : Stmt} {F : Multiset Diagnostic}
    (h : StmtDerives rule .declaration w s F) : ∃ t w', w = t :: w' ∧ startsDeclaration t := by
  cases h with
  | «class» h | function h => exact ⟨_, _, rfl, of_isKeyword (fun _ => rfl) h rfl⟩
  | «variable» h => obtain ⟨h⟩ | ⟨h⟩ := h <;> exact ⟨_, _, rfl, of_isKeyword (fun _ => rfl) h rfl⟩
  | statement h =>
    obtain ⟨t, w', rfl, ht⟩ := statement_exists_head h
    exact ⟨t, w', rfl, startsDeclaration_of_startsBody ht⟩

/-- Behind a declaration stands another one, or what stands behind the declarations. -/
theorem StmtDerives.noElse {rule : ElseRule} {ss : List Stmt} {F : Multiset Diagnostic}
    (h : StmtDerives rule .declarations w ss F) (hr : NoElse r) : NoElse (w ++ r) := by
  cases h with
  | noDeclaration => exact hr
  | declaration h hrest =>
    obtain ⟨t, w', rfl, ht⟩ := declaration_exists_head h
    exact .of_startsDeclaration ht

/-! ### Parts of statements -/

/-- A variable declaration behind its keyword. -/
theorem varDeclaration_notes {s : Stmt} {F : Multiset Diagnostic}
    (h : VariableDeclaration w s F) :
    ∃ t w', w = t :: w' ∧ t.isKeyword .var ∧ ∀ fuel r, 16 * w'.length ≤ fuel + 6 →
      Notes (varDeclaration fuel) w' r F fun a => a.eraseIds = s.eraseIds := by
  cases h with
  | plain hvar hname hsemicolon =>
    refine ⟨_, _, rfl, hvar, fun fuel r hfuel => ?_⟩
    rw [varDeclaration_eq]
    refine (Accepts.expectName hname).bind_cons_notes ?_
    rintro _ rfl
    refine Accepts.bind_nil_notes (P := (· = none)) ?_ ?_
    · refine (Accepts.takeIf?_none_cons ?_).bind_nil fun o ho => ?_
      · exact isSymbol_eq_false (p := (·.isSymbol .semicolon)) (fun _ => rfl) hsemicolon rfl
      · subst ho
        exact .pure rfl
    · rintro _ rfl
      exact Accepts.notes ((Accepts.expect hsemicolon).bind_pure fun _ _ => rfl)
  | @initialized var name equals semicolon w value F hvar hname hequals hvalue hsemicolon =>
    refine ⟨_, _, rfl, hvar, fun fuel r hfuel => ?_⟩
    simp only [List.length_cons, List.length_append, List.length_nil] at hfuel
    rw [varDeclaration_eq]
    refine (Accepts.expectName hname).bind_cons_notes ?_
    rintro _ rfl
    rw [← List.cons_append]
    refine Notes.bind_accepts (P := fun o => o.map Expr.eraseIds = some value.eraseIds) ?_ ?_
    · refine (Accepts.takeIf?_some hequals).bind_cons_notes fun o ho => ?_
      subst ho
      refine (expression_notes hvalue (by omega) (.of_isSymbol hsemicolon (by decide))).map ?_
      intro a ha
      exact congrArg some ha
    · intro o ho
      exact (Accepts.expect hsemicolon).bind_pure fun _ _ => congrArg (Stmt.var _) ho

theorem expressionStatement_notes {s : Stmt} {F : Multiset Diagnostic}
    (h : ExpressionStatement w s F) {fuel : Nat} (hfuel : 16 * w.length ≤ fuel + 6) :
    Notes (expressionStatement fuel) w r F fun a => a.eraseIds = s.eraseIds := by
  obtain ⟨hvalue, hsemicolon⟩ := h
  rw [List.length_append, List.length_singleton] at hfuel
  refine (expression_notes hvalue (by omega) (.of_isSymbol hsemicolon (by decide))).bind_accepts ?_
  intro a ha
  exact (Accepts.expect hsemicolon).bind_pure fun _ _ => congrArg Stmt.expression ha

theorem optionalExpression_notes {o : Option Expr} {s : Symbol} {fuel : Nat} {t : Token}
    {F : Multiset Diagnostic} (h : OptionalExpression w o F) (ht : t.isSymbol s)
    (hs : startsExpression ⟨.symbol s, "", 0⟩ = false) (hreach : reach ⟨.symbol s, "", 0⟩ = 0)
    (hfuel : 16 * w.length + 10 ≤ fuel) :
    Notes (optionalUnless s (expression fuel)) w (t :: r) F fun a =>
      a.map Expr.eraseIds = o.map Expr.eraseIds := by
  cases h with
  | none => exact ((Accepts.optionalUnless_none ht rfl).mono fun a ha => ha ▸ rfl).notes
  | some h =>
    have hends : Ends 1 (t :: r) := .of_isSymbol ht (by rw [hreach]; exact Nat.one_pos)
    obtain ⟨t', w', rfl, ht'⟩ := h.exists_head id
    refine (Notes.optionalUnless_some ?_ (expression_notes h hfuel hends)).mono ?_
    · exact isSymbol_eq_false (fun _ => rfl) ht' hs
    · rintro _ ⟨a, rfl, ha⟩
      exact congrArg some ha

theorem loopInitializer_notes {o : Option Stmt} {fuel : Nat} {F : Multiset Diagnostic}
    (h : LoopInitializer w o F) (hfuel : 16 * w.length ≤ fuel + 6) :
    Notes (loopInitializer fuel) w r F fun a => a.map Stmt.eraseIds = o.map Stmt.eraseIds := by
  cases h with
  | none h =>
    refine Accepts.notes ((Accepts.takeIf?_some h).bind_cons fun o ho => ?_)
    subst ho
    exact .pure rfl
  | @«variable» _ s _ h =>
    obtain ⟨t, w', rfl, ht, hnotes⟩ := varDeclaration_notes h
    rw [List.length_cons] at hfuel
    refine (Accepts.takeIf?_none_cons ?_).bind_nil_notes fun o ho => ?_
    · exact isSymbol_eq_false (p := (·.isKeyword .var)) (fun _ => rfl) ht rfl
    · subst ho
      refine (Accepts.takeIf?_some ht).bind_cons_notes fun o ho => ?_
      subst ho
      exact (hnotes fuel r (by omega)).map fun a ha => congrArg some ha
  | @expression _ s _ h =>
    obtain ⟨t, w', rfl, ht⟩ := h.exists_head
    refine (Accepts.takeIf?_none_cons ?_).bind_nil_notes fun o ho => ?_
    · exact isSymbol_eq_false (fun _ => rfl) ht rfl
    · subst ho
      refine (Accepts.takeIf?_none_cons ?_).bind_nil_notes fun o ho => ?_
      · exact isKeyword_eq_false (fun _ => rfl) ht rfl
      · subst ho
        exact (expressionStatement_notes h hfuel).map fun a ha => congrArg some ha

theorem loopClauses_notes {left right : Token} {clauses : LoopClauses} {fuel : Nat}
    {F : Multiset Diagnostic} (hleft : left.isSymbol .leftParen) (h : LoopHeader w clauses F)
    (hright : right.isSymbol .rightParen) (hfuel : 16 * w.length ≤ fuel + 6) :
    Notes (loopClauses fuel) (left :: (w ++ [right])) r F fun a =>
      a.relabel .eraseIds = clauses.relabel .eraseIds := by
  obtain ⟨hinitializer, hcondition, hsemicolon, hincrement⟩ := h
  simp only [List.length_append, List.length_cons] at hfuel
  rw [loopClauses_eq, List.append_assoc, List.append_assoc, add_assoc]
  refine (Accepts.expect hleft).bind_cons_notes fun _ _ => ?_
  refine (loopInitializer_notes hinitializer (by omega)).bind fun a ha => ?_
  refine (optionalExpression_notes hcondition hsemicolon rfl rfl (by omega)).bind fun b hb => ?_
  refine (Accepts.expect hsemicolon).bind_cons_notes fun _ _ => ?_
  refine (optionalExpression_notes hincrement hright rfl rfl (by omega)).bind_accepts
    fun c hc => ?_
  refine (Accepts.expect hright).bind_pure fun _ _ => ?_
  exact LoopClauses.mk.injEq .. ▸ ⟨ha, hb, hc⟩

theorem parameters_notes {names : List Token} (h : ParameterNames w names) (fuel count : Nat)
    (hfuel : w.length + 1 ≤ fuel) (hr : ∀ t ∈ r.head?, t.isSymbol .comma = false) :
    Notes (parameters fuel count) w r (excess count .tooManyParameters names) (· = names) := by
  induction h generalizing fuel count with
  | last h =>
    rw [List.length_singleton] at hfuel
    obtain ⟨fuel, rfl⟩ := Nat.exists_eq_succ_of_ne_zero (n := fuel) (by omega)
    rw [parameters_succ, excess_cons, excess_nil]
    refine (Notes.noteCount rfl).bind_nil fun _ _ => Accepts.notes ?_
    refine (Accepts.expectName h).bind_cons ?_
    rintro _ rfl
    refine (Accepts.takeIf?_none hr).bind_nil fun o ho => ?_
    subst ho
    exact .pure rfl
  | cons h hcomma hrest ih =>
    rw [List.length_cons, List.length_cons] at hfuel
    obtain ⟨fuel, rfl⟩ := Nat.exists_eq_succ_of_ne_zero (n := fuel) (by omega)
    rw [parameters_succ, excess_cons]
    refine (Notes.noteCount rfl).bind_nil fun _ _ => ?_
    refine (Accepts.expectName h).bind_cons_notes ?_
    rintro _ rfl
    refine (Accepts.takeIf?_some hcomma).bind_cons_notes fun o ho => ?_
    subst ho
    exact (ih fuel (count + 1) (by omega)).bind_pure fun names hn => hn ▸ rfl

/-- The brace that a signature ends with is the first token of the body. -/
theorem signature_notes {kind : RoutineKind} {name left right brace : Token}
    {parameters : List Token} {fuel : Nat} {F : Multiset Diagnostic} (hname : name.isIdentifier)
    (hleft : left.isSymbol .leftParen) (h : ParameterList w parameters F)
    (hright : right.isSymbol .rightParen) (hbrace : brace.isSymbol .leftBrace)
    (hfuel : w.length + 1 ≤ fuel) :
    Notes (signature fuel kind) (name :: left :: (w ++ [right, brace])) r F
      (· = (name, parameters)) := by
  rw [signature_eq]
  refine (Accepts.expectName hname).bind_cons_notes ?_
  rintro _ rfl
  refine (Accepts.expect hleft).bind_cons_notes fun _ _ =>
    Notes.bind_accepts (P := (· = parameters)) ?_ ?_
  · cases h with
    | empty => exact (Accepts.listUnless_nil hright rfl).notes
    | names h =>
      refine .listUnless_of ?_ (parameters_notes h fuel 0 hfuel ?_)
      · cases h <;> simp_all [Token.isSymbol, Token.isIdentifier]
      · intro t ht
        obtain rfl := Option.some.inj ht
        simp_all [Token.isSymbol]
  · rintro _ rfl
    exact (Accepts.expect hright).bind_cons fun _ _ =>
      (Accepts.expect hbrace).bind_pure fun _ _ => rfl

/-! ### Phrases -/

/-- What the reader of a phrase does with its tokens. The reader of a block starts behind the
brace. -/
def StmtComplete : (p : StmtPhrase) → List Token → p.Tree → Multiset Diagnostic → Prop
  | .declaration, w, s, F => ∀ fuel r, 32 * w.length ≤ fuel + 4 → NoElse r →
    Notes (Grammar.declaration fuel) w r F fun o => o.map Stmt.eraseIds = some s.eraseIds
  | .declarations, w, ss, F =>
    (∀ fuel right r, 32 * w.length + 1 ≤ fuel → right.isSymbol .rightBrace →
      Notes (Grammar.declarations fuel) w (right :: r) F fun as =>
        as.map Stmt.eraseIds = ss.map Stmt.eraseIds) ∧
    ∀ fuel, 32 * w.length + 1 ≤ fuel →
      Notes (program fuel) w [] F fun as => as.map Stmt.eraseIds = ss.map Stmt.eraseIds
  | .statement isOpen, w, s, F => ∀ fuel r, 32 * w.length ≤ fuel + 8 → (isOpen → NoElse r) →
    Notes (Grammar.statement fuel) w r F fun a => a.eraseIds = s.eraseIds
  | .block, w, ss, F => ∃ left w', w = left :: w' ∧ left.isSymbol .leftBrace ∧
    ∀ fuel r, 32 * w.length ≤ fuel + 16 →
      Notes (Grammar.block fuel) w' r F fun as => as.map Stmt.eraseIds = ss.map Stmt.eraseIds
  | .routine, w, target, F => ∀ fuel kind r, 32 * w.length ≤ fuel + 4 →
    Notes (Grammar.routine fuel kind) w r F fun a => a.eraseIds = target.eraseIds
  | .methods, w, rs, F => ∀ fuel right r, 32 * w.length + 1 ≤ fuel → right.isSymbol .rightBrace →
    Notes (Grammar.methods fuel) w (right :: r) F fun as =>
      as.map Routine.eraseIds = rs.map Routine.eraseIds

namespace StmtComplete

variable {rule : ElseRule} {F F₁ F₂ F₃ : Multiset Diagnostic}

theorem noDeclaration : StmtComplete .declarations [] [] 0 := by
  refine ⟨fun fuel right r hfuel hright => ?_, fun fuel hfuel => ?_⟩
  · obtain ⟨fuel, rfl⟩ := Nat.exists_eq_succ_of_ne_zero (n := fuel) (by omega)
    unfold declarations
    refine (Accepts.nextIs.bind_nil fun b hb => Accepts.atEnd.bind_nil fun b' hb' => ?_).notes
    obtain rfl : b = true := by simpa [hright] using hb
    exact .pure rfl
  · obtain ⟨fuel, rfl⟩ := Nat.exists_eq_succ_of_ne_zero (n := fuel) (by omega)
    unfold program
    refine (Accepts.atEnd.bind_nil fun b hb => ?_).notes
    subst hb
    exact .pure rfl

theorem declaration {w₁ w₂ : List Token} {s : Stmt} {rest : List Stmt}
    (h : StmtDerives rule .declaration w₁ s F₁) (hrest : StmtDerives rule .declarations w₂ rest F₂)
    (ih : StmtComplete .declaration w₁ s F₁) (ihrest : StmtComplete .declarations w₂ rest F₂) :
    StmtComplete .declarations (w₁ ++ w₂) (s :: rest) (F₁ + F₂) := by
  obtain ⟨t, w₁, rfl, ht⟩ := declaration_exists_head h
  refine ⟨fun fuel right r hfuel hright => ?_, fun fuel hfuel => ?_⟩ <;>
    simp only [List.length_append, List.length_cons] at hfuel <;>
    obtain ⟨fuel, rfl⟩ := Nat.exists_eq_succ_of_ne_zero (n := fuel) (by omega)
  · unfold declarations
    refine Accepts.nextIs.bind_nil_notes fun b hb => Accepts.atEnd.bind_nil_notes fun b' hb' => ?_
    obtain rfl : b = false := hb.trans (isSymbol_eq_false (fun _ => rfl) ht rfl)
    subst hb'
    refine (ih fuel _ ?_ (hrest.noElse (.of_isSymbol hright))).bind fun o ho => ?_
    · rw [List.length_cons]
      omega
    · obtain ⟨a, rfl, ha⟩ := Option.map_eq_some_iff.1 ho
      refine (ihrest.1 fuel right r (by omega) hright).bind_pure fun as has => ?_
      exact congrArg₂ List.cons ha has
  · unfold program
    refine Accepts.atEnd.bind_nil_notes fun b hb => ?_
    subst hb
    refine (ih fuel _ ?_ (hrest.noElse .nil)).bind fun o ho => ?_
    · rw [List.length_cons]
      omega
    · obtain ⟨a, rfl, ha⟩ := Option.map_eq_some_iff.1 ho
      refine (ihrest.2 fuel (by omega)).bind_pure fun as has => ?_
      exact congrArg₂ List.cons ha has

theorem recover {read : Reading Stmt} {s : Stmt}
    (h : Notes read w r F fun a => a.eraseIds = s.eraseIds) :
    Notes (recover read) w r F fun o => o.map Stmt.eraseIds = some s.eraseIds := by
  refine (Notes.recover h).mono fun o ho => ?_
  obtain ⟨a, rfl, ha⟩ := ho
  exact congrArg some ha

theorem «class» {t name left right : Token} {w₁ w₂ : List Token} {superclass : Option Use}
    {methods : List Routine} (h : t.isKeyword .class) (hname : name.isIdentifier)
    (hsuperclass : SuperclassClause w₁ superclass) (hleft : left.isSymbol .leftBrace)
    (hright : right.isSymbol .rightBrace) (ih : StmtComplete .methods w₂ methods F) :
    StmtComplete .declaration (t :: name :: (w₁ ++ left :: (w₂ ++ [right])))
      (.class name superclass methods) F := by
  intro fuel r hfuel hr
  simp only [List.length_cons, List.length_append, List.length_nil] at hfuel
  obtain ⟨fuel, rfl⟩ := Nat.exists_eq_succ_of_ne_zero (n := fuel) (by omega)
  unfold Grammar.declaration
  refine recover ((Accepts.takeIf?_some h).bind_cons_notes fun o ho => ?_)
  subst ho
  rw [show name :: (w₁ ++ left :: (w₂ ++ [right])) = name :: (w₁ ++ [left]) ++ (w₂ ++ [right])
    by simp]
  refine (classHeader_accepts hname hsuperclass hleft).bind_notes fun a ha => ?_
  obtain ⟨name', superclass'⟩ := a
  obtain ⟨rfl, hs⟩ := ha
  refine (ih fuel right r (by omega) hright).bind_accepts fun methods' hm => ?_
  refine (Accepts.expect hright).bind_pure fun _ _ => ?_
  simp only [Stmt.eraseIds, Stmt.relabel, Routine.relabelAll_eq_map]
  exact congrArg₂ (Stmt.class _) hs hm

theorem function {t : Token} {routine : Routine} (h : t.isKeyword .fun)
    (ih : StmtComplete .routine w routine F) :
    StmtComplete .declaration (t :: w) (.function routine) F := by
  intro fuel r hfuel hr
  rw [List.length_cons] at hfuel
  obtain ⟨fuel, rfl⟩ := Nat.exists_eq_succ_of_ne_zero (n := fuel) (by omega)
  unfold Grammar.declaration
  refine recover ((Accepts.takeIf?_none_cons ?_).bind_nil_notes fun o ho => ?_)
  · exact isKeyword_eq_false (p := (·.isKeyword .fun)) (fun _ => rfl) h rfl
  subst ho
  refine (Accepts.takeIf?_some h).bind_cons_notes fun o ho => ?_
  subst ho
  exact (ih fuel .function r (by omega)).bind_pure fun a ha => congrArg Stmt.function ha

theorem «variable» {s : Stmt} (h : VariableDeclaration w s F) :
    StmtComplete .declaration w s F := by
  intro fuel r hfuel hr
  obtain ⟨t, w, rfl, ht, hnotes⟩ := varDeclaration_notes h
  rw [List.length_cons] at hfuel
  obtain ⟨fuel, rfl⟩ := Nat.exists_eq_succ_of_ne_zero (n := fuel) (by omega)
  have hne {k : Keyword} (hk : k ≠ .var) : t.isKeyword k = false :=
    isKeyword_eq_false (p := (·.isKeyword .var)) (fun _ => rfl) ht (by simpa [Token.isKeyword])
  unfold Grammar.declaration
  refine recover ((Accepts.takeIf?_none_cons (hne (by decide))).bind_nil_notes fun o ho => ?_)
  subst ho
  refine (Accepts.takeIf?_none_cons (hne (by decide))).bind_nil_notes fun o ho => ?_
  subst ho
  refine (Accepts.takeIf?_some ht).bind_cons_notes fun o ho => ?_
  subst ho
  exact hnotes fuel r (by omega)

theorem statement {isOpen : Bool} {s : Stmt} (h : StmtDerives rule (.statement isOpen) w s F)
    (ih : StmtComplete (.statement isOpen) w s F) : StmtComplete .declaration w s F := by
  intro fuel r hfuel hr
  obtain ⟨t, w, rfl, ht⟩ := statement_exists_head h
  rw [List.length_cons] at hfuel
  obtain ⟨fuel, rfl⟩ := Nat.exists_eq_succ_of_ne_zero (n := fuel) (by omega)
  have hne {k : Keyword} (hk : startsBody ⟨.keyword k, "", 0⟩ = false) : t.isKeyword k = false :=
    isKeyword_eq_false (fun _ => rfl) ht hk
  unfold Grammar.declaration
  refine recover ((Accepts.takeIf?_none_cons (hne rfl)).bind_nil_notes fun o ho => ?_)
  subst ho
  refine (Accepts.takeIf?_none_cons (hne rfl)).bind_nil_notes fun o ho => ?_
  subst ho
  refine (Accepts.takeIf?_none_cons (hne rfl)).bind_nil_notes fun o ho => ?_
  subst ho
  exact ih fuel r (by rw [List.length_cons]; omega) fun _ => hr

theorem noMethod : StmtComplete .methods [] [] 0 := by
  intro fuel right r hfuel hright
  obtain ⟨fuel, rfl⟩ := Nat.exists_eq_succ_of_ne_zero (n := fuel) (by omega)
  unfold methods
  refine (Accepts.nextIs.bind_nil fun b hb => Accepts.atEnd.bind_nil fun b' hb' => ?_).notes
  obtain rfl : b = true := by simpa [hright] using hb
  exact .pure rfl

theorem method {w₁ w₂ : List Token} {target : Routine} {rest : List Routine}
    (h : StmtDerives rule .routine w₁ target F₁) (ih : StmtComplete .routine w₁ target F₁)
    (ihrest : StmtComplete .methods w₂ rest F₂) :
    StmtComplete .methods (w₁ ++ w₂) (target :: rest) (F₁ + F₂) := by
  intro fuel right r hfuel hright
  obtain ⟨t, w₁, rfl, ht⟩ : ∃ t w', w₁ = t :: w' ∧ t.isIdentifier := by
    cases h with
    | routine hname => exact ⟨_, _, rfl, hname⟩
  simp only [List.length_append, List.length_cons] at hfuel
  obtain ⟨fuel, rfl⟩ := Nat.exists_eq_succ_of_ne_zero (n := fuel) (by omega)
  unfold methods
  refine Accepts.nextIs.bind_nil_notes fun b hb => Accepts.atEnd.bind_nil_notes fun b' hb' => ?_
  obtain rfl : b = false := by
    refine hb.trans (decide_eq_false ?_)
    rw [of_decide_eq_true ht]
    exact Kind.noConfusion
  subst hb'
  refine (ih fuel .method _ ?_).bind fun a ha => ?_
  · rw [List.length_cons]
    omega
  · refine (ihrest fuel right r (by omega) hright).bind_pure fun as has => ?_
    exact congrArg₂ List.cons ha has

theorem routine {name left right : Token} {w₁ w₂ parameters : List Token} {body : List Stmt}
    (hname : name.isIdentifier) (hleft : left.isSymbol .leftParen)
    (hparameters : ParameterList w₁ parameters F₁) (hright : right.isSymbol .rightParen)
    (ih : StmtComplete .block w₂ body F₂) :
    StmtComplete .routine (name :: left :: (w₁ ++ right :: w₂)) ⟨name, parameters, body⟩
      (F₁ + F₂) := by
  intro fuel kind r hfuel
  obtain ⟨brace, w₂, rfl, hbrace, hnotes⟩ := ih
  simp only [List.length_append, List.length_cons] at hfuel hnotes
  obtain ⟨fuel, rfl⟩ := Nat.exists_eq_succ_of_ne_zero (n := fuel) (by omega)
  unfold Grammar.routine
  rw [show name :: left :: (w₁ ++ right :: brace :: w₂) =
    name :: left :: (w₁ ++ [right, brace]) ++ w₂ by simp]
  refine (signature_notes hname hleft hparameters hright hbrace (by omega)).bind ?_
  rintro _ rfl
  refine (hnotes fuel r (by omega)).bind_pure fun body' hb => ?_
  simp only [Routine.eraseIds, Routine.relabel, Stmt.relabelAll_eq_map]
  exact congrArg (Routine.mk _ _) hb

theorem block {left right : Token} {body : List Stmt} (hleft : left.isSymbol .leftBrace)
    (hright : right.isSymbol .rightBrace) (ih : StmtComplete .declarations w body F) :
    StmtComplete .block (left :: (w ++ [right])) body F := by
  refine ⟨left, _, rfl, hleft, fun fuel r hfuel => ?_⟩
  simp only [List.length_append, List.length_cons] at hfuel
  obtain ⟨fuel, rfl⟩ := Nat.exists_eq_succ_of_ne_zero (n := fuel) (by omega)
  unfold Grammar.block
  refine (ih.1 fuel right r (by omega) hright).bind_accepts fun as has => ?_
  exact (Accepts.expect hright).bind_pure fun _ _ => has

/-! ### Statements -/

theorem braces {body : List Stmt} (ih : StmtComplete .block w body F) :
    StmtComplete (.statement false) w (.block body) F := by
  intro fuel r hfuel hr
  obtain ⟨⟨kind, lexeme, line⟩, w, rfl, hleft, hnotes⟩ := ih
  obtain rfl : kind = .symbol .leftBrace := of_decide_eq_true hleft
  rw [List.length_cons] at hfuel hnotes
  obtain ⟨fuel, rfl⟩ := Nat.exists_eq_succ_of_ne_zero (n := fuel) (by omega)
  unfold Grammar.statement
  refine (Accepts.takeIf?_some rfl).bind_cons_notes fun o ho => ?_
  subst ho
  refine (hnotes fuel r (by omega)).bind_pure fun as has => ?_
  simp only [Stmt.eraseIds, Stmt.relabel, Stmt.relabelAll_eq_map]
  exact congrArg Stmt.block has

theorem expression {s : Stmt} (h : ExpressionStatement w s F) :
    StmtComplete (.statement false) w s F := by
  intro fuel r hfuel hr
  obtain ⟨t, w', rfl, ht⟩ := h.exists_head
  rw [List.length_cons] at hfuel
  obtain ⟨fuel, rfl⟩ := Nat.exists_eq_succ_of_ne_zero (n := fuel) (by omega)
  unfold Grammar.statement
  refine (Accepts.takeIf?_none_cons ?_).bind_nil_notes fun o ho => ?_
  · obtain ⟨kind, lexeme, line⟩ := t
    cases kind with
    | symbol s => cases s <;> first | rfl | cases ht
    | keyword k => cases k <;> first | rfl | cases ht
    | _ => rfl
  · subst ho
    exact expressionStatement_notes h (by rw [List.length_cons]; omega)

theorem print {t semicolon : Token} {value : Expr} (h : t.isKeyword .print)
    (hvalue : ExprDerives .expression w value F) (hsemicolon : semicolon.isSymbol .semicolon) :
    StmtComplete (.statement false) (t :: (w ++ [semicolon])) (.print value) F := by
  intro fuel r hfuel hr
  obtain ⟨kind, lexeme, line⟩ := t
  obtain rfl : kind = .keyword .print := of_decide_eq_true h
  simp only [List.length_append, List.length_cons, List.length_nil] at hfuel
  obtain ⟨fuel, rfl⟩ := Nat.exists_eq_succ_of_ne_zero (n := fuel) (by omega)
  unfold Grammar.statement
  refine (Accepts.takeIf?_some rfl).bind_cons_notes fun o ho => ?_
  subst ho
  refine (expression_notes hvalue (by omega) (.of_isSymbol hsemicolon (by decide))).bind_accepts ?_
  intro a ha
  exact (Accepts.expect hsemicolon).bind_pure fun _ _ => congrArg Stmt.print ha

theorem «return» {t semicolon : Token} {value : Option Expr} (h : t.isKeyword .return)
    (hvalue : OptionalExpression w value F) (hsemicolon : semicolon.isSymbol .semicolon) :
    StmtComplete (.statement false) (t :: (w ++ [semicolon])) (.return t value) F := by
  intro fuel r hfuel hr
  obtain ⟨kind, lexeme, line⟩ := t
  obtain rfl : kind = .keyword .return := of_decide_eq_true h
  simp only [List.length_append, List.length_cons, List.length_nil] at hfuel
  obtain ⟨fuel, rfl⟩ := Nat.exists_eq_succ_of_ne_zero (n := fuel) (by omega)
  unfold Grammar.statement
  refine (Accepts.takeIf?_some rfl).bind_cons_notes fun o ho => ?_
  subst ho
  change Notes (returnStatement fuel _) _ _ _ _
  rw [returnStatement_eq]
  refine (optionalExpression_notes hvalue hsemicolon rfl rfl (by omega)).bind_accepts fun a ha => ?_
  exact (Accepts.expect hsemicolon).bind_pure fun _ _ => congrArg (Stmt.return _) ha

theorem «while» {isOpen : Bool} {t left right : Token} {w₁ w₂ : List Token} {condition : Expr}
    {body : Stmt} (h : t.isKeyword .while) (hleft : left.isSymbol .leftParen)
    (hcondition : ExprDerives .expression w₁ condition F₁) (hright : right.isSymbol .rightParen)
    (ih : StmtComplete (.statement isOpen) w₂ body F₂) :
    StmtComplete (.statement isOpen) (t :: left :: (w₁ ++ right :: w₂))
      (.while condition body) (F₁ + F₂) := by
  intro fuel r hfuel hr
  obtain ⟨kind, lexeme, line⟩ := t
  obtain rfl : kind = .keyword .while := of_decide_eq_true h
  simp only [List.length_append, List.length_cons] at hfuel
  obtain ⟨fuel, rfl⟩ := Nat.exists_eq_succ_of_ne_zero (n := fuel) (by omega)
  unfold Grammar.statement
  refine (Accepts.takeIf?_some rfl).bind_cons_notes fun o ho => ?_
  subst ho
  refine (Accepts.expect hleft).bind_cons_notes fun _ _ => ?_
  refine (expression_notes hcondition (by omega) (.of_isSymbol hright (by decide))).bind ?_
  intro a ha
  refine (Accepts.expect hright).bind_cons_notes fun _ _ => ?_
  exact (ih fuel r (by omega) hr).bind_pure fun b hb => congrArg₂ Stmt.while ha hb

theorem «for» {isOpen : Bool} {t left right : Token} {w₁ w₂ : List Token} {clauses : LoopClauses}
    {body : Stmt} (h : t.isKeyword .for) (hleft : left.isSymbol .leftParen)
    (hclauses : LoopHeader w₁ clauses F₁) (hright : right.isSymbol .rightParen)
    (ih : StmtComplete (.statement isOpen) w₂ body F₂) :
    StmtComplete (.statement isOpen) (t :: left :: (w₁ ++ right :: w₂)) (loopOf clauses body)
      (F₁ + F₂) := by
  intro fuel r hfuel hr
  obtain ⟨kind, lexeme, line⟩ := t
  obtain rfl : kind = .keyword .for := of_decide_eq_true h
  simp only [List.length_append, List.length_cons] at hfuel
  obtain ⟨fuel, rfl⟩ := Nat.exists_eq_succ_of_ne_zero (n := fuel) (by omega)
  unfold Grammar.statement
  refine (Accepts.takeIf?_some rfl).bind_cons_notes fun o ho => ?_
  subst ho
  rw [show left :: (w₁ ++ right :: w₂) = left :: (w₁ ++ [right]) ++ w₂ by simp]
  refine (loopClauses_notes hleft hclauses hright (by omega)).bind fun a ha => ?_
  refine (ih fuel r (by omega) hr).bind_pure fun b hb => ?_
  simp only [Stmt.eraseIds, relabel_loopOf] at hb ⊢
  rw [ha, hb]

theorem ifThen {isOpen : Bool} {t left right : Token} {w₁ w₂ : List Token} {condition : Expr}
    {branch : Stmt} (h : t.isKeyword .if) (hleft : left.isSymbol .leftParen)
    (hcondition : ExprDerives .expression w₁ condition F₁) (hright : right.isSymbol .rightParen)
    (ih : StmtComplete (.statement isOpen) w₂ branch F₂) :
    StmtComplete (.statement true) (t :: left :: (w₁ ++ right :: w₂))
      (.if condition branch none) (F₁ + F₂) := by
  intro fuel r hfuel hr
  obtain ⟨kind, lexeme, line⟩ := t
  obtain rfl : kind = .keyword .if := of_decide_eq_true h
  simp only [List.length_append, List.length_cons] at hfuel
  obtain ⟨fuel, rfl⟩ := Nat.exists_eq_succ_of_ne_zero (n := fuel) (by omega)
  unfold Grammar.statement
  refine (Accepts.takeIf?_some rfl).bind_cons_notes fun o ho => ?_
  subst ho
  refine (Accepts.expect hleft).bind_cons_notes fun _ _ => ?_
  refine (expression_notes hcondition (by omega) (.of_isSymbol hright (by decide))).bind ?_
  intro a ha
  refine (Accepts.expect hright).bind_cons_notes fun _ _ => ?_
  rw [← List.append_nil w₂]
  refine (ih fuel _ (by omega) fun _ => hr rfl).bind_accepts fun b hb => ?_
  refine (Accepts.takeIf?_none (hr rfl)).bind_nil fun o ho => ?_
  subst ho
  refine .pure ?_
  simp only [Stmt.eraseIds, Stmt.relabel] at hb ⊢
  rw [hb]
  exact congrArg (Stmt.if · _ none) ha

theorem ifElse {isOpen isOpen' : Bool} {t left right t' : Token} {w₁ w₂ w₃ : List Token}
    {condition : Expr} {branch other : Stmt} (h : t.isKeyword .if)
    (hleft : left.isSymbol .leftParen) (hcondition : ExprDerives .expression w₁ condition F₁)
    (hright : right.isSymbol .rightParen) (hclosed : isOpen = false) (h' : t'.isKeyword .else)
    (ih : StmtComplete (.statement isOpen) w₂ branch F₂)
    (ihother : StmtComplete (.statement isOpen') w₃ other F₃) :
    StmtComplete (.statement isOpen') (t :: left :: (w₁ ++ right :: (w₂ ++ t' :: w₃)))
      (.if condition branch (some other)) (F₁ + F₂ + F₃) := by
  intro fuel r hfuel hr
  obtain ⟨kind, lexeme, line⟩ := t
  obtain rfl : kind = .keyword .if := of_decide_eq_true h
  simp only [List.length_append, List.length_cons] at hfuel
  obtain ⟨fuel, rfl⟩ := Nat.exists_eq_succ_of_ne_zero (n := fuel) (by omega)
  unfold Grammar.statement
  rw [add_assoc]
  refine (Accepts.takeIf?_some rfl).bind_cons_notes fun o ho => ?_
  subst ho
  refine (Accepts.expect hleft).bind_cons_notes fun _ _ => ?_
  refine (expression_notes hcondition (by omega) (.of_isSymbol hright (by decide))).bind ?_
  intro a ha
  refine (Accepts.expect hright).bind_cons_notes fun _ _ => ?_
  refine (ih fuel _ (by omega) (by simp [hclosed])).bind fun b hb => ?_
  refine (Accepts.takeIf?_some h').bind_cons_notes fun o ho => ?_
  subst ho
  refine (ihother fuel r (by omega) hr).bind_pure fun d hd => ?_
  simp only [Stmt.eraseIds, Stmt.relabel] at hb hd ⊢
  rw [hb, hd]
  exact congrArg (Stmt.if · _ _) ha

end StmtComplete

/-- The reader of a phrase takes any phrase of its kind in which every `else` belongs to the nearest
`if`, gives its tree up to node numbers, and notes down the faults in it. -/
theorem statement_complete {p : StmtPhrase} {tree : p.Tree} {F : Multiset Diagnostic}
    (h : StmtDerives .nearest p w tree F) : StmtComplete p w tree F := by
  induction h with
  | noDeclaration => exact StmtComplete.noDeclaration
  | declaration h hrest ih ihrest => exact StmtComplete.declaration h hrest ih ihrest
  | «class» h hname hsuperclass hleft hmethods hright ih =>
    exact StmtComplete.class h hname hsuperclass hleft hright ih
  | function h hroutine ih => exact StmtComplete.function h ih
  | «variable» h => exact StmtComplete.variable h
  | statement h ih => exact StmtComplete.statement h ih
  | noMethod => exact StmtComplete.noMethod
  | method h hrest ih ihrest => exact StmtComplete.method h ih ihrest
  | routine hname hleft hparameters hright hbody ih =>
    exact StmtComplete.routine hname hleft hparameters hright ih
  | block hleft hbody hright ih => exact StmtComplete.block hleft hright ih
  | braces h ih => exact StmtComplete.braces ih
  | expression h => exact StmtComplete.expression h
  | print h hvalue hsemicolon => exact StmtComplete.print h hvalue hsemicolon
  | «return» h hvalue hsemicolon => exact StmtComplete.return h hvalue hsemicolon
  | «while» h hleft hcondition hright hbody ih =>
    exact StmtComplete.while h hleft hcondition hright ih
  | «for» h hleft hclauses hright hbody ih =>
    exact StmtComplete.for h hleft hclauses hright ih
  | ifThen h hleft hcondition hright hbranch ih =>
    exact StmtComplete.ifThen h hleft hcondition hright ih
  | ifElse h hleft hcondition hright hbranch hnearest h' hother ih ihother =>
    exact StmtComplete.ifElse h hleft hcondition hright (hnearest rfl) h' ih ihother

theorem program_notes {ss : List Stmt} {fuel : Nat} {F : Multiset Diagnostic}
    (h : StmtDerives .nearest .declarations w ss F) (hfuel : 32 * w.length + 1 ≤ fuel) :
    Notes (program fuel) w [] F fun as => as.map Stmt.eraseIds = ss.map Stmt.eraseIds :=
  (statement_complete h).2 fuel hfuel

end Relaxed

end Treewalk.Grammar
