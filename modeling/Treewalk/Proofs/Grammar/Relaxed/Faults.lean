import Treewalk.Proofs.Grammar.Acceptance

/-!
# The faults of a relaxed program

A program of the relaxed grammar is read to its end. The faults are those of its phrases, and the
trees are those that it would have without them.

## Main definitions

* `Diagnostic.IsNote` — the faults of a relaxed program, with their wording

## Main results

* `Relaxed.faults_unique` — a relaxed program has the same faults however it is derived
* `parse_relaxed` — the faults and the trees of a relaxed program
-/

namespace Treewalk

/-- A fault after which reading goes on, with its wording. -/
def Diagnostic.IsNote (d : Diagnostic) : Prop :=
  ∃ anchor,
    d = .grammar anchor .invalidAssignmentTarget ∧ d.message = "Invalid assignment target." ∨
    d = .grammar anchor .tooManyArguments ∧ d.message = "Can't have more than 255 arguments." ∨
    d = .grammar anchor .tooManyParameters ∧ d.message = "Can't have more than 255 parameters."

theorem Diagnostic.isNote_iff {d : Diagnostic} : d.IsNote ↔ d.unwinds = false := by
  constructor
  · rintro ⟨anchor, ⟨rfl, -⟩ | ⟨rfl, -⟩ | ⟨rfl, -⟩⟩ <;> rfl
  · intro h
    cases d with
    | grammar anchor cause =>
      cases cause with
      | invalidAssignmentTarget => exact ⟨anchor, .inl ⟨rfl, rfl⟩⟩
      | tooManyArguments => exact ⟨anchor, .inr (.inl ⟨rfl, rfl⟩)⟩
      | tooManyParameters => exact ⟨anchor, .inr (.inr ⟨rfl, rfl⟩)⟩
      | _ => cases h
    | _ => cases h

namespace Grammar

open Relaxed (ExprDerives StmtDerives)

variable {tokens w : List Token} {body body' : List Stmt} {F F' : Multiset Diagnostic}

/-- What is read of a program in which every `else` belongs to the nearest `if`. -/
theorem Relaxed.StmtDerives.parse_eq (firstId : NodeId)
    (h : StmtDerives .nearest .declarations (tokens.takeWhile (!·.isEnd)) body F) :
    ∃ statements faults nextId, parse tokens firstId = ⟨statements, faults, nextId, true⟩ ∧
      ↑faults = F ∧ (∀ d ∈ faults, d.unwinds = false) ∧
      statements.map Stmt.eraseIds = body.map Stmt.eraseIds := by
  obtain ⟨statements, nextId, new, hread, hnew, hnote, hbody⟩ :=
    program_notes h (length_takeWhile_le_fuelFor tokens) (.start tokens firstId)
      (List.append_nil _).symm
  refine ⟨statements, new.reverse, nextId, ?_, ?_, fun d hd => hnote d (List.mem_reverse.1 hd),
    hbody⟩
  · rw [parse, hread]
    exact congrArg (fun faults => Parsed.mk statements faults.reverse nextId true)
      (List.append_nil new)
  · rw [Multiset.coe_reverse, hnew]

/-- The faults of a relaxed program are told by its tokens. -/
theorem Relaxed.faults_unique (h : StmtDerives .free .declarations w body F)
    (h' : StmtDerives .free .declarations w body' F') : F = F' := by
  obtain ⟨_, hnearest⟩ := h.nearest
  obtain ⟨_, hnearest'⟩ := h'.nearest
  obtain ⟨_, _, new, hread, rfl, -, -⟩ :=
    program_notes hnearest le_rfl ⟨w, default, 0, []⟩ (List.append_nil w).symm
  obtain ⟨_, _, new', hread', rfl, -, -⟩ :=
    program_notes hnearest' le_rfl ⟨w, default, 0, []⟩ (List.append_nil w).symm
  have hfaults := congrArg Cursor.faults (EStateM.Result.ok.inj (hread.symm.trans hread')).2
  exact congrArg _ (List.append_cancel_right hfaults)

/-- **Faults that nothing is abandoned at are told exactly.** Let the tokens before the first end of
input be a program of the relaxed grammar, by rules that leave it open to which `if` an `else`
belongs. Then the faults are those of its phrases and no others: an argument or a parameter beyond
the limit, and an equals sign behind what is neither a bare identifier nor a property access. No
declaration is abandoned, each fault is worded by its kind, and what is read is, up to node numbers,
the tree in which every `else` belongs to the nearest `if`. The program is accepted if and only if
there are no faults. -/
theorem parse_relaxed (tokens : List Token) (firstId : NodeId) (body : List Stmt)
    (F : Multiset Diagnostic)
    (h : StmtDerives .free .declarations (tokens.takeWhile (!·.isEnd)) body F) :
    ↑(parse tokens firstId).faults = F ∧
      (∀ d ∈ (parse tokens firstId).faults, d.unwinds = false ∧ d.IsNote) ∧
      (∃ body', StmtDerives .nearest .declarations (tokens.takeWhile (!·.isEnd)) body' F ∧
        (parse tokens firstId).statements.map Stmt.eraseIds = body'.map Stmt.eraseIds) ∧
      ((∃ body', (parse tokens firstId).result = .ok body') ↔ F = 0) := by
  obtain ⟨body', hnearest⟩ := h.nearest
  obtain ⟨statements, faults, nextId, hparse, rfl, hnote, hbody⟩ := hnearest.parse_eq firstId
  rw [hparse]
  refine ⟨rfl, fun d hd => ⟨hnote d hd, Diagnostic.isNote_iff.2 (hnote d hd)⟩,
    ⟨body', hnearest, hbody⟩, ?_⟩
  simp only [Parsed.result_eq_ok_iff, Multiset.coe_eq_zero]
  exact ⟨fun ⟨_, _, hnil, _⟩ => hnil, fun hnil => ⟨statements, trivial, hnil, rfl⟩⟩

/-! ### Two targets that cannot be assigned to -/

theorem Relaxed.ExprDerives.identifier {name : Token} (h : name.isIdentifier) (id : NodeId) :
    ExprDerives .expression [name] (.variable ⟨id, name⟩) 0 :=
  .loosest ((ExprDerives.call (.variable h) .noAccess).operand _)

/-- A target in parentheses is none. -/
theorem Relaxed.ExprDerives.assignGroup {left right equals : Token} {w₁ w₂ : List Token}
    {inner value : Expr} (hleft : left.isSymbol .leftParen)
    (hinner : ExprDerives .expression w₁ inner F) (hright : right.isSymbol .rightParen)
    (hequals : equals.isSymbol .equal) (hvalue : ExprDerives .expression w₂ value F') :
    ExprDerives .expression (left :: (w₁ ++ right :: equals :: w₂)) (.group inner)
      (F + F' + {.grammar equals .invalidAssignmentTarget}) := by
  have htarget := (ExprDerives.call (.group hleft hinner hright) .noAccess).operand
    (some .disjunction)
  simpa using ExprDerives.assignOther htarget rfl hequals hvalue

/-- A method of the superclass is no target. -/
theorem Relaxed.ExprDerives.assignSuper {super dot method equals : Token} {w : List Token}
    {value : Expr} (h : super.isKeyword .super) (hdot : dot.isSymbol .dot)
    (hmethod : method.isIdentifier) (hequals : equals.isSymbol .equal)
    (hvalue : ExprDerives .expression w value F) (id : NodeId) :
    ExprDerives .expression (super :: dot :: method :: equals :: w) (.super ⟨id, super⟩ method)
      (F + {.grammar equals .invalidAssignmentTarget}) := by
  have htarget := (ExprDerives.call (@ExprDerives.super _ _ _ id h hdot hmethod) .noAccess).operand
    (some .disjunction)
  simpa using ExprDerives.assignOther htarget rfl hequals hvalue

/-- An equals sign on a line. -/
def equalsOn (line : Nat) : Token := ⟨.symbol .equal, "=", line⟩

/-- The tokens of `(a) = super.m = b;` on two lines. -/
def misassignedTokens : List Token :=
  [⟨.symbol .leftParen, "(", 1⟩, ⟨.identifier, "a", 1⟩, ⟨.symbol .rightParen, ")", 1⟩, equalsOn 1,
    ⟨.keyword .super, "super", 2⟩, ⟨.symbol .dot, ".", 2⟩, ⟨.identifier, "m", 2⟩, equalsOn 2,
    ⟨.identifier, "b", 2⟩, ⟨.symbol .semicolon, ";", 2⟩, ⟨.endOfInput, "", 2⟩]

/-- The faults in them. -/
def misassignments : Multiset Diagnostic :=
  {.grammar (equalsOn 2) .invalidAssignmentTarget} +
    {.grammar (equalsOn 1) .invalidAssignmentTarget}

theorem parse_relaxed_misassigned :
    ∃ body,
      StmtDerives .free .declarations (misassignedTokens.takeWhile (!·.isEnd)) body misassignments ∧
        ↑(parse misassignedTokens 0).faults = misassignments ∧
        ¬∃ body', (parse misassignedTokens 0).result = .ok body' := by
  have hvalue : ExprDerives .expression [⟨.keyword .super, "super", 2⟩, ⟨.symbol .dot, ".", 2⟩,
      ⟨.identifier, "m", 2⟩, equalsOn 2, ⟨.identifier, "b", 2⟩] _ _ :=
    .assignSuper rfl rfl rfl rfl (.identifier rfl 0) 0
  have htarget : ExprDerives .expression [⟨.identifier, "a", 1⟩] _ _ := .identifier rfl 0
  have hderives : StmtDerives .free .declarations (misassignedTokens.takeWhile (!·.isEnd)) _
      misassignments :=
    .declaration (.statement (.expression (.mk
      (.assignGroup (by rfl) htarget (by rfl) (by rfl) hvalue) (by rfl)))) .noDeclaration
  obtain ⟨hfaults, -, -, hresult⟩ := parse_relaxed misassignedTokens 0 _ _ hderives
  exact ⟨_, hderives, hfaults, fun h => by simpa [misassignments] using hresult.1 h⟩

end Grammar

end Treewalk
