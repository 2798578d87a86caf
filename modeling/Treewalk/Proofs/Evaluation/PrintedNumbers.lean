import Treewalk.Evaluation.Evaluate
import Treewalk.Proofs.Grammar.Loops
import Treewalk.Proofs.Lexing.Changes
import Treewalk.Proofs.Number.Bits
import Treewalk.Proofs.Number.ReadBack
import Treewalk.Proofs.Session.Acceptance

/-!
# Printed numbers read back

What is printed for a finite double is an expression of the language: a numeral, with a minus sign
before it if the double has a sign. It evaluates to the same double, bit by bit, a negative zero and
the subnormal doubles included.

## Main definitions

* `Numeral` — the tokens of a number, with or without a sign, and their tree
* `Number.IsFinite` — the bits of a double that is neither an infinity nor a NaN

## Main results

* `Numeral.derives`, `Numeral.evaluate` — what a numeral is read as, and its value
* `Number.Reads.exists_numeral` — what is found in the text of a double
* `printed_number_reads_back` — printing, reading and evaluating a finite double
-/

namespace Treewalk

open Grammar

/-- A token of a number, or a minus sign and a token of a number, with the tree that they are read
as. The number is the double of the pattern, without its sign. -/
inductive Numeral (x : Number.Signed) : List Token → Expr → Prop
  | positive {number : Token} (hsign : x.negative = false)
      (hnumber : number.kind = .number (.ofBits (.ofNat x.pattern))) :
      Numeral x [number] (.literal (.number (.ofBits (.ofNat x.pattern))))
  | negative {minus number : Token} (hsign : x.negative = true)
      (hminus : minus.kind = .symbol .minus)
      (hnumber : number.kind = .number (.ofBits (.ofNat x.pattern))) :
      Numeral x [minus, number]
        (.unary minus (.literal (.number (.ofBits (.ofNat x.pattern)))))

namespace Numeral

variable {x : Number.Signed} {w : List Token} {e : Expr}

/-! ### Reading and evaluating -/

theorem derives (h : Numeral x w e) : ExprPhrase.expression.Derives w e := by
  have hliteral {number : Token} (hnumber : number.kind = .number (.ofBits (.ofNat x.pattern))) :
      ExprPhrase.primary.Derives [number] (.literal (.number (.ofBits (.ofNat x.pattern)))) :=
    .literal (by rw [hnumber]; rfl)
  cases h with
  | positive hsign hnumber => exact (hliteral hnumber).of_primary
  | negative hsign hminus hnumber =>
    exact (ExprPhrase.Derives.unary (isUnaryOperator_iff.2 (.inr hminus))
      (hliteral hnumber).operand_of_primary).of_operand

/-- A numeral has no node numbers. -/
theorem eq_of_eraseIds {e' : Expr} (h : Numeral x w e) (he : e'.eraseIds = e.eraseIds) :
    e' = e := by
  have hliteral {e : Expr} {value : Literal} (he : e.eraseIds = .literal value) :
      e = .literal value := by
    cases e <;> first | exact he | cases he
  cases h with
  | positive hsign hnumber => exact hliteral he
  | @negative minus number hsign hminus hnumber =>
    obtain ⟨operand, rfl, hoperand⟩ : ∃ operand, e' = .unary minus operand ∧
        operand.eraseIds = .literal (.number (.ofBits (.ofNat x.pattern))) := by
      cases e' with
      | unary minus' operand =>
        obtain ⟨rfl, hoperand⟩ := Expr.unary.inj he
        exact ⟨operand, rfl, hoperand⟩
      | _ => cases he
    rw [hliteral hoperand]

theorem eq_expression_of_eraseIds {s : Stmt} (h : Numeral x w e)
    (hs : s.eraseIds = (Stmt.expression e).eraseIds) : s = .expression e := by
  cases s with
  | expression e' => rw [h.eq_of_eraseIds (Stmt.expression.inj hs)]
  | var name value => cases value <;> cases hs
  | «return» t value => cases value <;> cases hs
  | «if» condition branch other => cases other <;> cases hs
  | _ => cases hs

/-- The value of a numeral. -/
def value (x : Number.Signed) : Float :=
  if x.negative then -.ofBits (.ofNat x.pattern) else .ofBits (.ofNat x.pattern)

theorem evaluate (h : Numeral x w e) (fuel : Nat) (m : Machine) :
    Eval.evaluate (fuel + 2) e m = .ok (.number (value x)) m := by
  cases h with
  | positive hsign hnumber =>
    rw [value, hsign]
    rfl
  | @negative minus number hsign hminus hnumber =>
    show (Eval.evaluate (fuel + 1) _ >>= fun operand =>
      Eval.orFailAt minus (operand.applyUnary minus.kind)) m = _
    rw [value, hsign, hminus]
    rfl

/-- The value of a numeral is the double with its sign and its pattern. -/
theorem toBits_value (h : x.pattern ≤ Number.infinityPattern) :
    (value x).toBits = Number.packed (Number.signOf x.negative) x.pattern := by
  have hinf : Number.infinityPattern < 2 ^ 63 := by decide
  rw [value, ← Number.packed_positive (Nat.lt_of_le_of_lt h hinf)]
  cases x.negative with
  | false => exact Number.toBits_ofBits_packed .positive h
  | true => exact Number.toBits_neg_ofBits_packed .positive h

end Numeral

/-! ### Scanning -/

/-- What stands behind a number and does not go on with it. -/
def StopsNumber (rest : List Char) : Prop := ∀ c ∈ rest.head?, ¬c.isDigit ∧ c ≠ '.'

theorem Lexes.number {value : Float} {line : Nat} {text rest : List Char} {items : List Item}
    (h : Lexeme.Number (.number value) text) (hrest : StopsNumber rest)
    (hitems : Lexes (line + text.count '\n') rest items) : Lexes line (text ++ rest)
      (.token ⟨.number value, String.ofList text, line + text.count '\n'⟩ :: items) := by
  refine .token (Piece.fits_of_stops (.number h) ⟨fun c hc => (hrest c hc).1, ?_⟩) hitems
  exact fun _ _ _ hpoint => absurd rfl (hrest '.' hpoint).2

theorem Lexes.minus {line : Nat} {rest : List Char} {items : List Item}
    (hitems : Lexes line rest items) :
    Lexes line ('-' :: rest) (.token ⟨.symbol .minus, "-", line⟩ :: items) := by
  have hstops : Kind.Stops (.symbol .minus) ['-'] rest := by
    refine ⟨fun c s hc hs => ?_, nofun⟩
    obtain rfl := List.singleton_inj.1 hc
    cases hs
  exact .token (Piece.fits_of_stops (.symbol .minus) hstops) hitems

/-- In the text of a double a numeral is found. -/
theorem Number.Reads.exists_numeral {x : Signed} {text : String} (h : Reads x text) (line : Nat) :
    ∃ w e line', Numeral x w e ∧ ∀ rest items, StopsNumber rest → Lexes line' rest items →
      Lexes line (text.toList ++ rest) (w.map .token ++ items) := by
  obtain ⟨unsigned, rfl, hnumber⟩ := h
  let number : Token := ⟨.number (.ofBits (.ofNat x.pattern)), String.ofList unsigned.toList,
    line + unsigned.toList.count '\n'⟩
  cases hsign : x.negative with
  | false =>
    refine ⟨[number], _, number.line, .positive hsign rfl, fun rest items hrest hitems => ?_⟩
    rw [sign, if_neg Bool.false_ne_true, String.empty_append]
    exact .number hnumber hrest hitems
  | true =>
    refine ⟨[⟨.symbol .minus, "-", line⟩, number], _, number.line, .negative hsign rfl rfl,
      fun rest items hrest hitems => ?_⟩
    rw [sign, if_pos rfl, String.toList_append]
    exact .minus (.number hnumber hrest hitems)

/-! ### Printed numbers -/

/-- The bits of a double that is neither an infinity nor a NaN: its exponent is not full. -/
def Number.IsFinite (bits : UInt64) : Prop := bits.toNat / 2 ^ 52 % 2048 ≠ 2047

instance (bits : UInt64) : Decidable (Number.IsFinite bits) :=
  inferInstanceAs (Decidable (bits.toNat / 2 ^ 52 % 2048 ≠ 2047))

theorem Number.IsFinite.exists_magnitude {bits : UInt64} (h : IsFinite bits) :
    ∃ d, Magnitude.ofPattern (bits.toNat % 2 ^ 63) = .finite d := by
  have hinf : infinityPattern = 2047 * 2 ^ 52 := rfl
  rw [IsFinite] at h
  exact Magnitude.exists_finite_of_lt (by omega)

theorem Numeral.not_isEnd {x : Number.Signed} {w : List Token} {e : Expr} (h : Numeral x w e) :
    ∀ t ∈ w, (!t.isEnd) = true := by
  intro t ht
  cases h with
  | positive hsign hnumber =>
    obtain rfl := List.mem_singleton.1 ht
    simp [Token.isEnd, hnumber]
  | negative hsign hminus hnumber =>
    obtain rfl | ht := List.mem_cons.1 ht
    · simp [Token.isEnd, hminus]
    · obtain rfl := List.mem_singleton.1 ht
      simp [Token.isEnd, hnumber]

/-- The text of a double is read as a numeral, if a semicolon ends it. -/
theorem Number.Reads.parse {x : Signed} {text : String} (h : Reads x text) :
    ∃ w e, Numeral x w e ∧ Source.lexicalFaults text = [] ∧ Source.content text = w ∧
      ∀ firstId, (Source.parse (text ++ ";") firstId).result = .ok [.expression e] := by
  obtain ⟨w, e, line, hnumeral, hlexes⟩ := h.exists_numeral 1
  let last : Token := ⟨.endOfInput, "", line⟩
  have hplain := hlexes [] [.token last] nofun .endOfInput
  have hplain : Lexes 1 text.toList ((w ++ [last]).map .token) := by
    rwa [List.append_nil, ← List.map_singleton, ← List.map_append] at hplain
  obtain ⟨hfaults, hcontent⟩ := Source.content_of_lexes hplain hnumeral.not_isEnd rfl
  refine ⟨w, e, hnumeral, hfaults, hcontent, fun firstId => ?_⟩
  let semicolon : Token := ⟨.symbol .semicolon, ";", line⟩
  have hend : ∀ c ∈ ([] : List Char).head?, Piece.isBlank c := nofun
  have hsemicolon : Lexes line [';'] ([semicolon, last].map .token) :=
    .token (Piece.fits_of_stops (.symbol .semicolon)
      ((Lexeme.symbol .semicolon).stops_of_isBlank hend)) .endOfInput
  have hstops : StopsNumber [';'] := by
    intro c hc
    obtain rfl := Option.some.inj hc
    decide
  have hended : Lexes 1 (text ++ ";").toList ((w ++ [semicolon] ++ [last]).map .token) := by
    rw [String.toList_append, List.append_assoc, List.map_append]
    exact hlexes _ _ hstops hsemicolon
  have hnotEnd : ∀ t ∈ w ++ [semicolon], (!t.isEnd) = true :=
    List.forall_mem_append.2 ⟨hnumeral.not_isEnd, List.forall_mem_singleton.2 rfl⟩
  obtain ⟨hfaults, hcontent⟩ := Source.content_of_lexes hended hnotEnd rfl
  have hstatement : ExpressionStatement (w ++ [semicolon]) (.expression e) :=
    .mk hnumeral.derives rfl
  have hderives : StmtPhrase.declarations.Derives .nearest (w ++ [semicolon] ++ [])
      [.expression e] := .declaration (.statement (.expression hstatement)) .noDeclaration
  rw [List.append_nil, ← hcontent] at hderives
  obtain ⟨body, hparse, hbody⟩ := Grammar.parse_of_derives firstId hderives
  obtain ⟨s, rfl, hs⟩ := List.map_eq_singleton_iff.1 hbody
  rw [Source.parse_result_eq_ok_iff, hparse, hnumeral.eq_expression_of_eraseIds hs]
  exact ⟨hfaults, rfl⟩

/-- **Printed numbers read back.** The text that is printed for a finite double is scanned to a
number, or to a minus sign and a number. It is read as an expression, and this evaluates to the
double of the same bits. -/
theorem printed_number_reads_back (bits : UInt64) (hfinite : Number.IsFinite bits) :
    ∃ w e value, Numeral (Number.Signed.ofFloat (.ofBits bits)) w e ∧
      Source.lexicalFaults (Value.number (.ofBits bits)).text = [] ∧
      Source.content (Value.number (.ofBits bits)).text = w ∧
      (∀ firstId, (Source.parse ((Value.number (.ofBits bits)).text ++ ";") firstId).result =
        .ok [.expression e]) ∧
      (∀ fuel m, Eval.evaluate (fuel + 2) e m = .ok (.number value) m) ∧
      value.toBits = bits := by
  obtain ⟨d, hd⟩ := hfinite.exists_magnitude
  have hpattern := (Number.Magnitude.ofPattern_eq_finite hd).1.le
  have hbits : (Float.ofBits bits).toBits = bits := by
    rw [Number.eq_packed bits]
    exact Number.toBits_ofBits_packed _ hpattern
  have hsigned : (Number.Signed.ofFloat (.ofBits bits)).pattern = bits.toNat % 2 ^ 63 := by
    rw [Number.Signed.ofFloat, hbits]
    rfl
  rw [← hsigned] at hd hpattern
  obtain ⟨w, e, hnumeral, hfaults, hcontent, hparse⟩ := (Number.printed_reads hd).parse
  refine ⟨w, e, _, hnumeral, hfaults, hcontent, hparse, hnumeral.evaluate, ?_⟩
  rw [Numeral.toBits_value hpattern, ← Number.toBits_eq_packed, hbits]

theorem text_negativeZero : (Value.number (.ofBits 0x8000000000000000)).text = "-0" := by
  decide +kernel

/-- A negative zero keeps its sign. -/
theorem printed_number_reads_back_negativeZero : ∃ e,
    (∀ firstId, (Source.parse "-0;" firstId).result = .ok [.expression e]) ∧
      ∃ value, (∀ fuel m, Eval.evaluate (fuel + 2) e m = .ok (.number value) m) ∧
        value.toBits = 0x8000000000000000 := by
  obtain ⟨-, e, value, -, -, -, hparse, hvalue, hbits⟩ :=
    printed_number_reads_back 0x8000000000000000 (by decide +kernel)
  rw [text_negativeZero] at hparse
  exact ⟨e, hparse, value, hvalue, hbits⟩

end Treewalk
