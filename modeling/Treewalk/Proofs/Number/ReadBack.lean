import Treewalk.Number.Layout
import Treewalk.Proofs.Lexing.Lexeme
import Treewalk.Proofs.Number.Rounding

/-!
# Numbers that read back

Behind its sign, the text of a finite double is a number of the lexical grammar, and the double that
it is read as has the same pattern. This is so if the text has all digits of an integer, since a
double is the double nearest to it, and if it has the shortest digits that read back, however they
are laid out: no zeros at the end of the digits count, nor does it matter how the digits stand around
the point.

## Main results

* `shortest_readsAs` — the shortest digits of a double read as the double
* `number_positional` — a decimal is laid out as a number of the lexical grammar
* `printed_reads`, `rendered_reads` — the two layouts of a finite double
-/

namespace Treewalk.Number

/-! ### The shortest digits -/

theorem Decimal.readsAs_of_value {c : Decimal} {d : Dyadic} {pattern : ℕ}
    (hpattern : Magnitude.ofPattern pattern = .finite d) (h : c.value = d.value) :
    c.ReadsAs pattern :=
  nearestPattern_of_value hpattern c.denominator_pos (c.numerator_div_denominator.trans h)

theorem Decimal.ReadsAs.of_value_eq {c c' : Decimal} {pattern : ℕ} (h : c.ReadsAs pattern)
    (hvalue : c'.value = c.value) : c'.ReadsAs pattern := by
  refine (nearestPattern_congr c'.denominator_pos c.denominator_pos ?_).trans h
  rw [c'.numerator_div_denominator, c.numerator_div_denominator, hvalue]

/-- All digits of a dyadic number. -/
theorem Dyadic.value_expand (d : Dyadic) : d.expand.value = d.value := by
  rw [Dyadic.expand]
  split
  · next h =>
    have hpow : (2 : ℚ) ^ d.exponent.toNat = 2 ^ d.exponent := by
      rw [← zpow_natCast, Int.toNat_of_nonneg h]
    rw [Decimal.value, cast_shift, hpow, zpow_zero, mul_one]
    rfl
  · next h =>
    have hnat : d.exponent = -((-d.exponent).toNat : ℤ) := by omega
    have hfive : d.mantissa * Nat.pow 5 (-d.exponent).toNat =
      d.mantissa * 5 ^ (-d.exponent).toNat := rfl
    rw [Decimal.value, Dyadic.value, hfive]
    generalize (-d.exponent).toNat = n at hnat
    have hten : (10 : ℚ) ^ n = 5 ^ n * 2 ^ n := by rw [← mul_pow]; norm_num
    rw [hnat, zpow_neg, zpow_neg, zpow_natCast, zpow_natCast, hten]
    push_cast
    field_simp

theorem Decimal.value_trim (fuel : ℕ) (c : Decimal) : (c.trim fuel).value = c.value := by
  induction fuel generalizing c with
  | zero => rfl
  | succ fuel ih =>
    rw [Decimal.trim]
    split
    · next h =>
      have hdigits : c.digits = c.digits / 10 * 10 := by omega
      have hten : (10 : ℚ) ≠ 0 := by norm_num
      have hcast : (c.digits : ℚ) = (c.digits / 10 : ℕ) * 10 := by exact_mod_cast hdigits
      rw [ih, Decimal.value, Decimal.value, zpow_add_one₀ hten, hcast]
      ring
    · rfl

/-- The shortest digits of a double read as the double. -/
theorem shortest_readsAs (tie : Tie) {d : Dyadic} {pattern : ℕ}
    (hpattern : Magnitude.ofPattern pattern = .finite d) :
    (shortest tie d pattern).ReadsAs pattern := by
  rw [shortest]
  split
  · next hzero =>
    refine Decimal.readsAs_of_value hpattern ?_
    rw [Decimal.value, Dyadic.value, hzero, Nat.cast_zero, zero_mul, zero_mul]
  · refine Decimal.ReadsAs.of_value_eq ?_ (Decimal.value_trim _ _)
    cases hfound : (List.range 17).findSome? _ with
    | none => exact Decimal.readsAs_of_value hpattern d.value_expand
    | some c =>
      obtain ⟨digits, -, hc⟩ := List.exists_of_findSome?_eq_some hfound
      exact readsAs_of_onGrid? hc

/-! ### Digits -/

theorem isDigit_of_mem_zeros {n : ℕ} {c : Char} (h : c ∈ zeros n) : c.isDigit := by
  rw [(List.mem_replicate.1 h).2]
  rfl

theorem isDigit_of_mem_toDigits {n : ℕ} {c : Char} (h : c ∈ Nat.toDigits 10 n) : c.isDigit :=
  Nat.isDigit_of_mem_toDigits (by decide) (by decide) h

/-- A number from digits without a point. -/
theorem number_whole {digits : List Char} (hne : digits ≠ []) (h : ∀ c ∈ digits, c.isDigit) :
    Lexeme.Number (.number (nearest (Nat.ofDigitChars 10 digits 0) 1)) digits := by
  obtain ⟨c, rest, rfl⟩ := List.exists_cons_of_ne_nil hne
  have hnumber := Lexeme.Number.whole h
  rwa [Piece.numberValue, List.append_nil] at hnumber

/-- A number from digits with a point. -/
theorem number_point (whole fraction : List Char) (hwhole : whole ≠ []) (hfraction : fraction ≠ [])
    (h : ∀ c ∈ whole ++ fraction, c.isDigit) :
    Lexeme.Number (.number (nearest (Nat.ofDigitChars 10 (whole ++ fraction) 0)
      (Nat.pow 10 fraction.length))) (whole ++ '.' :: fraction) := by
  obtain ⟨c, rest, rfl⟩ := List.exists_cons_of_ne_nil hwhole
  obtain ⟨d, behind, rfl⟩ := List.exists_cons_of_ne_nil hfraction
  exact .decimal (fun e he => h e (List.mem_append_left _ he))
    fun e he => h e (List.mem_append_right _ he)

theorem ofDigitChars_toDigits_append_zeros (n k : ℕ) :
    Nat.ofDigitChars 10 (Nat.toDigits 10 n ++ zeros k) 0 = n * Nat.pow 10 k := by
  rw [Nat.ofDigitChars_append, Nat.ofDigitChars_ten_toDigits, zeros,
    Nat.ofDigitChars_replicate_zero, Nat.mul_comm]
  rfl

theorem isDigit_of_mem_toDigits_append_zeros {n k : ℕ} {c : Char}
    (h : c ∈ Nat.toDigits 10 n ++ zeros k) : c.isDigit :=
  (List.mem_append.1 h).elim isDigit_of_mem_toDigits isDigit_of_mem_zeros

/-- The digits of an integer, and zeros behind them. -/
theorem number_toDigits_append_zeros (n k : ℕ) :
    Lexeme.Number (.number (nearest (n * Nat.pow 10 k) 1)) (Nat.toDigits 10 n ++ zeros k) := by
  rw [← ofDigitChars_toDigits_append_zeros]
  exact number_whole (List.append_ne_nil_of_left_ne_nil Nat.toDigits_ne_nil _) fun _ =>
    isDigit_of_mem_toDigits_append_zeros

theorem number_digitText (n : ℕ) :
    Lexeme.Number (.number (nearest n 1)) (digitText n).toList := by
  have h := number_toDigits_append_zeros n 0
  have hone : n * Nat.pow 10 0 = n := Nat.mul_one n
  have hzeros : zeros 0 = [] := rfl
  rw [hone, hzeros, List.append_nil] at h
  rwa [digitText, String.toList_ofList]

/-- A decimal with a point: its digits, behind as many zeros as are needed. -/
theorem number_toDigits_point {n k : ℕ} (whole fraction : List Char) (hwhole : whole ≠ [])
    (hfraction : fraction ≠ []) (h : whole ++ fraction = zeros k ++ Nat.toDigits 10 n) :
    Lexeme.Number (.number (nearest n (Nat.pow 10 fraction.length))) (whole ++ '.' :: fraction) := by
  have hvalue : Nat.ofDigitChars 10 (whole ++ fraction) 0 = n := by
    rw [h, Nat.ofDigitChars_append, zeros, Nat.ofDigitChars_replicate_zero, Nat.mul_zero,
      Nat.ofDigitChars_ten_toDigits]
  have hnumber := number_point whole fraction hwhole hfraction fun c hc => by
    rw [h] at hc
    exact (List.mem_append.1 hc).elim isDigit_of_mem_zeros isDigit_of_mem_toDigits
  rwa [hvalue] at hnumber

/-- The layout of a decimal is a number of the lexical grammar, which is read as the decimal. -/
theorem number_positional (c : Decimal) :
    Lexeme.Number (.number (nearest c.numerator c.denominator)) c.positional.toList := by
  have hten : Nat.pow 10 0 = 1 := rfl
  rw [Decimal.positional, String.toList_ofList]
  obtain hplaces | hplaces := Nat.eq_zero_or_pos (-c.exponent).toNat
  · rw [if_pos hplaces, Decimal.denominator, hplaces, hten]
    exact number_toDigits_append_zeros _ _
  have hnumerator : c.numerator = c.digits := by
    have hexponent : c.exponent.toNat = 0 := by omega
    rw [Decimal.numerator, hexponent, hten, Nat.mul_one]
  rw [if_neg hplaces.ne', hnumerator, Decimal.denominator]
  generalize (-c.exponent).toNat = places at hplaces ⊢
  split
  · next hlt =>
    -- the point stands among the digits
    have hlength : ((Nat.toDigits 10 c.digits).drop
        ((Nat.toDigits 10 c.digits).length - places)).length = places := by
      rw [List.length_drop]
      omega
    have hdigits := number_toDigits_point (n := c.digits) (k := 0)
      ((Nat.toDigits 10 c.digits).take ((Nat.toDigits 10 c.digits).length - places))
      ((Nat.toDigits 10 c.digits).drop ((Nat.toDigits 10 c.digits).length - places))
      (fun h => ?_) (fun h => ?_) (List.take_append_drop _ _)
    · rwa [hlength] at hdigits
    · have := congrArg List.length h
      rw [List.length_take, List.length_nil] at this
      omega
    · rw [h] at hlength
      exact hplaces.ne hlength
  · next hle =>
    -- zeros stand between the point and the digits
    have hlength : (zeros (places - (Nat.toDigits 10 c.digits).length) ++
        Nat.toDigits 10 c.digits).length = places := by
      rw [List.length_append, zeros, List.length_replicate]
      omega
    have hdigits := number_toDigits_point (n := c.digits)
      (k := places - (Nat.toDigits 10 c.digits).length + 1) ['0']
      (zeros (places - (Nat.toDigits 10 c.digits).length) ++ Nat.toDigits 10 c.digits)
      (List.cons_ne_nil _ _) (List.append_ne_nil_of_right_ne_nil _ Nat.toDigits_ne_nil) rfl
    rwa [hlength] at hdigits

/-! ### The layouts of a double -/

/-- Up to its sign, the text of a double is a number of the lexical grammar, which is read as the
double without its sign. -/
def Reads (x : Signed) (text : String) : Prop :=
  ∃ unsigned : String, text = sign x.negative ++ unsigned ∧
    Lexeme.Number (.number (.ofBits (.ofNat x.pattern))) unsigned.toList

variable {value : Float} {d : Dyadic}

theorem positional_reads {x : Signed} (h : x.magnitude = .finite d) : Reads x (positional x) := by
  have hreads : (shortest .up d x.pattern).nearestPattern = x.pattern := shortest_readsAs .up h
  have hnumber := number_positional (shortest .up d x.pattern)
  rw [nearest, ← Decimal.nearestPattern, hreads] at hnumber
  exact ⟨_, by rw [positional, h], hnumber⟩

/-- The integer that a double without a fraction is. -/
theorem Dyadic.IsIntegral.value_eq (h : d.IsIntegral) :
    d.value = (d.numerator / d.denominator : ℕ) := by
  rw [← d.numerator_div_denominator, div_eq_iff (Nat.cast_ne_zero.2 d.denominator_pos.ne')]
  exact_mod_cast (Nat.div_mul_cancel (Nat.dvd_of_mod_eq_zero h)).symm

/-- The digits of an integer, and zeros behind a point. -/
theorem nearestPattern_of_isIntegral {pattern : ℕ} (h : Magnitude.ofPattern pattern = .finite d)
    (hd : d.IsIntegral) {k : ℕ} (hk : 0 < k) :
    nearestPattern (d.numerator / d.denominator * k) k = pattern := by
  refine nearestPattern_of_value h hk ?_
  rw [hd.value_eq, Nat.cast_mul, mul_div_assoc, div_self (Nat.cast_ne_zero.2 hk.ne'), mul_one]

theorem printed_reads (h : (Signed.ofFloat value).magnitude = .finite d) :
    Reads (Signed.ofFloat value) (printed value) := by
  rw [printed]
  simp only [h]
  split
  · next hd =>
    have hnumber := number_digitText (d.numerator / d.denominator)
    have hpattern := nearestPattern_of_isIntegral h hd Nat.one_pos
    rw [Nat.mul_one] at hpattern
    rw [nearest, hpattern] at hnumber
    exact ⟨_, rfl, hnumber⟩
  · exact positional_reads h

theorem rendered_reads (h : (Signed.ofFloat value).magnitude = .finite d) :
    Reads (Signed.ofFloat value) (rendered value) := by
  rw [rendered]
  simp only [h]
  split
  · next hd =>
    have hnumber := number_point (Nat.toDigits 10 (d.numerator / d.denominator)) (zeros 1)
      Nat.toDigits_ne_nil (List.cons_ne_nil _ _) fun _ => isDigit_of_mem_toDigits_append_zeros
    have hlength : (zeros 1).length = 1 := rfl
    rw [ofDigitChars_toDigits_append_zeros, hlength, nearest,
      nearestPattern_of_isIntegral h hd (by decide)] at hnumber
    refine ⟨digitText (d.numerator / d.denominator) ++ ".0", String.append_assoc, ?_⟩
    rwa [String.toList_append, digitText, String.toList_ofList]
  · exact positional_reads h

end Treewalk.Number
