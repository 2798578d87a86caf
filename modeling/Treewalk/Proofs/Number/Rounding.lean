import Mathlib.Algebra.Order.Field.Power
import Mathlib.Data.Int.Log
import Mathlib.Data.Rat.Floor
import Mathlib.Tactic.NormNum
import Mathlib.Tactic.Positivity
import Mathlib.Tactic.Ring
import Treewalk.Number.Decimal

/-!
# Rounding to the nearest double

The pattern nearest to a ratio is a function of the number that the ratio is, however it is written:
the binary order is the logarithm to base two, and rounding a ratio does not tell a fraction from
the same one in other terms. A ratio that is a double is rounded to that double.

## Main definitions

* `Dyadic.value`, `Decimal.value` — the numbers themselves

## Main results

* `nearestPattern_congr` — ratios that are one number have one nearest pattern
* `nearestPattern_of_value` — a double is the double nearest to it
-/

namespace Treewalk.Number

def Dyadic.value (d : Dyadic) : ℚ := d.mantissa * 2 ^ d.exponent

def Decimal.value (c : Decimal) : ℚ := c.digits * 10 ^ c.exponent

/-! ### Scaling -/

/-- The two halves of a power with a signed exponent. -/
theorem pow_toNat_div {b : ℚ} (hb : b ≠ 0) (k : ℤ) :
    b ^ k.toNat / b ^ (-k).toNat = b ^ k := by
  rw [← zpow_natCast, ← zpow_natCast, ← zpow_sub₀ hb]
  congr 1
  omega

theorem cast_shift (n : ℕ) (k : ℤ) : (shift n k : ℚ) = n * 2 ^ k.toNat := by
  have hpow : shift n k = n * 2 ^ k.toNat := rfl
  rw [hpow, Nat.cast_mul, Nat.cast_pow, Nat.cast_ofNat]

theorem shift_pos {n : ℕ} (h : 0 < n) (k : ℤ) : 0 < shift n k :=
  Nat.mul_pos h (Nat.two_pow_pos _)

/-- A ratio scaled by a power of two. -/
theorem shift_div_shift (num den : ℕ) (k : ℤ) :
    (shift num (-k) : ℚ) / shift den k = num / den * 2 ^ (-k) := by
  have hpow := pow_toNat_div (two_ne_zero (α := ℚ)) (-k)
  rw [neg_neg] at hpow
  rw [cast_shift, cast_shift, ← hpow, mul_div_mul_comm]

theorem Dyadic.numerator_div_denominator (d : Dyadic) :
    (d.numerator : ℚ) / d.denominator = d.value := by
  have h := shift_div_shift d.mantissa 1 (-d.exponent)
  rwa [neg_neg, Nat.cast_one, div_one] at h

theorem Dyadic.denominator_pos (d : Dyadic) : 0 < d.denominator := shift_pos Nat.one_pos _

theorem Decimal.denominator_pos (c : Decimal) : 0 < c.denominator := Nat.pow_pos (by decide)

theorem Decimal.numerator_div_denominator (c : Decimal) :
    (c.numerator : ℚ) / c.denominator = c.value := by
  have hnum : c.numerator = c.digits * 10 ^ c.exponent.toNat := rfl
  have hden : c.denominator = 10 ^ (-c.exponent).toNat := rfl
  have hten : (10 : ℚ) ≠ 0 := by norm_num
  rw [hnum, hden, Decimal.value, ← pow_toNat_div hten]
  push_cast
  rw [mul_div_assoc]

/-! ### The binary order -/

/-- The binary order is the logarithm. -/
theorem binaryOrder_eq {num den : ℕ} (hnum : 0 < num) (hden : 0 < den) :
    binaryOrder num den = Int.log 2 (num / den : ℚ) := by
  have hdenQ : (0 : ℚ) < den := Nat.cast_pos.2 hden
  have hpos : (0 : ℚ) < num / den := div_pos (Nat.cast_pos.2 hnum) hdenQ
  have htwo : (2 : ℚ) ≠ 0 := two_ne_zero
  set guess : ℤ := (num.log2 : ℤ) - den.log2 with hguess
  -- the logarithms of the two terms tell that of the ratio up to one
  have hlow : guess - 1 ≤ Int.log 2 (num / den : ℚ) := by
    refine (Int.zpow_le_iff_le_log one_lt_two hpos).1 ?_
    have hn : (2 : ℚ) ^ num.log2 ≤ num := by exact_mod_cast Nat.log2_self_le hnum.ne'
    have hd : (den : ℚ) < 2 ^ (den.log2 + 1) := by exact_mod_cast Nat.lt_log2_self
    rw [le_div_iff₀ hdenQ]
    have hexp : guess - 1 = (num.log2 : ℤ) - (den.log2 + 1 : ℕ) := by push_cast; ring
    rw [hexp, Nat.cast_ofNat, zpow_sub₀ htwo, zpow_natCast, zpow_natCast, div_mul_eq_mul_div,
      div_le_iff₀ (by positivity)]
    exact mul_le_mul hn hd.le hdenQ.le (Nat.cast_nonneg _)
  have hhigh : Int.log 2 (num / den : ℚ) < guess + 1 := by
    refine (Int.lt_zpow_iff_log_lt one_lt_two hpos).1 ?_
    have hn : (num : ℚ) < 2 ^ (num.log2 + 1) := by exact_mod_cast Nat.lt_log2_self
    have hd : (2 : ℚ) ^ den.log2 ≤ den := by exact_mod_cast Nat.log2_self_le hden.ne'
    rw [div_lt_iff₀ hdenQ]
    have hexp : guess + 1 = (num.log2 + 1 : ℕ) - (den.log2 : ℤ) := by push_cast; ring
    rw [hexp, Nat.cast_ofNat, zpow_sub₀ htwo, zpow_natCast, zpow_natCast, div_mul_eq_mul_div,
      lt_div_iff₀ (by positivity)]
    exact mul_lt_mul hn hd (by positivity) (by positivity)
  have hcond : shift den guess ≤ shift num (-guess) ↔ guess ≤ Int.log 2 (num / den : ℚ) := by
    rw [← Int.zpow_le_iff_le_log one_lt_two hpos, ← Nat.cast_le (α := ℚ), Nat.cast_ofNat]
    have hshift := shift_div_shift num den guess
    have hspos : (0 : ℚ) < shift den guess := Nat.cast_pos.2 (shift_pos hden _)
    rw [← one_le_div hspos, hshift, zpow_neg, ← div_eq_mul_inv, one_le_div (by positivity)]
  rw [binaryOrder]
  simp only [← hguess, hcond]
  split <;> omega

/-! ### Rounding -/

theorem roundHalfEven_mul_left {k : ℕ} (hk : 0 < k) (num den : ℕ) :
    roundHalfEven (k * num) (k * den) = roundHalfEven num den := by
  have hleft (a b : ℕ) : 2 * (k * a) < k * b ↔ 2 * a < b := by
    rw [Nat.mul_left_comm, Nat.mul_lt_mul_left hk]
  have hright (a b : ℕ) : k * b < 2 * (k * a) ↔ b < 2 * a := by
    rw [Nat.mul_left_comm, Nat.mul_lt_mul_left hk]
  simp only [roundHalfEven, Nat.mul_div_mul_left _ _ hk, Nat.mul_mod_mul_left, hleft, hright]

theorem roundHalfEven_congr {num den num' den' : ℕ} (hden : 0 < den) (hden' : 0 < den')
    (h : (num / den : ℚ) = num' / den') : roundHalfEven num den = roundHalfEven num' den' := by
  have hcross : den' * num = den * num' := by
    rw [div_eq_div_iff (Nat.cast_ne_zero.2 hden.ne') (Nat.cast_ne_zero.2 hden'.ne')] at h
    rw [Nat.mul_comm den', Nat.mul_comm den]
    exact_mod_cast h
  rw [← roundHalfEven_mul_left hden' num den, hcross, Nat.mul_comm den' den,
    roundHalfEven_mul_left hden]

/-- The last place that is kept of a number. -/
def place (value : ℚ) : ℤ := max (Int.log 2 value - 52) (-1074)

theorem nearestPattern_eq {num den : ℕ} (hnum : 0 < num) (hden : 0 < den) :
    nearestPattern num den = min ((place (num / den) + 1074).toNat * Nat.pow 2 52 +
        roundHalfEven (shift num (-place (num / den))) (shift den (place (num / den))))
      infinityPattern := by
  rw [nearestPattern, if_neg hnum.ne', binaryOrder_eq hnum hden]
  rfl

/-- The nearest pattern depends on the number alone, not on how it is written as a ratio. -/
theorem nearestPattern_congr {num den num' den' : ℕ} (hden : 0 < den) (hden' : 0 < den')
    (h : (num / den : ℚ) = num' / den') : nearestPattern num den = nearestPattern num' den' := by
  have hzero : num = 0 ↔ num' = 0 := by
    rw [← Nat.cast_eq_zero (R := ℚ), ← Nat.cast_eq_zero (R := ℚ) (n := num')]
    have hd : (den : ℚ) ≠ 0 := Nat.cast_ne_zero.2 hden.ne'
    have hd' : (den' : ℚ) ≠ 0 := Nat.cast_ne_zero.2 hden'.ne'
    constructor
    · intro hnum
      rw [hnum, zero_div, eq_comm, div_eq_zero_iff] at h
      exact h.resolve_right hd'
    · intro hnum
      rw [hnum, zero_div, div_eq_zero_iff] at h
      exact h.resolve_right hd
  obtain rfl | hnum := Nat.eq_zero_or_pos num
  · rw [hzero.1 rfl, nearestPattern_zero, nearestPattern_zero]
  · have hnum' : 0 < num' := Nat.pos_of_ne_zero fun h' => hnum.ne' (hzero.2 h')
    rw [nearestPattern_eq hnum hden, nearestPattern_eq hnum' hden', h]
    congr 2
    refine roundHalfEven_congr (shift_pos hden _) (shift_pos hden' _) ?_
    rw [shift_div_shift, shift_div_shift, h]

/-! ### Doubles are exact -/

/-- A number that is a multiple of its last place is rounded to itself. -/
theorem nearestPattern_of_place {num den mantissa : ℕ} (hmantissa : 0 < mantissa) (hden : 0 < den)
    {e : ℤ} (h : (num / den : ℚ) = mantissa * 2 ^ e) (hplace : place (num / den) = e) :
    nearestPattern num den =
      min ((e + 1074).toNat * Nat.pow 2 52 + mantissa) infinityPattern := by
  have hnum : 0 < num := by
    refine Nat.pos_of_ne_zero ?_
    rintro rfl
    have hpos : (0 : ℚ) < mantissa * 2 ^ e := mul_pos (Nat.cast_pos.2 hmantissa) (by positivity)
    rw [Nat.cast_zero, zero_div] at h
    exact hpos.ne h
  have hround : roundHalfEven (shift num (-e)) (shift den e) = mantissa := by
    rw [← roundHalfEven_one mantissa]
    refine roundHalfEven_congr (shift_pos hden _) Nat.one_pos ?_
    rw [shift_div_shift, h, mul_assoc, ← zpow_add₀ two_ne_zero, add_neg_cancel, zpow_zero, mul_one,
      Nat.cast_one, div_one]
  rw [nearestPattern_eq hnum hden, hplace, hround]

/-- Mantissa and exponent of a finite double make up its pattern. -/
theorem Magnitude.ofPattern_eq_finite {pattern : ℕ} {d : Dyadic}
    (h : Magnitude.ofPattern pattern = .finite d) : pattern < infinityPattern ∧
      pattern = (d.exponent + 1074).toNat * Nat.pow 2 52 + d.mantissa ∧
      (d.exponent = -1074 ∧ d.mantissa < 2 ^ 52 ∨
        -1074 ≤ d.exponent ∧ 2 ^ 52 ≤ d.mantissa ∧ d.mantissa < 2 ^ 53) := by
  have hpow : Nat.pow 2 52 = 4503599627370496 := rfl
  simp only [Magnitude.ofPattern, infinityPattern, hpow] at h ⊢
  split at h
  · cases h
    dsimp only
    exact ⟨by omega, by omega, .inl ⟨rfl, Nat.mod_lt _ (by decide)⟩⟩
  · split at h
    · cases h
      dsimp only
      exact ⟨by omega, by omega, .inr ⟨by omega, by omega, by omega⟩⟩
    · split at h <;> cases h

theorem Magnitude.exists_finite_of_lt {pattern : ℕ} (h : pattern < infinityPattern) :
    ∃ d, Magnitude.ofPattern pattern = .finite d := by
  have hpow : Nat.pow 2 52 = 4503599627370496 := rfl
  simp only [Magnitude.ofPattern, infinityPattern, hpow] at h ⊢
  split
  · exact ⟨_, rfl⟩
  · rw [if_pos (by omega)]
    exact ⟨_, rfl⟩

/-- The logarithm of a mantissa, moved by the exponent. -/
theorem log_mul_zpow_lt {mantissa n : ℕ} (hpos : 0 < mantissa) (hlt : mantissa < 2 ^ n) (e : ℤ) :
    Int.log 2 (mantissa * 2 ^ e : ℚ) < n + e := by
  have hvalue : (0 : ℚ) < mantissa * 2 ^ e := mul_pos (Nat.cast_pos.2 hpos) (by positivity)
  refine (Int.lt_zpow_iff_log_lt one_lt_two hvalue).1 ?_
  rw [Nat.cast_ofNat, zpow_add₀ two_ne_zero, zpow_natCast]
  exact mul_lt_mul_of_pos_right (by exact_mod_cast hlt) (by positivity)

theorem le_log_mul_zpow {mantissa n : ℕ} (hle : 2 ^ n ≤ mantissa) (e : ℤ) :
    n + e ≤ Int.log 2 (mantissa * 2 ^ e : ℚ) := by
  have hpos : 0 < mantissa := (Nat.two_pow_pos n).trans_le hle
  have hvalue : (0 : ℚ) < mantissa * 2 ^ e := mul_pos (Nat.cast_pos.2 hpos) (by positivity)
  refine (Int.zpow_le_iff_le_log one_lt_two hvalue).1 ?_
  rw [Nat.cast_ofNat, zpow_add₀ two_ne_zero, zpow_natCast]
  exact mul_le_mul_of_nonneg_right (by exact_mod_cast hle) (by positivity)

/-- The last place that is kept of a double is its own. -/
theorem place_value {pattern : ℕ} {d : Dyadic} (h : Magnitude.ofPattern pattern = .finite d)
    (hpos : 0 < d.mantissa) : place d.value = d.exponent := by
  obtain ⟨-, -, ⟨he, hlt⟩ | ⟨he, hle, hlt⟩⟩ := Magnitude.ofPattern_eq_finite h
  · have hlog : Int.log 2 d.value < (52 : ℕ) + d.exponent := log_mul_zpow_lt hpos hlt _
    rw [place]
    omega
  · have hlow : (52 : ℕ) + d.exponent ≤ Int.log 2 d.value := le_log_mul_zpow hle _
    have hhigh : Int.log 2 d.value < (53 : ℕ) + d.exponent := log_mul_zpow_lt hpos hlt _
    rw [place]
    omega

/-- **A double is the double nearest to it**, however the number that it is is written. -/
theorem nearestPattern_of_value {pattern num den : ℕ} {d : Dyadic}
    (hpattern : Magnitude.ofPattern pattern = .finite d) (hden : 0 < den)
    (h : (num / den : ℚ) = d.value) : nearestPattern num den = pattern := by
  obtain ⟨hlt, hmade, hbounds⟩ := Magnitude.ofPattern_eq_finite hpattern
  obtain hzero | hpos := Nat.eq_zero_or_pos d.mantissa
  · have hnum : (num / den : ℚ) = (0 : ℕ) / (1 : ℕ) := by
      rw [h, Dyadic.value, hzero, Nat.cast_zero, zero_mul, zero_div]
    rw [nearestPattern_congr hden Nat.one_pos hnum, nearestPattern_zero, hmade, hzero]
    have hexp : d.exponent = -1074 := by omega
    rw [hexp]
    rfl
  · have hplace : place (num / den) = d.exponent := by rw [h, place_value hpattern hpos]
    rw [nearestPattern_of_place hpos hden h hplace, ← hmade, Nat.min_eq_left hlt.le]

end Treewalk.Number
