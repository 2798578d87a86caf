import Mathlib
import Treewalk.Number.Double

/-!
# The bits of a double

The bits of a double are a sign and a pattern, which says what the double is up to its sign. Bits
that are no NaN are the bits of exactly one double, and negation changes the sign in them and
nothing else.

## Main definitions

* `Encodes` — the doubles in parts that a sign, an exponent and a mantissa encode
* `packed` — the bits of a sign and a pattern

## Main results

* `toBits_ofBits_packed` — the double of a sign and a pattern has their bits
* `toBits_neg_ofBits_packed` — the bits of the negated double
* `eq_packed` — all bits are those of a sign and a pattern
-/

namespace Treewalk.Number

open Float.Model Float.Model.UnpackedFloat

/-! ### Packing -/

theorem toNat_packComponents (s : Sign) (e : BitVec 11) (m : BitVec 52) :
    (packComponents .binary64 s e m).toNat =
      s.toBitVec.toNat * 2 ^ 63 + e.toNat * 2 ^ 52 + m.toNat := by
  have he := e.isLt
  have hm := m.isLt
  have happend : packComponents .binary64 s e m = s.toBitVec ++ e ++ m := rfl
  rw [happend, BitVec.toNat_append, BitVec.toNat_append, ← Nat.shiftLeft_add_eq_or_of_lt hm,
    ← Nat.shiftLeft_add_eq_or_of_lt he, Nat.shiftLeft_eq, Nat.shiftLeft_eq]
  omega

theorem unpackSign_packComponents (s : Sign) (e : BitVec 11) (m : BitVec 52) :
    Sign.ofBitVec (unpackSign (packComponents .binary64 s e m)) = s := by
  have hsign : unpackSign (packComponents .binary64 s e m) = s.toBitVec := by
    simp only [unpackSign, packComponents, BitVec.extractLsb]
    rw [BitVec.extractLsb'_append_eq_of_le (by omega),
      BitVec.extractLsb'_append_eq_of_le (by omega)]
    cases s <;> rfl
  rw [hsign]
  cases s <;> rfl

theorem toNat_implicit_append (m : BitVec 52) : (1#1 ++ m).toNat = 2 ^ 52 + m.toNat := by
  rw [BitVec.toNat_append, ← Nat.shiftLeft_add_eq_or_of_lt m.isLt, Nat.shiftLeft_eq]
  rfl

/-- The doubles that a sign, an exponent and a mantissa encode. -/
inductive Encodes (s : Sign) (e : BitVec 11) (m : BitVec 52) : Float.Model.UnpackedFloat → Prop
  | infinity (he : e = -1#11) (hm : m = 0#52) : Encodes s e m (.infinity s)
  | zero (he : e = 0#11) (hm : m = 0#52) : Encodes s e m (.zero s)
  | subnormal (he : e = 0#11) (hm : 0 < m.toNat) : Encodes s e m (.finite s m.toNat (-1074) hm)
  | normal (hfull : e ≠ -1#11) (hempty : e ≠ 0#11) (hm : 0 < 2 ^ 52 + m.toNat) :
      Encodes s e m (.finite s (2 ^ 52 + m.toNat) (e.toNat - 1075) hm)

namespace Encodes

variable {s : Sign} {e : BitVec 11} {m : BitVec 52} {x : Float.Model.UnpackedFloat}

/-- Every mantissa and exponent encode a double, a NaN apart. -/
theorem unpack (s : Sign) (h : e = -1#11 → m = 0#52) :
    Encodes s e m (Float.Model.UnpackedFloat.unpack .binary64 (packComponents .binary64 s e m)) := by
  have hbias : ((Format.binary64.exponentBias : Nat) : Int) = 1023 := rfl
  rw [Float.Model.UnpackedFloat.unpack]
  simp only [unpackMantissa_packComponents, unpackExponent_packComponents,
    unpackSign_packComponents, toNat_implicit_append, hbias]
  by_cases hfull : e = -1#11
  · rw [if_pos hfull, if_pos (h hfull)]
    exact .infinity hfull (h hfull)
  rw [if_neg hfull]
  by_cases hempty : e = 0#11
  · rw [if_pos hempty]
    by_cases hm : m = 0#52
    · rw [dif_pos hm]
      exact .zero hempty hm
    · rw [dif_neg hm]
      subst hempty
      exact .subnormal rfl (Nat.pos_of_ne_zero fun h => hm (BitVec.eq_of_toNat_eq h))
  · rw [if_neg hempty]
    exact .normal hfull hempty _

theorem neg (h : Encodes s e m x) : Encodes (-s) e m x.neg := by
  cases h with
  | infinity he hm => exact .infinity he hm
  | zero he hm => exact .zero he hm
  | subnormal he hm => exact .subnormal he hm
  | normal hfull hempty hm => exact .normal hfull hempty hm

theorem pack (h : Encodes s e m x) :
    Float.Model.UnpackedFloat.pack .binary64 x = packComponents .binary64 s e m := by
  have hbias : ((Format.binary64.exponentBias : Nat) : Int) = 1023 := rfl
  have hm52 := m.isLt
  cases h with
  | infinity he hm => rw [he, hm]; rfl
  | zero he hm => rw [he, hm]; rfl
  | subnormal he hm =>
    have hlog : m.toNat.log2 < 52 := (Nat.log2_lt (Nat.ne_of_gt hm)).2 hm52
    have hbits : ¬m.toNat.log2 + 1 = Format.binary64.mantissaBits := by
      show ¬m.toNat.log2 + 1 = 1 + 52
      omega
    rw [Float.Model.UnpackedFloat.pack]
    simp only [hbias]
    rw [if_neg (by decide), if_neg hbits, he, BitVec.ofNat_toNat, BitVec.setWidth_eq]
  | normal hfull hempty hm =>
    have he := e.isLt
    have hfull : e.toNat ≠ 2047 := fun h => hfull (BitVec.eq_of_toNat_eq h)
    have hempty : e.toNat ≠ 0 := fun h => hempty (BitVec.eq_of_toNat_eq h)
    have hexponent : ((e.toNat : Int) - 1075 + 1023 + (52 : Nat)).toNat = e.toNat := by omega
    have hlog : (2 ^ 52 + m.toNat).log2 = 52 :=
      (Nat.log2_eq_iff (Nat.ne_of_gt hm)).2 ⟨by omega, by omega⟩
    rw [Float.Model.UnpackedFloat.pack]
    simp only [hbias, hexponent, hlog]
    have hmantissa : BitVec.ofNat 52 (2 ^ 52 + m.toNat) = m := by
      rw [← BitVec.toNat_inj, BitVec.toNat_ofNat, Nat.add_mod_left, Nat.mod_eq_of_lt hm52]
    rw [if_neg (by omega), if_pos (by rfl), hmantissa, BitVec.ofNat_toNat, BitVec.setWidth_eq]

end Encodes

/-! ### Bits from a sign and a pattern -/

/-- The bits of a sign and a pattern. -/
def packed (s : Sign) (pattern : Nat) : UInt64 :=
  .ofBitVec (packComponents .binary64 s (.ofNat 11 (pattern / 2 ^ 52)) (.ofNat 52 pattern))

variable {pattern : Nat} (s : Sign)

theorem toNat_packed (h : pattern < 2 ^ 63) :
    (packed s pattern).toNat = s.toBitVec.toNat * 2 ^ 63 + pattern := by
  have hbits : (packed s pattern).toNat = (packComponents .binary64 s
      (.ofNat 11 (pattern / 2 ^ 52)) (.ofNat 52 pattern)).toNat := rfl
  rw [hbits, toNat_packComponents, BitVec.toNat_ofNat, BitVec.toNat_ofNat]
  omega

/-- A pattern that is no NaN encodes a double. -/
theorem encodes_unpack_packed (h : pattern ≤ infinityPattern) :
    Encodes s (.ofNat 11 (pattern / 2 ^ 52)) (.ofNat 52 pattern)
      (Float.Model.UnpackedFloat.unpack .binary64 (packed s pattern).toBitVec) := by
  refine .unpack s fun hfull => BitVec.eq_of_toNat_eq ?_
  have hinf : infinityPattern = 2047 * 2 ^ 52 := rfl
  have hfull := congrArg BitVec.toNat hfull
  have hones : (-1#11).toNat = 2047 := rfl
  rw [hones, BitVec.toNat_ofNat] at hfull
  rw [BitVec.toNat_ofNat, BitVec.toNat_ofNat]
  omega

/-- The double of a sign and a pattern has these bits. -/
theorem toBits_ofBits_packed (h : pattern ≤ infinityPattern) :
    (Float.ofBits (packed s pattern)).toBits = packed s pattern := by
  show UInt64.ofBitVec (Float.Model.UnpackedFloat.pack .binary64 _) = _
  rw [(encodes_unpack_packed s h).pack]
  rfl

/-- Negation changes the sign. -/
theorem toBits_neg_ofBits_packed (h : pattern ≤ infinityPattern) :
    (-Float.ofBits (packed s pattern)).toBits = packed (-s) pattern := by
  have hmodel : (Float.ofBits (packed s pattern)).toModel.toBits = packed s pattern :=
    toBits_ofBits_packed s h
  show UInt64.ofBitVec (Float.Model.UnpackedFloat.pack .binary64
    (Float.Model.UnpackedFloat.unpack .binary64
      (Float.ofBits (packed s pattern)).toModel.toBits.toBitVec).neg) = _
  rw [hmodel, (encodes_unpack_packed s h).neg.pack]
  rfl

theorem packed_positive (h : pattern < 2 ^ 63) : packed .positive pattern = .ofNat pattern := by
  rw [← UInt64.toNat_inj, toNat_packed _ h, UInt64.toNat_ofNat', Nat.mod_eq_of_lt (by omega)]
  exact Nat.zero_add _

/-- The sign of a double as it is encoded. -/
def signOf (negative : Bool) : Sign := if negative then .negative else .positive

theorem eq_packed (bits : UInt64) :
    bits = packed (signOf (decide (2 ^ 63 ≤ bits.toNat))) (bits.toNat % 2 ^ 63) := by
  have hlt := bits.toNat_lt
  rw [← UInt64.toNat_inj, toNat_packed _ (Nat.mod_lt _ (by decide)), signOf]
  by_cases h : 2 ^ 63 ≤ bits.toNat
  · have hone : (Sign.toBitVec .negative).toNat = 1 := rfl
    rw [if_pos (decide_eq_true h), hone]
    omega
  · have hzero : (Sign.toBitVec .positive).toNat = 0 := rfl
    rw [if_neg (mt of_decide_eq_true h), hzero]
    omega

theorem toBits_eq_packed (x : Float) :
    x.toBits = packed (signOf (Signed.ofFloat x).negative) (Signed.ofFloat x).pattern :=
  eq_packed x.toBits

end Treewalk.Number
