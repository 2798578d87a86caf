import Treewalk.Proofs.Number.Bits
import Treewalk.Proofs.Number.ReadBack

/-!
# Rendered literals

A number of a source text is a double without a sign. If it is finite, its rendering is a number of
the lexical grammar again and is read as the same double. A number that is too large for a finite
double is the infinity, whose rendering is a name. So no two numbers of source texts are rendered
alike.

## Main results

* `lexeme_rendered` — the rendering of a number of a source text is a lexeme
-/

namespace Treewalk.Number

variable {pattern : ℕ}

/-- The sign and the pattern of a double without a sign. -/
theorem Signed.ofFloat_ofBits (h : pattern ≤ infinityPattern) :
    Signed.ofFloat (.ofBits (.ofNat pattern)) = ⟨false, pattern⟩ := by
  have hlt : pattern < Nat.pow 2 63 := h.trans_lt (by decide)
  have hbits : (Float.ofBits (.ofNat pattern)).toBits.toNat = pattern := by
    rw [← packed_positive hlt, toBits_ofBits_packed _ h, packed_positive hlt, UInt64.toNat_ofNat',
      Nat.mod_eq_of_lt (hlt.trans (by decide))]
  rw [Signed.ofFloat]
  simp only [hbits, Nat.mod_eq_of_lt hlt, decide_eq_false (Nat.not_le.2 hlt)]

def infinity : Float := .ofBits (.ofNat infinityPattern)

theorem rendered_infinity : rendered infinity = "inf" := by
  have hmagnitude : (Signed.ofFloat infinity).magnitude = .infinity := by
    rw [infinity, Signed.ofFloat_ofBits le_rfl]
    rfl
  have hnegative : (Signed.ofFloat infinity).negative = false := by
    rw [infinity, Signed.ofFloat_ofBits le_rfl]
  rw [rendered]
  simp only [hmagnitude]
  rw [positional, hmagnitude, hnegative]
  rfl

theorem exists_pattern_of_number {value : Float} {text : List Char}
    (h : Lexeme.Number (.number value) text) :
    ∃ pattern ≤ infinityPattern, value = .ofBits (.ofNat pattern) := by
  generalize hkind : Kind.number value = kind at h
  cases h <;> exact ⟨_, nearestPattern_le _ _, Kind.number.inj hkind⟩

/-- A number of a source text is rendered as one, unless it is the infinity. -/
theorem lexeme_rendered {value : Float} {text : List Char}
    (h : Lexeme.Number (.number value) text) :
    value = infinity ∨ Lexeme.Number (.number value) (rendered value).toList := by
  obtain ⟨pattern, hle, rfl⟩ := exists_pattern_of_number h
  obtain rfl | hlt := hle.eq_or_lt
  · exact .inl rfl
  · obtain ⟨d, hd⟩ := Magnitude.exists_finite_of_lt hlt
    have hsigned := Signed.ofFloat_ofBits hle
    have hmagnitude : (Signed.ofFloat (.ofBits (.ofNat pattern))).magnitude = .finite d := by
      rw [hsigned]
      exact hd
    obtain ⟨unsigned, htext, hnumber⟩ := rendered_reads hmagnitude
    rw [hsigned] at htext hnumber
    rw [htext, sign, if_neg Bool.false_ne_true, String.empty_append]
    exact .inr hnumber

end Treewalk.Number
