import FarmLink.Binary.Double
import Mathlib.Algebra.Group.Nat.Defs
import Mathlib.Data.Nat.Log

/-!
# Rounding - patterns and their values

Rounding a quotient depends on its value only, not on the fraction that it is written as
(`round_mul_right`). A finite pattern is a whole number of units, and rounding that number gives
the pattern back (`round_units`): below one step of the exponent nothing is lost, and above it the
number has as many low zero bits as rounding takes away.
-/

namespace FarmLink

/-! ### Whole numbers nearest to a quotient -/

theorem roundQuotient_mul_right (n d : Nat) {k : Nat} (hk : 0 < k) :
    roundQuotient (n * k) (d * k) = roundQuotient n d := by
  have hbelow : 2 * (n % d * k) < d * k ↔ 2 * (n % d) < d := by
    rw [← Nat.mul_assoc]
    exact Nat.mul_lt_mul_right hk
  have habove : d * k < 2 * (n % d * k) ↔ d < 2 * (n % d) := by
    rw [← Nat.mul_assoc]
    exact Nat.mul_lt_mul_right hk
  unfold roundQuotient
  simp only [Nat.mul_div_mul_right n d hk, Nat.mul_mod_mul_right, hbelow, habove]

/-- A whole quotient is its own nearest number. -/
theorem roundQuotient_mul_self (q : Nat) {d : Nat} (hd : 0 < d) : roundQuotient (q * d) d = q := by
  unfold roundQuotient
  simp only [Nat.mul_div_cancel q hd, Nat.mul_mod_left]
  rw [if_pos (by omega)]

namespace Format

variable (f : Format)

/-- **Rounding depends on the value of a quotient only.** -/
theorem round_mul_right (n d : Nat) {k : Nat} (hk : 0 < k) :
    f.round (n * k) (d * k) = f.round n d := by
  have hunits : n * k * Nat.pow 2 f.scale = n * Nat.pow 2 f.scale * k := Nat.mul_right_comm ..
  have hshifted (s : Nat) : d * k * s = d * s * k := Nat.mul_right_comm ..
  unfold round
  simp only [hunits, Nat.mul_div_mul_right _ d hk, hshifted, roundQuotient_mul_right _ _ hk]

/-! ### Patterns from their values -/

theorem units_pos {p : Nat} (h : 0 < p) : 0 < f.units p := by
  have hstep : 0 < 2 ^ f.fractionBits := Nat.two_pow_pos _
  unfold units
  simp only [Nat.pow_eq]
  split
  · exact h
  · exact Nat.mul_pos (Nat.add_pos_left hstep _) (Nat.two_pow_pos _)

/-- A number of units that has no more bits than a pattern holds. -/
theorem log2_of_lt_step {p : Nat} (h : p < 2 ^ f.fractionBits) :
    Nat.log2 p - f.fractionBits = 0 := by
  by_cases hp : p = 0
  · rw [hp, Nat.log2_zero, Nat.zero_sub]
  · have hlog := (Nat.log2_lt hp).2 h
    omega

/-- The leading bit of a pattern above the first step, doubled with each further step. -/
theorem log2_units {m s : Nat} (h : m < 2 ^ f.fractionBits) :
    Nat.log2 ((2 ^ f.fractionBits + m) * 2 ^ s) = f.fractionBits + s := by
  have hpos : 0 < 2 ^ f.fractionBits + m := Nat.add_pos_left (Nat.two_pow_pos _) m
  have hpositive : (2 ^ f.fractionBits + m) * 2 ^ s ≠ 0 :=
    Nat.ne_of_gt (Nat.mul_pos hpos (Nat.two_pow_pos s))
  refine (Nat.log2_eq_iff hpositive).2 ⟨?_, ?_⟩
  · rw [Nat.pow_add]
    exact Nat.mul_le_mul_right _ (Nat.le_add_right _ _)
  · rw [Nat.add_right_comm, Nat.pow_add]
    refine Nat.mul_lt_mul_of_pos_right ?_ (Nat.two_pow_pos s)
    rw [Nat.pow_succ]
    omega

/-- **The value of a finite pattern rounds to the pattern.** -/
theorem round_units {p : Nat} (h : p < f.infinite) :
    f.round (f.units p) (Nat.pow 2 f.scale) = p := by
  have hscale : 0 < 2 ^ f.scale := Nat.two_pow_pos _
  have hstep : 0 < 2 ^ f.fractionBits := Nat.two_pow_pos _
  have hrest : p % 2 ^ f.fractionBits < 2 ^ f.fractionBits := Nat.mod_lt p hstep
  unfold round units
  simp only [Nat.pow_eq]
  rw [Nat.mul_div_cancel _ hscale]
  by_cases hp : p < 2 ^ f.fractionBits
  · rw [if_pos hp, f.log2_of_lt_step hp, Nat.pow_zero, Nat.mul_one, Nat.zero_mul, Nat.zero_add,
      roundQuotient_mul_self _ hscale, if_pos h]
  · rw [if_neg hp, f.log2_units hrest, Nat.add_sub_cancel_left]
    -- the low bits that rounding takes away are the zeros that the steps have put there
    have hfactor (m s : Nat) : m * 2 ^ s * 2 ^ f.scale = m * (2 ^ f.scale * 2 ^ s) := by
      rw [Nat.mul_assoc, Nat.mul_comm (2 ^ s)]
    rw [hfactor, roundQuotient_mul_self _ (Nat.mul_pos hscale (Nat.two_pow_pos _))]
    have hone : 1 ≤ p / 2 ^ f.fractionBits := (Nat.one_le_div_iff hstep).2 (Nat.not_lt.1 hp)
    have hpattern : (p / 2 ^ f.fractionBits - 1) * 2 ^ f.fractionBits +
        (2 ^ f.fractionBits + p % 2 ^ f.fractionBits) = p := by
      rw [← Nat.add_assoc, ← Nat.succ_mul, Nat.succ_eq_add_one, Nat.sub_add_cancel hone,
        Nat.mul_comm, Nat.div_add_mod]
    rw [hpattern, if_pos h]

end Format

end FarmLink
