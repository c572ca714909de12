import FarmLink.Numeral.Decimal
import FarmLink.Proofs.Binary.NearestDouble
import FarmLink.Proofs.Text.Numeral

/-!
# Nearest - decimals and the doubles nearest to them

A decimal writes a rational number (`Decimal.value`), by as many digits and as large an exponent as
one likes. Its double is the one nearest to that number and keeps the sign that is written, also
where the number is zero or goes to zero (`Decimal.isNearest_toDouble`); it is infinite from the
middle behind the largest double on (`Decimal.isFinite_toDouble_iff`). The two shortcuts past
powers of ten that are not computed are right, as such a decimal is beyond all doubles
(`Decimal.le_size_of_exponent`) or below half of the least one (`Decimal.two_mul_size_lt`).
-/

namespace FarmLink

namespace Decimal

variable {x : Decimal}

/-! ### The number of a decimal -/

/-- The number that a decimal writes, without its sign. -/
def size (x : Decimal) : ℚ := x.coefficient * 10 ^ x.exponent

/-- The number that a decimal writes. -/
def value (x : Decimal) : ℚ := signed x.negative x.size

theorem size_nonneg (x : Decimal) : 0 ≤ x.size :=
  mul_nonneg (Nat.cast_nonneg _) (zpow_nonneg (by decide) _)

theorem abs_value (x : Decimal) : |x.value| = x.size := abs_signed _ x.size_nonneg

theorem size_of_exponent_nonneg (h : 0 ≤ x.exponent) :
    x.size = ((x.coefficient * 10 ^ x.exponent.toNat : Nat) : ℚ) / (1 : Nat) := by
  have hexponent : x.exponent = (x.exponent.toNat : ℤ) := (Int.toNat_of_nonneg h).symm
  rw [size, hexponent, zpow_natCast, Int.toNat_natCast]
  push_cast
  rw [div_one]

theorem size_of_exponent_neg (h : x.exponent < 0) :
    x.size = (x.coefficient : ℚ) / ((10 ^ (-x.exponent).toNat : Nat) : ℚ) := by
  have hexponent : x.exponent = -((-x.exponent).toNat : ℤ) := by omega
  generalize (-x.exponent).toNat = places at *
  rw [size, hexponent, zpow_neg, zpow_natCast, div_eq_mul_inv]
  push_cast
  rfl

/-! ### Powers of ten that are not computed -/

theorem le_mul_ten_pow {limit c m n : Nat} (hlimit : limit ≤ 10 ^ m) (hc : c ≠ 0) (h : m ≤ n) :
    limit ≤ c * 10 ^ n := by
  calc limit ≤ 10 ^ n := hlimit.trans (Nat.pow_le_pow_right (by decide) h)
    _ ≤ c * 10 ^ n := Nat.le_mul_of_pos_left _ (Nat.pos_of_ne_zero hc)

/-- A decimal with more than 310 zeros behind it is beyond all doubles. -/
theorem le_size_of_exponent (hcoefficient : x.coefficient ≠ 0) (h : 310 < x.exponent) :
    2 ^ 1024 - 2 ^ 970 ≤ x.size := by
  have hnonneg : 0 ≤ x.exponent := by omega
  have hplaces : 311 ≤ x.exponent.toNat := by omega
  have hlimit : 2 ^ 1024 ≤ x.coefficient * 10 ^ x.exponent.toNat :=
    le_mul_ten_pow (by decide +kernel) hcoefficient hplaces
  have hsize : ((2 ^ 1024 : Nat) : ℚ) ≤ x.size := by
    rw [size_of_exponent_nonneg hnonneg, Nat.cast_one, div_one]
    exact Nat.cast_le.2 hlimit
  rw [Nat.cast_pow, Nat.cast_ofNat] at hsize
  exact (sub_le_self _ (pow_nonneg (by decide) _)).trans hsize

/-- A number of some bits is below the power of ten with as many places. -/
theorem mul_lt_ten_pow {c bits limit m n : Nat} (hbits : c < 2 ^ (bits + 1)) (hpos : 0 < limit)
    (hlimit : 4 * limit ≤ 10 ^ m) (h : bits + m ≤ n) : 2 * c * limit < 10 ^ n := by
  calc 2 * c * limit < 2 * 2 ^ (bits + 1) * limit :=
        Nat.mul_lt_mul_of_pos_right (Nat.mul_lt_mul_of_pos_left hbits two_pos) hpos
    _ = 2 ^ bits * (4 * limit) := by rw [Nat.pow_succ]; ring
    _ ≤ 10 ^ bits * 10 ^ m := Nat.mul_le_mul (Nat.pow_le_pow_left (by decide) _) hlimit
    _ = 10 ^ (bits + m) := (Nat.pow_add _ _ _).symm
    _ ≤ 10 ^ n := Nat.pow_le_pow_right (by decide) h

/-- A decimal with 400 places more than bits is below half of the least positive double. -/
theorem two_mul_size_lt (h : x.exponent + Nat.log2 x.coefficient + 400 < 0) :
    2 * x.size < 1 / 2 ^ 1074 := by
  have hneg : x.exponent < 0 := by omega
  have hplaces : Nat.log2 x.coefficient + 401 ≤ (-x.exponent).toNat := by omega
  have hlt : 2 * x.coefficient * 2 ^ 1074 < 10 ^ (-x.exponent).toNat :=
    mul_lt_ten_pow Nat.lt_log2_self (pow_pos two_pos 1074) (by decide +kernel) hplaces
  have hpos : (0 : ℚ) < ((10 ^ (-x.exponent).toNat : Nat) : ℚ) :=
    Nat.cast_pos.2 (Nat.pow_pos (by decide))
  have hltq := (Nat.cast_lt (α := ℚ)).2 hlt
  rw [size_of_exponent_neg hneg, ← mul_div_assoc,
    div_lt_div_iff₀ hpos (pow_pos (by decide) _), one_mul]
  rwa [Nat.cast_mul, Nat.cast_mul, Nat.cast_ofNat, Nat.cast_pow 2, Nat.cast_ofNat] at hltq

/-! ### The double of a decimal -/

theorem negative_toDouble (x : Decimal) : x.toDouble.negative = x.negative := by
  unfold toDouble
  split_ifs <;> rfl

/-- **The size of a decimal is rounded once**, whichever way its double is found. -/
theorem roundsToDouble (x : Decimal) : Format.RoundsToDouble x.size x.toDouble.magnitude := by
  unfold toDouble
  split_ifs with hzero hlarge hwhole hsmall
  · have hsize : x.size = 0 := by rw [size, hzero, Nat.cast_zero, zero_mul]
    refine Format.roundsToDouble_zero x.size_nonneg ?_
    rw [hsize, mul_zero]
    exact div_pos one_pos (pow_pos (by decide) _)
  · exact Format.roundsToDouble_infinite (le_size_of_exponent hzero hlarge)
  · rw [size_of_exponent_nonneg hwhole]
    exact Format.roundsToDouble_round _ Nat.one_pos
  · exact Format.roundsToDouble_zero x.size_nonneg (two_mul_size_lt hsmall)
  · rw [size_of_exponent_neg (by omega)]
    exact Format.roundsToDouble_round _ (Nat.pow_pos (by decide))

/-- **The double of a decimal is nearest to its number.** -/
theorem isNearest_toDouble (h : |x.value| < 2 ^ 1024 - 2 ^ 970) :
    x.toDouble.IsNearest x.value := by
  rw [abs_value] at h
  have hnearest := (Double.isNearest_signed_iff x.size_nonneg).2 (x.roundsToDouble.isNearest h)
  rwa [negative_toDouble] at hnearest

/-- **A decimal has a finite double below the middle behind the largest one.** -/
theorem isFinite_toDouble_iff : x.toDouble.isFinite = true ↔ |x.value| < 2 ^ 1024 - 2 ^ 970 := by
  refine ⟨fun hfinite => ?_, fun h => (isNearest_toDouble h).finite⟩
  by_contra h
  rw [abs_value, not_lt] at h
  have hlt : x.toDouble.magnitude < Format.double.infinite := of_decide_eq_true hfinite
  exact absurd (x.roundsToDouble.eq_infinite h) hlt.ne

/-- A double that is nearest and has the sign of the decimal is the double of the decimal. -/
theorem eq_toDouble {y : Double} (h : |x.value| < 2 ^ 1024 - 2 ^ 970)
    (hy : y.IsNearest x.value) (hsign : y.negative = x.negative) : y = x.toDouble := by
  have hx := isNearest_toDouble h
  have hsame : y.negative = x.toDouble.negative := hsign.trans x.negative_toDouble.symm
  rw [value, ← hsign] at hx hy
  exact hy.unique x.size_nonneg hsame hx

end Decimal

end FarmLink
