import FarmLink.Proofs.Binary.Rounding
import Mathlib.Algebra.Order.Field.Rat
import Mathlib.Data.Nat.Cast.Order.Field
import Mathlib.Order.Monotone.Basic
import Mathlib.Tactic.Linarith
import Mathlib.Tactic.NormNum
import Mathlib.Tactic.Ring

/-!
# Nearest - rounding gives the nearest pattern

The value of a pattern is read off its exponent and its fraction (`Format.value`), and patterns
order as their values do. Rounding a quotient gives a pattern whose value is as near to the quotient
as that of any other one, and an even pattern where another one is as near (`round_isNearest`);
there is one such pattern only (`IsNearest.unique`). The quotients that round to infinity are those
from the middle between the largest finite value and the one that would follow it
(`round_eq_infinite_iff`).

Rounding takes as many low bits away as the quotient is too long. So the quotient is rounded to a
whole number of steps of a grid. The patterns from the power of two in front of the quotient on are
points of that grid, and those below it stand on the far side of that power.
-/

namespace FarmLink

/-! ### Whole numbers -/

theorem le_roundQuotient (n d : Nat) : n / d ≤ roundQuotient n d := by
  unfold roundQuotient
  dsimp only
  split_ifs <;> omega

theorem roundQuotient_le (n d : Nat) : roundQuotient n d ≤ n / d + 1 := by
  unfold roundQuotient
  dsimp only
  split_ifs <;> omega

/-- A quotient is no more than one half away from the number that it is rounded to, and this one is
even where it is one half. -/
theorem abs_sub_roundQuotient (n : Nat) {d : Nat} (hd : 0 < d) :
    |(n : ℚ) / d - roundQuotient n d| ≤ 1 / 2 ∧
      (|(n : ℚ) / d - roundQuotient n d| = 1 / 2 → roundQuotient n d % 2 = 0) := by
  have hdq : (0 : ℚ) < d := by exact_mod_cast hd
  have hsplit : (n : ℚ) / d = (n / d : Nat) + ((n % d : Nat) : ℚ) / d := by
    have h : (n : ℚ) = d * (n / d : Nat) + (n % d : Nat) := by
      exact_mod_cast (Nat.div_add_mod n d).symm
    rw [div_eq_iff hdq.ne', add_mul, div_mul_cancel₀ _ hdq.ne']
    linarith
  have hlt : n % d < d := Nat.mod_lt n hd
  rw [hsplit]
  unfold roundQuotient
  dsimp only
  generalize n / d = q
  generalize n % d = r at hlt
  have hrest : (0 : ℚ) ≤ (r : ℚ) / d := by positivity
  split_ifs with hbelow habove
  · -- below the middle
    have h : (r : ℚ) / d < 1 / 2 := by
      rw [div_lt_div_iff₀ hdq two_pos]
      exact_mod_cast (by omega : r * 2 < 1 * d)
    rw [add_sub_cancel_left, abs_of_nonneg hrest]
    exact ⟨h.le, fun heq => absurd heq h.ne⟩
  · -- above it
    have hone : (r : ℚ) / d < 1 := by
      rw [div_lt_one hdq]
      exact_mod_cast hlt
    have h : 1 / 2 < (r : ℚ) / d := by
      rw [div_lt_div_iff₀ two_pos hdq]
      exact_mod_cast (by omega : 1 * d < r * 2)
    have habs : |((q : ℚ) + (r : ℚ) / d) - ((q + 1 : Nat) : ℚ)| = 1 - (r : ℚ) / d := by
      rw [abs_of_nonpos (by push_cast; linarith)]
      push_cast
      ring
    rw [habs]
    exact ⟨by linarith, fun heq => by linarith⟩
  · -- in the middle, where the even neighbour is taken
    have h : (r : ℚ) / d = 1 / 2 := by
      rw [div_eq_div_iff hdq.ne' two_ne_zero]
      exact_mod_cast (by omega : r * 2 = 1 * d)
    rw [h]
    rcases Nat.mod_two_eq_zero_or_one q with hq | hq <;> rw [hq]
    · refine ⟨?_, fun _ => hq⟩
      rw [Nat.add_zero, add_sub_cancel_left, abs_of_pos one_half_pos]
    · refine ⟨?_, fun _ => by omega⟩
      push_cast
      rw [add_sub_add_left_eq_sub, abs_of_neg (by norm_num)]
      norm_num

/-- **A quotient is rounded to the nearest whole number**, and to an even one where another one is
as near. -/
theorem roundQuotient_nearest (n : Nat) {d : Nat} (hd : 0 < d) (k : Nat) :
    |(n : ℚ) / d - roundQuotient n d| ≤ |(n : ℚ) / d - k| ∧
      (k ≠ roundQuotient n d → |(n : ℚ) / d - roundQuotient n d| = |(n : ℚ) / d - k| →
        roundQuotient n d % 2 = 0) := by
  obtain ⟨hhalf, heven⟩ := abs_sub_roundQuotient n hd
  by_cases hk : k = roundQuotient n d
  · rw [hk]
    exact ⟨le_rfl, fun h => absurd rfl h⟩
  · -- another whole number is at least one away from the rounded one
    have hone : (1 : ℚ) ≤ |(roundQuotient n d : ℚ) - k| := by
      have h : (1 : ℤ) ≤ |(roundQuotient n d : ℤ) - k| := Int.one_le_abs (by omega)
      exact_mod_cast h
    have htriangle := abs_sub_le (roundQuotient n d : ℚ) ((n : ℚ) / d) k
    rw [abs_sub_comm (roundQuotient n d : ℚ) ((n : ℚ) / d)] at htriangle
    exact ⟨by linarith, fun _ heq => heven (by linarith)⟩

/-! ### Which of two numbers is nearer -/

section Middle

variable {a b v : ℚ}

/-- The larger of two numbers is as near as the smaller one from their middle on. -/
theorem abs_sub_le_abs_sub_iff (h : a < b) : |v - b| ≤ |v - a| ↔ (a + b) / 2 ≤ v := by
  rcases abs_cases (v - a) with ⟨ha, ha'⟩ | ⟨ha, ha'⟩ <;>
    rcases abs_cases (v - b) with ⟨hb, hb'⟩ | ⟨hb, hb'⟩ <;>
      rw [ha, hb] <;> constructor <;> intro hle <;> linarith

/-- The smaller one is as near up to the middle. -/
theorem abs_sub_le_abs_sub_iff' (h : a < b) : |v - a| ≤ |v - b| ↔ v ≤ (a + b) / 2 := by
  rcases abs_cases (v - a) with ⟨ha, ha'⟩ | ⟨ha, ha'⟩ <;>
    rcases abs_cases (v - b) with ⟨hb, hb'⟩ | ⟨hb, hb'⟩ <;>
      rw [ha, hb] <;> constructor <;> intro hle <;> linarith

end Middle

namespace Format

variable (f : Format)

/-! ### Patterns and their values -/

/-- The units of a pattern by the steps of the exponent below it and by what stands above them,
which has the leading bit where there is a step. -/
theorem units_step {s q : Nat} (hq : q ≤ 2 * 2 ^ f.fractionBits)
    (hlead : s = 0 ∨ 2 ^ f.fractionBits ≤ q) :
    f.units (s * 2 ^ f.fractionBits + q) = q * 2 ^ s := by
  have hstep : 0 < 2 ^ f.fractionBits := Nat.two_pow_pos _
  unfold units
  simp only [Nat.pow_eq]
  generalize 2 ^ f.fractionBits = step at *
  by_cases hbelow : q < step
  · obtain rfl : s = 0 := by omega
    rw [Nat.zero_mul, Nat.zero_add, if_pos hbelow, Nat.pow_zero, Nat.mul_one]
  · by_cases htop : q = 2 * step
    · have hdiv : (s * step + q) / step = s + 2 := by
        rw [htop, ← Nat.add_mul, Nat.mul_div_cancel _ hstep]
      have hmod : (s * step + q) % step = 0 := by
        rw [htop, ← Nat.add_mul, Nat.mul_mod_left]
      rw [if_neg (by omega), hdiv, hmod, htop, Nat.add_zero, show s + 2 - 1 = s + 1 from rfl,
        Nat.pow_succ]
      ring
    · have hrest : s * step + q = (s + 1) * step + (q - step) := by
        rw [Nat.succ_mul]
        omega
      have hdiv : (s * step + q) / step = s + 1 := by
        rw [hrest, Nat.mul_comm, Nat.mul_add_div hstep, Nat.div_eq_of_lt (by omega), Nat.add_zero]
      have hmod : (s * step + q) % step = q - step := by
        rw [hrest, Nat.mul_comm, Nat.mul_add_mod, Nat.mod_eq_of_lt (by omega)]
      rw [if_neg (by omega), hdiv, hmod, Nat.add_sub_cancel, Nat.add_sub_of_le (by omega)]

/-- Every pattern has some steps of the exponent below it. -/
theorem exists_step (p : Nat) : ∃ s q, p = s * 2 ^ f.fractionBits + q ∧
    q < 2 * 2 ^ f.fractionBits ∧ (s = 0 ∨ 2 ^ f.fractionBits ≤ q) := by
  have hstep : 0 < 2 ^ f.fractionBits := Nat.two_pow_pos _
  generalize 2 ^ f.fractionBits = step at *
  have hsplit := Nat.div_add_mod p step
  have hlt := Nat.mod_lt p hstep
  rcases hs : p / step with - | s
  · refine ⟨0, p % step, ?_, by omega, .inl rfl⟩
    rw [hs] at hsplit
    omega
  · refine ⟨s, step + p % step, ?_, by omega, .inr (by omega)⟩
    rw [hs, Nat.mul_succ, Nat.mul_comm] at hsplit
    omega

/-- **Patterns order as their values do.** -/
theorem units_strictMono : StrictMono f.units := by
  refine strictMono_nat_of_lt_succ fun p => ?_
  obtain ⟨s, q, rfl, hq, hlead⟩ := f.exists_step p
  rw [f.units_step hq.le hlead, Nat.add_assoc,
    f.units_step hq (hlead.imp_right (Nat.le_trans · (Nat.le_succ q)))]
  exact Nat.mul_lt_mul_of_pos_right (Nat.lt_succ_self q) (Nat.two_pow_pos s)

/-- Every number of units that is a short number followed by zero bits has a pattern. -/
theorem exists_units (s : Nat) {q : Nat} (hq : q ≤ 2 * 2 ^ f.fractionBits) :
    ∃ p, f.units p = q * 2 ^ s := by
  induction s generalizing q with
  | zero => exact ⟨0 * 2 ^ f.fractionBits + q, f.units_step hq (.inl rfl)⟩
  | succ s ih =>
    by_cases hlead : 2 ^ f.fractionBits ≤ q
    · exact ⟨_, f.units_step hq (.inr hlead)⟩
    · -- without the leading bit there is room for one of the zeros
      obtain ⟨p, hp⟩ := ih (q := 2 * q) (by omega)
      refine ⟨p, ?_⟩
      rw [hp, Nat.pow_succ]
      ring

/-- The value of a finite pattern: below the first step of the exponent its fraction in units, above
it the fraction behind a leading one, doubled with each further step. -/
def value (p : Nat) : ℚ :=
  if p / 2 ^ f.fractionBits = 0 then
    (p % 2 ^ f.fractionBits : Nat) * (2 : ℚ) ^ (-f.scale : ℤ)
  else
    (2 ^ f.fractionBits + p % 2 ^ f.fractionBits : Nat)
      * (2 : ℚ) ^ ((p / 2 ^ f.fractionBits : Nat) - 1 - f.scale : ℤ)

theorem value_eq (p : Nat) : f.value p = f.units p / 2 ^ f.scale := by
  have hstep : 0 < 2 ^ f.fractionBits := Nat.two_pow_pos _
  unfold value units
  simp only [Nat.pow_eq, Nat.div_eq_zero_iff_lt hstep]
  split_ifs with hp
  · rw [Nat.mod_eq_of_lt hp, zpow_neg, zpow_natCast, div_eq_mul_inv]
  · have hone : 1 ≤ p / 2 ^ f.fractionBits := (Nat.one_le_div_iff hstep).2 (Nat.not_lt.1 hp)
    rw [zpow_sub₀ two_ne_zero, zpow_natCast, ← Nat.cast_pred hone, zpow_natCast]
    push_cast
    ring

theorem value_nonneg (p : Nat) : 0 ≤ f.value p := by
  rw [value_eq]
  positivity

theorem value_strictMono : StrictMono f.value := by
  intro p q h
  rw [value_eq, value_eq, div_lt_div_iff_of_pos_right (by positivity)]
  exact_mod_cast f.units_strictMono h

/-! ### The nearest pattern -/

/-- How many low bits rounding takes away from a quotient in units. -/
def shift (n d : Nat) : Nat := Nat.log2 (n * 2 ^ f.scale / d) - f.fractionBits

/-- The rounded pattern, counted on behind the largest finite one. -/
def pattern (n d : Nat) : Nat :=
  f.shift n d * 2 ^ f.fractionBits + roundQuotient (n * 2 ^ f.scale) (d * 2 ^ f.shift n d)

theorem round_eq (n d : Nat) :
    f.round n d = if f.pattern n d < f.infinite then f.pattern n d else f.infinite := rfl

variable {f} {n d : Nat}

/-- A quotient in steps is shorter than the leading bit and the fraction, and has the leading bit
where low bits have been taken away. -/
theorem div_shift_bounds (n d : Nat) :
    n * 2 ^ f.scale / (d * 2 ^ f.shift n d) < 2 * 2 ^ f.fractionBits ∧
      (f.shift n d = 0 ∨
        2 ^ f.fractionBits ≤ n * 2 ^ f.scale / (d * 2 ^ f.shift n d)) := by
  rw [← Nat.div_div_eq_div_mul]
  unfold shift
  generalize n * 2 ^ f.scale / d = m
  have hpow : 2 * 2 ^ f.fractionBits = 2 ^ (f.fractionBits + 1) := (Nat.pow_succ').symm
  rw [Nat.div_lt_iff_lt_mul (Nat.two_pow_pos _), Nat.le_div_iff_mul_le (Nat.two_pow_pos _), hpow,
    ← Nat.pow_add, ← Nat.pow_add]
  have hlt : m < 2 ^ (Nat.log2 m + 1) := Nat.lt_log2_self
  constructor
  · exact Nat.lt_of_lt_of_le hlt (Nat.pow_le_pow_right (by decide) (by omega))
  · by_cases hm : m = 0
    · exact .inl (by simp [hm])
    · rcases Nat.le_total (Nat.log2 m) f.fractionBits with hle | hle
      · exact .inl (by omega)
      · right
        rw [Nat.add_sub_of_le hle]
        exact Nat.log2_self_le hm

theorem units_pattern (n d : Nat) :
    f.units (f.pattern n d) =
      roundQuotient (n * 2 ^ f.scale) (d * 2 ^ f.shift n d) * 2 ^ f.shift n d := by
  obtain ⟨hlt, hlead⟩ := div_shift_bounds (f := f) n d
  refine f.units_step ?_ (hlead.imp_right fun h => h.trans (le_roundQuotient _ _))
  exact (roundQuotient_le _ _).trans hlt

/-- A pattern is a point of the grid, or it stands below the power of two in front of the
quotient. -/
theorem units_on_grid (s p : Nat) :
    (∃ k, f.units p = k * 2 ^ s) ∨
      f.units p < 2 ^ f.fractionBits * 2 ^ s ∧ 0 < s := by
  obtain ⟨t, q, rfl, hq, hlead⟩ := f.exists_step p
  rw [f.units_step hq.le hlead]
  rcases Nat.lt_or_ge t s with hgt | hle
  · refine .inr ⟨?_, Nat.zero_lt_of_lt hgt⟩
    calc q * 2 ^ t < 2 * 2 ^ f.fractionBits * 2 ^ t :=
          Nat.mul_lt_mul_of_pos_right hq (Nat.two_pow_pos t)
      _ = 2 ^ f.fractionBits * 2 ^ (t + 1) := by rw [Nat.pow_succ]; ring
      _ ≤ 2 ^ f.fractionBits * 2 ^ s :=
          Nat.mul_le_mul_left _ (Nat.pow_le_pow_right (by decide) hgt)
  · refine .inl ⟨q * 2 ^ (t - s), ?_⟩
    rw [Nat.mul_assoc, ← Nat.pow_add, Nat.sub_add_cancel hle]

/-- The distance from a quotient to a point of the grid, in units. -/
theorem abs_sub_grid (v : ℚ) (k s : Nat) :
    |v - (k * 2 ^ s : Nat)| = |v / 2 ^ s - k| * 2 ^ s := by
  have hpos : (0 : ℚ) < 2 ^ s := by positivity
  rw [← abs_of_pos hpos, ← abs_mul, abs_of_pos hpos, sub_mul, div_mul_cancel₀ _ hpos.ne']
  push_cast
  rfl

/-- **The rounded pattern is nearest among all patterns**, and even where another one is as near. -/
theorem units_pattern_nearest (hbits : 0 < f.fractionBits) (hd : 0 < d) (p : Nat) :
    |((n * 2 ^ f.scale : Nat) : ℚ) / d - f.units (f.pattern n d)| ≤
        |((n * 2 ^ f.scale : Nat) : ℚ) / d - f.units p| ∧
      (p ≠ f.pattern n d → |((n * 2 ^ f.scale : Nat) : ℚ) / d - f.units (f.pattern n d)| =
        |((n * 2 ^ f.scale : Nat) : ℚ) / d - f.units p| → f.pattern n d % 2 = 0) := by
  have hparity : f.pattern n d % 2 =
      roundQuotient (n * 2 ^ f.scale) (d * 2 ^ f.shift n d) % 2 := by
    obtain ⟨b, hb⟩ := Nat.exists_eq_succ_of_ne_zero hbits.ne'
    unfold pattern
    rw [hb, Nat.pow_succ, ← Nat.mul_assoc]
    omega
  have hinjective : p ≠ f.pattern n d → f.units p ≠ f.units (f.pattern n d) := fun hp h =>
    hp (f.units_strictMono.injective h)
  have hlead := (div_shift_bounds (f := f) n d).2
  have hnearest := roundQuotient_nearest (n * 2 ^ f.scale)
    (Nat.mul_pos hd (Nat.two_pow_pos (f.shift n d)))
  rw [units_pattern n d] at hinjective ⊢
  rw [hparity]
  generalize hq : roundQuotient (n * 2 ^ f.scale) (d * 2 ^ f.shift n d) = q at *
  generalize f.shift n d = s at *
  generalize n * 2 ^ f.scale = m at *
  have hpos : (0 : ℚ) < 2 ^ s := by positivity
  have hsteps : ((m : ℚ) / d) / 2 ^ s = (m : ℚ) / ((d * 2 ^ s : Nat) : ℚ) := by
    push_cast
    rw [div_div]
  -- among the points of the grid the rounded one is nearest
  have hgrid (k : Nat) : |(m : ℚ) / d - (q * 2 ^ s : Nat)| ≤ |(m : ℚ) / d - (k * 2 ^ s : Nat)| := by
    rw [abs_sub_grid, abs_sub_grid, hsteps]
    exact mul_le_mul_of_nonneg_right (hnearest k).1 hpos.le
  rcases units_on_grid (f := f) s p with ⟨k, hk⟩ | ⟨hbelow, hs⟩
  · rw [hk] at hinjective ⊢
    refine ⟨hgrid k, fun hp heq => ?_⟩
    rw [abs_sub_grid, abs_sub_grid, hsteps, mul_left_inj' hpos.ne'] at heq
    refine (hnearest k).2 ?_ heq
    rintro rfl
    exact hinjective hp rfl
  · -- the power of two lies between the pattern and the quotient
    have hpower : ((2 ^ f.fractionBits * 2 ^ s : Nat) : ℚ) ≤ (m : ℚ) / d := by
      have hle : 2 ^ f.fractionBits ≤ m / (d * 2 ^ s) := hlead.resolve_left hs.ne'
      rw [Nat.le_div_iff_mul_le (Nat.mul_pos hd (Nat.two_pow_pos s))] at hle
      rw [le_div_iff₀ (by exact_mod_cast hd)]
      exact_mod_cast (by rw [Nat.mul_assoc, Nat.mul_comm (2 ^ s)]; exact hle :
        2 ^ f.fractionBits * 2 ^ s * d ≤ m)
    have hunits : (f.units p : ℚ) < ((2 ^ f.fractionBits * 2 ^ s : Nat) : ℚ) := by
      exact_mod_cast hbelow
    have hfar : |(m : ℚ) / d - (2 ^ f.fractionBits * 2 ^ s : Nat)| < |(m : ℚ) / d - f.units p| := by
      rw [abs_of_nonneg (sub_nonneg.2 hpower), abs_of_nonneg (by linarith)]
      linarith
    have hlt := (hgrid (2 ^ f.fractionBits)).trans_lt hfar
    exact ⟨hlt.le, fun _ heq => absurd heq hlt.ne⟩

/-- The finite pattern whose value is nearest to a number that is not negative, the even one of two
that are equally near. -/
structure IsNearest (f : Format) (v : ℚ) (p : Nat) : Prop where
  finite : p < f.infinite
  nearest : ∀ q < f.infinite, |v - f.value p| ≤ |v - f.value q|
  even : ∀ q < f.infinite, q ≠ p → |v - f.value p| = |v - f.value q| → p % 2 = 0

/-- A distance, in units. -/
theorem abs_sub_value (n d p : Nat) :
    |(n : ℚ) / d - f.value p| =
      |((n * 2 ^ f.scale : Nat) : ℚ) / d - f.units p| / 2 ^ f.scale := by
  have hpos : (0 : ℚ) < 2 ^ f.scale := by positivity
  rw [value_eq, eq_div_iff hpos.ne', ← abs_of_pos hpos, ← abs_mul, abs_of_pos hpos, sub_mul,
    div_mul_cancel₀ _ hpos.ne', div_mul_eq_mul_div]
  push_cast
  rfl

theorem pattern_nearest (hbits : 0 < f.fractionBits) (hd : 0 < d) (p : Nat) :
    |(n : ℚ) / d - f.value (f.pattern n d)| ≤ |(n : ℚ) / d - f.value p| ∧
      (p ≠ f.pattern n d →
        |(n : ℚ) / d - f.value (f.pattern n d)| = |(n : ℚ) / d - f.value p| →
        f.pattern n d % 2 = 0) := by
  have hpos : (0 : ℚ) < 2 ^ f.scale := by positivity
  rw [abs_sub_value, abs_sub_value, div_le_div_iff_of_pos_right hpos, div_left_inj' hpos.ne']
  exact units_pattern_nearest hbits hd p

/-- **Rounding gives the nearest pattern.** -/
theorem round_isNearest (hbits : 0 < f.fractionBits) (hd : 0 < d)
    (hfinite : f.round n d < f.infinite) : f.IsNearest ((n : ℚ) / d) (f.round n d) := by
  have hround : f.round n d = f.pattern n d := by
    rw [round_eq] at hfinite ⊢
    split_ifs at hfinite ⊢
    · rfl
    · omega
  rw [hround] at hfinite ⊢
  exact ⟨hfinite, fun q _ => (pattern_nearest hbits hd q).1,
    fun q _ => (pattern_nearest hbits hd q).2⟩

/-- A whole number no longer than the leading bit and the fraction is rounded to its own value. -/
theorem value_round_whole {m : Nat} (hm : m ≤ 2 * 2 ^ f.fractionBits)
    (hroom : f.scale * 2 ^ f.fractionBits + 2 * 2 ^ f.fractionBits < f.infinite) :
    f.round m 1 < f.infinite ∧ f.value (f.round m 1) = m := by
  obtain ⟨p, hp⟩ := f.exists_units f.scale hm
  have hfinite : p < f.infinite := by
    refine Nat.lt_of_le_of_lt ?_ hroom
    rw [← f.units_strictMono.le_iff_le, hp, f.units_step le_rfl (.inr (by omega))]
    exact Nat.mul_le_mul_right _ hm
  have hround : f.round m 1 = p := by
    rw [← f.round_mul_right m 1 (Nat.two_pow_pos f.scale), ← hp, Nat.one_mul]
    exact f.round_units hfinite
  rw [hround]
  refine ⟨hfinite, ?_⟩
  rw [value_eq, hp]
  push_cast
  exact mul_div_cancel_right₀ _ (by positivity)

/-- **There is one nearest pattern.**  Of two equally near ones only neighbours could both be
nearest, and of these one is odd. -/
theorem IsNearest.unique {v : ℚ} {p q : Nat} (hp : f.IsNearest v p) (hq : f.IsNearest v q) :
    p = q := by
  by_contra hne
  wlog hlt : p < q generalizing p q
  · exact this hq hp (Ne.symm hne) (by omega)
  have heq : |v - f.value p| = |v - f.value q| :=
    le_antisymm (hp.nearest q hq.finite) (hq.nearest p hp.finite)
  have hevenp := hp.even q hq.finite (Ne.symm hne) heq
  have hevenq := hq.even p hp.finite hne heq.symm
  -- the pattern behind the smaller one is odd, so it lies between the two and is nearer
  have hbetween : p + 1 < q := by omega
  have hbelow : f.value p < f.value (p + 1) := f.value_strictMono (Nat.lt_succ_self p)
  have habove := f.value_strictMono hbetween
  have hnearer := (abs_sub_le_abs_sub_iff' hbelow).1 (hp.nearest (p + 1) (hbetween.trans hq.finite))
  have hfarther := (abs_sub_le_abs_sub_iff (f.value_strictMono hlt)).1 heq.ge
  linarith

/-- **What rounds to infinity.**  The middle between the largest finite value and the one that would
follow it, and all beyond. -/
theorem round_eq_infinite_iff (hbits : 0 < f.fractionBits) (hd : 0 < d) (hpos : 0 < f.infinite)
    (heven : f.infinite % 2 = 0) :
    f.round n d = f.infinite ↔
      (f.value (f.infinite - 1) + f.value f.infinite) / 2 ≤ (n : ℚ) / d := by
  have hlast := f.value_strictMono (Nat.sub_lt hpos Nat.one_pos)
  have hnearLast := (pattern_nearest (n := n) hbits hd (f.infinite - 1)).1
  obtain ⟨hnearInf, htieInf⟩ := pattern_nearest (n := n) hbits hd f.infinite
  have hround : f.round n d = f.infinite ↔ f.infinite ≤ f.pattern n d := by
    rw [round_eq]
    split_ifs <;> omega
  rw [hround]
  generalize (n : ℚ) / d = v at *
  constructor
  · intro hle
    have hle := f.value_strictMono.monotone hle
    have hmiddle := (abs_sub_le_abs_sub_iff (hlast.trans_le hle)).1 hnearLast
    linarith
  · intro hmiddle
    by_contra hlt
    -- from the middle on infinity is as near as the largest finite value, and this one is odd
    have hle := f.value_strictMono.monotone (show f.pattern n d ≤ f.infinite - 1 by omega)
    have hnear := (abs_sub_le_abs_sub_iff' (hle.trans_lt hlast)).1 hnearInf
    have hvalue : f.value (f.pattern n d) = f.value (f.infinite - 1) := by linarith
    have hpattern := f.value_strictMono.injective hvalue
    have htie : |v - f.value (f.pattern n d)| = |v - f.value f.infinite| := by
      refine le_antisymm hnearInf ((abs_sub_le_abs_sub_iff (hle.trans_lt hlast)).2 ?_)
      rw [hvalue]
      exact hmiddle
    have hodd := htieInf (by omega) htie
    omega

end Format

end FarmLink
