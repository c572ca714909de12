import FarmLink.Proofs.Binary.Narrowing

/-!
# NearestDouble - the double nearest to a number

The finite double nearest to a number is the pattern nearest to its size, behind its sign
(`Double.isNearest_signed_iff`), and with that sign there is one only (`Double.IsNearest.unique`).
Sizes are rounded by `Format.RoundsToDouble`: a quotient of naturals by the rounding of quotients,
and without that what is below half of the least positive double, which goes to zero, and what is
beyond the middle behind the largest one, which goes to infinity.
-/

namespace FarmLink

namespace Format

variable {f : Format} {u : ℚ}

/-! ### The ends of the range -/

/-- What is below half of the least positive value is nearest to zero. -/
theorem isNearest_zero (hu : 0 ≤ u) (hlt : 2 * u < f.value 1) (hpos : 0 < f.infinite) :
    f.IsNearest u 0 := by
  have hzero : f.value 0 = 0 := by simp [value]
  refine ⟨hpos, fun q _ => ?_, fun _ _ _ _ => rfl⟩
  by_cases hq : q = 0
  · rw [hq]
  · have hle := f.value_strictMono.monotone (Nat.one_le_iff_ne_zero.2 hq)
    rw [hzero, sub_zero, abs_of_nonneg hu, abs_of_nonpos (by linarith)]
    linarith

theorem value_double_one : double.value 1 = 1 / 2 ^ 1074 := by
  have hunits : double.units 1 = 1 := by decide
  rw [value_eq, hunits, Nat.cast_one]
  rfl

/-- The middle between the largest finite double and the one that would follow it. -/
theorem middle_double :
    (double.value (double.infinite - 1) + double.value double.infinite) / 2 =
      2 ^ 1024 - 2 ^ 970 := by
  have hlast : double.value (double.infinite - 1) = (2 ^ 53 - 1) * 2 ^ 971 := by
    have hdiv : (double.infinite - 1) / 2 ^ double.fractionBits = 2046 := by decide
    have hmod : (double.infinite - 1) % 2 ^ double.fractionBits = 2 ^ 52 - 1 := by decide
    have hsteps : ((2046 : Nat) - 1 - double.scale : ℤ) = (971 : Nat) := by decide
    rw [value, hdiv, hmod, if_neg (by decide), hsteps, zpow_natCast]
    congr 1
    norm_num [double]
  have hnext : double.value double.infinite = 2 ^ 52 * 2 ^ 972 := by
    have hdiv : double.infinite / 2 ^ double.fractionBits = 2047 := by decide
    have hmod : double.infinite % 2 ^ double.fractionBits = 0 := by decide
    have hsteps : ((2047 : Nat) - 1 - double.scale : ℤ) = (972 : Nat) := by decide
    rw [value, hdiv, hmod, if_neg (by decide), hsteps, zpow_natCast]
    congr 1
  -- all powers are multiples of the least one, which is kept as a name
  have hone : (2 : ℚ) ^ 971 = 2 * 2 ^ 970 := pow_succ' 2 970
  have htwo : (2 : ℚ) ^ 972 = 2 ^ 2 * 2 ^ 970 := pow_add 2 2 970
  have hall : (2 : ℚ) ^ 1024 = 2 ^ 54 * 2 ^ 970 := pow_add 2 54 970
  rw [hlast, hnext, hone, htwo, hall]
  generalize (2 : ℚ) ^ 970 = x
  ring

/-! ### Rounding to doubles -/

/-- The pattern that a number of either size is rounded to: below the middle behind the largest
finite double the nearest one, from there on that of infinity. -/
structure RoundsToDouble (u : ℚ) (p : Nat) : Prop where
  isNearest : u < 2 ^ 1024 - 2 ^ 970 → double.IsNearest u p
  eq_infinite : 2 ^ 1024 - 2 ^ 970 ≤ u → p = double.infinite

theorem roundsToDouble_round (n : Nat) {d : Nat} (hd : 0 < d) :
    RoundsToDouble ((n : ℚ) / d) (double.round n d) := by
  have hround := double.round_eq_infinite_iff (n := n) (by decide) hd (by decide) (by decide)
  rw [middle_double] at hround
  refine ⟨fun hlt => ?_, hround.2⟩
  refine round_isNearest (by decide) hd (lt_of_le_of_ne (double.round_le_infinite n d) ?_)
  exact fun h => absurd (hround.1 h) (not_le.2 hlt)

theorem roundsToDouble_infinite (h : 2 ^ 1024 - 2 ^ 970 ≤ u) :
    RoundsToDouble u double.infinite :=
  ⟨fun hlt => absurd h (not_le.2 hlt), fun _ => rfl⟩

theorem roundsToDouble_zero (hu : 0 ≤ u) (hlt : 2 * u < 1 / 2 ^ 1074) : RoundsToDouble u 0 := by
  have hone : double.value 1 ≤ double.value (double.infinite - 1) :=
    double.value_strictMono.monotone (by decide)
  have hlast : double.value (double.infinite - 1) ≤ double.value double.infinite :=
    double.value_strictMono.monotone (by decide)
  rw [← value_double_one] at hlt
  have hbelow : u < (double.value (double.infinite - 1) + double.value double.infinite) / 2 := by
    linarith
  rw [middle_double] at hbelow
  exact ⟨fun _ => isNearest_zero hu hlt (by decide), fun hle => absurd hle (not_le.2 hbelow)⟩

end Format

/-! ### Doubles of both signs -/

namespace Double

/-- The finite double nearest to a number, one with an even last bit where another one is as near.
Of zeros this says nothing about the sign. -/
structure IsNearest (v : ℚ) (x : Double) : Prop where
  finite : x.isFinite = true
  nearest : ∀ y : Double, y.isFinite = true → |v - x.value| ≤ |v - y.value|
  even : ∀ y : Double, y.isFinite = true → y.value ≠ x.value → |v - x.value| = |v - y.value| →
    x.magnitude % 2 = 0

theorem exists_of_pattern (negative : Bool) {p : Nat} (h : p < Format.double.infinite) :
    ∃ x : Double, x.isFinite = true ∧ x.negative = negative ∧ x.magnitude = p := by
  have hlt : p < signWeight := Nat.lt_trans h (by decide)
  exact ⟨⟨negative, p, hlt⟩, decide_eq_true h, rfl, rfl⟩

variable {u : ℚ} {x y : Double}

/-- **The nearest double is the nearest pattern behind the sign.** -/
theorem isNearest_signed_iff (hu : 0 ≤ u) :
    IsNearest (signed x.negative u) x ↔ Format.double.IsNearest u x.magnitude := by
  constructor
  · intro h
    refine ⟨of_decide_eq_true h.finite, fun q hq => ?_, fun q hq hne heq => ?_⟩
    all_goals
      obtain ⟨y, hy, hsign, hmagnitude⟩ := exists_of_pattern x.negative hq
    · have hle := h.nearest y hy
      rwa [value, value, hsign, hmagnitude, abs_signed_sub_signed, abs_signed_sub_signed] at hle
    · refine h.even y hy (fun hvalue => hne ?_) ?_
      · rw [value, value, hsign, hmagnitude] at hvalue
        exact Format.double.value_strictMono.injective (signed_injective _ hvalue)
      · rwa [value, value, hsign, hmagnitude, abs_signed_sub_signed, abs_signed_sub_signed]
  · intro h
    exact ⟨decide_eq_true h.finite,
      fun y hy => h.abs_signed_le hu _ _ (of_decide_eq_true hy),
      fun y hy hne heq => h.even_of_signed hu (of_decide_eq_true hy) hne heq⟩

/-- **There is one nearest double with the sign of the number.** -/
theorem IsNearest.unique (hu : 0 ≤ u) (hsign : x.negative = y.negative)
    (hx : IsNearest (signed x.negative u) x) (hy : IsNearest (signed x.negative u) y) : x = y := by
  rw [isNearest_signed_iff hu] at hx
  rw [hsign, isNearest_signed_iff hu] at hy
  have hmagnitude := hx.unique hy
  obtain ⟨negative, magnitude, hlt⟩ := x
  obtain ⟨negative', magnitude', hlt'⟩ := y
  simp only at hsign hmagnitude
  subst hsign hmagnitude
  rfl

end Double

end FarmLink
