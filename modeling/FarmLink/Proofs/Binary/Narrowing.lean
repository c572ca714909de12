import FarmLink.Binary.Single
import FarmLink.Proofs.Binary.Nearest

/-!
# Narrowing - the single nearest to a double

A single is given by its 32 bits; its value is that of the bits below the sign, behind the sign
(`Single.value`). The single nearest to a number is the pattern nearest to its size, behind its sign
(`Single.isNearest_iff`), so there is one only. Narrowing a finite double gives it
(`Double.isNearest_of_toSingleBits?`), but for a negative zero, which keeps a sign that its value
does not have; and there is none from half a step beyond the largest single on
(`Double.toSingleBits?_eq_none_iff`). Whole numbers of 53 bits are doubles (`Double.value_ofInt`),
so rounding them twice is rounding them once.
-/

namespace FarmLink

/-! ### Numbers behind a sign -/

/-- A number behind a sign. -/
def signed (negative : Bool) (v : ℚ) : ℚ := if negative then -v else v

section Signed

variable {u v : ℚ}

theorem abs_signed (negative : Bool) (hv : 0 ≤ v) : |signed negative v| = v := by
  cases negative <;> simp [signed, abs_of_nonneg hv]

theorem signed_abs (v : ℚ) : signed (v < 0) |v| = v := by
  unfold signed
  split_ifs with h
  · rw [abs_of_neg (of_decide_eq_true h), neg_neg]
  · exact abs_of_nonneg (not_lt.1 (mt decide_eq_true h))

theorem signed_injective (negative : Bool) : Function.Injective (signed negative) := by
  intro u v h
  cases negative <;> simpa [signed] using h

theorem abs_signed_sub_signed (negative : Bool) (u v : ℚ) :
    |signed negative u - signed negative v| = |u - v| := by
  cases negative
  · rfl
  · simp only [signed, if_true]
    rw [← abs_neg]
    congr 1
    ring

/-- Signs only take numbers further apart. -/
theorem abs_sub_le_abs_signed_sub_signed (s t : Bool) (hu : 0 ≤ u) (hv : 0 ≤ v) :
    |u - v| ≤ |signed s u - signed t v| := by
  have h := abs_abs_sub_abs_le_abs_sub (signed s u) (signed t v)
  rwa [abs_signed s hu, abs_signed t hv] at h

theorem abs_signed_sub_signed_of_ne {s t : Bool} (h : s ≠ t) (hu : 0 ≤ u) (hv : 0 ≤ v) :
    |signed s u - signed t v| = u + v := by
  cases s <;> cases t <;> simp only [signed, ne_eq, not_true_eq_false, if_true,
    Bool.false_eq_true, if_false] at h ⊢
  · rw [sub_neg_eq_add, abs_of_nonneg (add_nonneg hu hv)]
  · rw [← neg_add', abs_neg, abs_of_nonneg (add_nonneg hu hv)]

end Signed

namespace Format.IsNearest

variable {f : Format} {u : ℚ} {p q : Nat}

/-- Behind the sign of the number the nearest pattern is nearest among patterns of both signs. -/
theorem abs_signed_le (h : f.IsNearest u p) (hu : 0 ≤ u) (s t : Bool) (hq : q < f.infinite) :
    |signed s u - signed s (f.value p)| ≤ |signed s u - signed t (f.value q)| := by
  rw [abs_signed_sub_signed]
  exact (h.nearest q hq).trans
    (abs_sub_le_abs_signed_sub_signed s t hu (f.value_nonneg q))

/-- It is even where another number of either sign is as near. -/
theorem even_of_signed (h : f.IsNearest u p) (hu : 0 ≤ u) {s t : Bool} (hq : q < f.infinite)
    (hne : signed t (f.value q) ≠ signed s (f.value p))
    (heq : |signed s u - signed s (f.value p)| = |signed s u - signed t (f.value q)|) :
    p % 2 = 0 := by
  rw [abs_signed_sub_signed] at heq
  by_cases hqp : q = p
  · subst hqp
    -- behind the other sign the same pattern is as near only where it is zero
    have hst : s ≠ t := by
      rintro rfl
      exact hne rfl
    have hnonneg := f.value_nonneg q
    have hnear := h.nearest 0 (Nat.zero_lt_of_lt hq)
    rw [heq, abs_signed_sub_signed_of_ne hst hu hnonneg,
      show f.value 0 = 0 by simp [Format.value], sub_zero, abs_of_nonneg hu] at hnear
    have hzero : f.value q = 0 := by linarith
    rw [hzero] at hne
    exact absurd (by simp [signed]) hne
  · have hle := abs_sub_le_abs_signed_sub_signed s t hu (f.value_nonneg q)
    exact h.even q hq hqp (le_antisymm (h.nearest q hq) (hle.trans heq.ge))

end Format.IsNearest

/-! ### Singles -/

namespace Single

/-- The weight of the sign bit. -/
def signWeight : Nat := 0x80000000

/-- The bits of a finite single. -/
def IsFinite (bits : Nat) : Prop :=
  bits < 2 * signWeight ∧ bits % signWeight < Format.single.infinite

/-- The value of a finite single. -/
def value (bits : Nat) : ℚ :=
  signed (signWeight ≤ bits) (Format.single.value (bits % signWeight))

/-- The finite single nearest to a number, the even one of two that are equally near. It has the
sign of the number, also where it is zero. -/
structure IsNearest (x : ℚ) (bits : Nat) : Prop where
  finite : IsFinite bits
  sign : signWeight ≤ bits ↔ x < 0
  nearest : ∀ b, IsFinite b → |x - value bits| ≤ |x - value b|
  even : ∀ b, IsFinite b → value b ≠ value bits → |x - value bits| = |x - value b| →
    bits % 2 = 0

/-- The bits of a pattern behind a sign. -/
def ofPattern (negative : Bool) (p : Nat) : Nat := p + if negative then signWeight else 0

theorem ofPattern_parts (negative : Bool) {p : Nat} (h : p < Format.single.infinite) :
    IsFinite (ofPattern negative p) ∧ ofPattern negative p % signWeight = p ∧
      (signWeight ≤ ofPattern negative p ↔ negative = true) := by
  have hinfinite : Format.single.infinite = 0x7F800000 := rfl
  unfold IsFinite ofPattern signWeight
  cases negative <;> simp <;> omega

theorem value_ofPattern {negative : Bool} {p : Nat} (h : p < Format.single.infinite) :
    value (ofPattern negative p) = signed negative (Format.single.value p) := by
  obtain ⟨-, hmod, hsign⟩ := ofPattern_parts negative h
  unfold value
  rw [hmod]
  congr 1
  cases negative <;> simp_all

variable {x : ℚ} {bits : Nat}

theorem abs_sub_value (hsign : signWeight ≤ bits ↔ x < 0) :
    |x - value bits| = |(|x|) - Format.single.value (bits % signWeight)| := by
  conv_lhs => rw [← signed_abs x]
  unfold value
  rw [decide_eq_decide.2 hsign, abs_signed_sub_signed]

/-- **The nearest single is the nearest pattern behind the sign.** -/
theorem isNearest_iff : IsNearest x bits ↔ bits < 2 * signWeight ∧ (signWeight ≤ bits ↔ x < 0) ∧
    Format.single.IsNearest |x| (bits % signWeight) := by
  have hparity : bits % signWeight % 2 = bits % 2 := by
    unfold signWeight
    omega
  constructor
  · intro h
    refine ⟨h.finite.1, h.sign, h.finite.2, fun q hq => ?_, fun q hq hne heq => ?_⟩
    all_goals
      obtain ⟨hfinite, hmod, hsign⟩ := ofPattern_parts (decide (x < 0)) hq
      rw [decide_eq_true_eq] at hsign
      have hdistance := abs_sub_value hsign
      rw [hmod] at hdistance
    · rw [← abs_sub_value h.sign, ← hdistance]
      exact h.nearest _ hfinite
    · rw [← abs_sub_value h.sign, ← hdistance] at heq
      rw [hparity]
      refine h.even _ hfinite (fun hvalue => hne ?_) heq
      have hsame : decide (signWeight ≤ bits) = decide (x < 0) := decide_eq_decide.2 h.sign
      rw [value_ofPattern hq, value, hsame] at hvalue
      exact Format.single.value_strictMono.injective (signed_injective _ hvalue)
  · rintro ⟨hlt, hsign, h⟩
    have hx := signed_abs x
    have hvalue : value bits = signed (x < 0) (Format.single.value (bits % signWeight)) := by
      rw [value, decide_eq_decide.2 hsign]
    refine ⟨⟨hlt, h.finite⟩, hsign, fun b hb => ?_, fun b hb hne heq => ?_⟩
    · have hle := h.abs_signed_le (abs_nonneg x) (x < 0) (signWeight ≤ b) hb.2
      rwa [hx, ← hvalue] at hle
    · rw [← hparity]
      refine h.even_of_signed (abs_nonneg x) (s := x < 0) (t := signWeight ≤ b) hb.2 ?_ ?_
      · rwa [← hvalue]
      · rwa [hx, ← hvalue]

/-- **There is one nearest single.** -/
theorem IsNearest.unique {a b : Nat} (ha : IsNearest x a) (hb : IsNearest x b) : a = b := by
  obtain ⟨hltA, hsignA, hnearA⟩ := isNearest_iff.1 ha
  obtain ⟨hltB, hsignB, hnearB⟩ := isNearest_iff.1 hb
  have hmod := hnearA.unique hnearB
  have hsign : signWeight ≤ a ↔ signWeight ≤ b := hsignA.trans hsignB.symm
  unfold signWeight at *
  omega

/-- The single nearest to zero is the zero without a sign. -/
theorem isNearest_zero_iff : IsNearest 0 bits ↔ bits = 0 := by
  have hzero : IsNearest 0 0 := by
    have hvalue : value 0 = 0 := by simp [value, signed, signWeight, Format.value]
    refine ⟨⟨by decide, by decide⟩, by simp [signWeight], fun b _ => ?_, fun _ _ _ _ => rfl⟩
    rw [hvalue, sub_zero, abs_zero]
    exact abs_nonneg _
  constructor
  · intro h
    exact h.unique hzero
  · rintro rfl
    exact hzero

theorem isNearest_ofPattern {p : Nat} (h : Format.single.IsNearest |x| p) :
    IsNearest x (ofPattern (x < 0) p) := by
  obtain ⟨hfinite, hmod, hsign⟩ := ofPattern_parts (decide (x < 0)) h.finite
  rw [decide_eq_true_eq] at hsign
  rw [isNearest_iff, hmod]
  exact ⟨hfinite.1, hsign, h⟩

end Single

/-! ### Doubles -/

namespace Double

/-- The value of a finite double. -/
def value (x : Double) : ℚ := signed x.negative (Format.double.value x.magnitude)

theorem unitsPerOne_eq : unitsPerOne = 2 ^ Format.double.scale := by
  unfold unitsPerOne
  generalize Format.double.scale = scale
  exact Nat.pow_eq

theorem unitsPerOne_pos : 0 < unitsPerOne := by
  rw [unitsPerOne_eq]
  exact Nat.two_pow_pos _

theorem abs_value (x : Double) : |x.value| = (x.units : ℚ) / unitsPerOne := by
  rw [value, abs_signed _ (Format.value_nonneg _ _), Format.value_eq, unitsPerOne_eq]
  push_cast
  rfl

/-- The sign of a double is that of its value, zero apart. -/
theorem negative_eq_decide {x : Double} (h : x.isZero = false) :
    x.negative = decide (x.value < 0) := by
  have hpos : 0 < Format.double.value x.magnitude := by
    have hne : x.magnitude ≠ 0 := beq_eq_false_iff_ne.1 h
    have hzero : Format.double.value 0 = 0 := by simp [Format.value]
    rw [← hzero]
    exact Format.double.value_strictMono (Nat.pos_of_ne_zero hne)
  unfold value signed
  cases x.negative
  · simpa using hpos.le
  · simpa using hpos

theorem toSingleBits?_of_isFinite {x : Double} (h : x.isFinite = true) :
    x.toSingleBits? =
      if Format.single.round x.units unitsPerOne < Format.single.infinite then
        some (Single.ofPattern x.negative (Format.single.round x.units unitsPerOne))
      else none := by
  have hlt : x.magnitude < Format.double.infinite := of_decide_eq_true h
  have hnan : x.isNaN = false := decide_eq_false (Nat.lt_asymm hlt)
  have hinfinite : x.isInfinite = false := beq_eq_false_iff_ne.2 (Nat.ne_of_lt hlt)
  unfold toSingleBits? singleMagnitude?
  simp only [hnan, hinfinite, Bool.false_eq_true, if_false]
  -- the rounded pattern is kept as a name, so that no power is computed
  generalize Format.single.round x.units unitsPerOne = m
  by_cases hm : m < Format.single.infinite
  · rw [if_pos hm, if_pos hm]
    rfl
  · rw [if_neg hm, if_neg hm]
    rfl

/-- **Narrowing gives the nearest single**, where the sign is that of the value. -/
theorem isNearest_of_toSingleBits? {x : Double} {bits : Nat} (h : x.isFinite = true)
    (hsign : x.negative = decide (x.value < 0)) (hbits : x.toSingleBits? = some bits) :
    Single.IsNearest x.value bits := by
  rw [toSingleBits?_of_isFinite h] at hbits
  split_ifs at hbits with hround
  obtain rfl := Option.some.inj hbits
  rw [hsign]
  apply Single.isNearest_ofPattern
  rw [abs_value]
  exact Format.round_isNearest (by decide) unitsPerOne_pos hround

/-- **What has no single.**  Half a step beyond the largest one, and all further numbers. -/
theorem toSingleBits?_eq_none_iff {x : Double} (h : x.isFinite = true) :
    x.toSingleBits? = none ↔ 2 ^ 128 - 2 ^ 103 ≤ |x.value| := by
  have hmiddle : (Format.single.value (Format.single.infinite - 1)
      + Format.single.value Format.single.infinite) / 2 = 2 ^ 128 - 2 ^ 103 := by
    norm_num [Format.value, Format.single]
  have hround := Format.single.round_eq_infinite_iff (n := x.units) (by decide) unitsPerOne_pos
    (by decide) (by decide)
  have hle := Format.single.round_le_infinite x.units unitsPerOne
  rw [toSingleBits?_of_isFinite h, abs_value, ← hmiddle, ← hround]
  generalize Format.single.round x.units unitsPerOne = m at hle
  split_ifs with hm
  · simp [hm.ne]
  · simp [le_antisymm hle (not_lt.1 hm)]

theorem toSingleBits?_infinity (negative : Bool) :
    (infinity negative).toSingleBits? =
      some (Single.ofPattern negative Format.single.infinite) := by
  cases negative <;> decide +kernel

/-- A whole number of 53 bits is a finite double of the same value and sign. -/
theorem value_ofInt {n : Int} (h : n.natAbs ≤ 2 ^ 53) :
    (ofInt n).isFinite = true ∧ (ofInt n).negative = decide (n < 0) ∧ (ofInt n).value = n := by
  obtain ⟨hfinite, hvalue⟩ := Format.value_round_whole (f := Format.double) h (by decide)
  have hnegative : (ofInt n).negative = decide ((n : ℚ) < 0) := by
    refine decide_eq_decide.2 ?_
    exact_mod_cast Iff.rfl
  refine ⟨decide_eq_true hfinite, rfl, ?_⟩
  have hmagnitude : (ofInt n).magnitude = Format.double.round n.natAbs 1 := rfl
  rw [value, hmagnitude, hvalue, hnegative, Nat.cast_natAbs, Int.cast_abs, signed_abs]

end Double

end FarmLink
