import FarmLink.Numeral.Shortest
import FarmLink.Proofs.Binary.Rounding

/-!
# ReadBack - a shown double is the double that is read

The decimal that shows a finite double rounds to that double (`toDouble_shortest`). What the search
finds has been read back before it was taken; the exact value behind the search is the number of
units over a power of two, and so it rounds to the pattern that it was made from. A sign goes
through unchanged (`toDouble_signed`), and so does a zero behind the last digit of a whole number
(`toDouble_tenfold`).
-/

namespace FarmLink

namespace Decimal

/-! ### Decimals of the same value -/

/-- Rounding leaves the sign as it is and does not look at it. -/
theorem toDouble_signed (x : Decimal) (negative : Bool) :
    ({ x with negative := negative } : Decimal).toDouble =
      { x.toDouble with negative := negative } := by
  unfold toDouble
  simp only
  split_ifs <;> rfl

theorem magnitude_toDouble_zero (negative : Bool) (exponent : Int) :
    (Decimal.mk negative 0 exponent).toDouble.magnitude = 0 := by
  unfold toDouble
  rw [if_pos rfl]
  rfl

/-- A whole number with one more zero, behind the point. -/
theorem toDouble_tenfold {c n : Nat} (negative : Bool) (hc : c ≠ 0) (hn : n ≤ 310) :
    (Decimal.mk negative (c * 10 ^ n * 10) (-1)).toDouble = (Decimal.mk negative c n).toDouble := by
  have hten : 10 ^ n ≠ 0 := Nat.ne_of_gt (Nat.pow_pos (by decide))
  have hcoefficient : c * 10 ^ n * 10 ≠ 0 := Nat.mul_ne_zero (Nat.mul_ne_zero hc hten) (by decide)
  have hround := Format.double.round_mul_right (c * 10 ^ n) 1 (show 0 < 10 by decide)
  have hplain : (Decimal.mk negative c n).toDouble = .round negative (c * 10 ^ n) 1 := by
    unfold toDouble
    simp only [Nat.pow_eq, Int.toNat_natCast]
    rw [if_neg hc, if_neg (by omega), if_pos (by omega)]
  have hpoint : (Decimal.mk negative (c * 10 ^ n * 10) (-1)).toDouble =
      .round negative (c * 10 ^ n * 10) (1 * 10) := by
    unfold toDouble
    simp only
    rw [if_neg hcoefficient, if_neg (by decide), if_neg (by decide), if_neg (by omega)]
    rfl
  rw [hplain, hpoint]
  unfold Double.round
  simp only [hround]

/-! ### The search and what stands behind it -/

/-- What the search finds on a grid has been read back. -/
theorem magnitude_of_nearestOnGrid? {magnitude units : Nat} {power : Int} {x : Decimal}
    (h : nearestOnGrid? magnitude units power = some x) : x.toDouble.magnitude = magnitude := by
  have hchoice (nearer farther : Decimal)
      (h : (if (nearer.toDouble.magnitude == magnitude) = true then some nearer
        else if (farther.toDouble.magnitude == magnitude) = true then some farther else none) =
          some x) : x.toDouble.magnitude = magnitude := by
    split at h
    · next hnearer =>
      cases h
      exact beq_iff_eq.1 hnearer
    · split at h
      · next hfarther =>
        cases h
        exact beq_iff_eq.1 hfarther
      · cases h
  exact hchoice _ _ h

/-- The exact value is a quotient of units, so it rounds to the pattern of these units. -/
theorem magnitude_toDouble_exact {units : Nat} (h : units ≠ 0) :
    (exact units).toDouble.magnitude =
      Format.double.round units (Nat.pow 2 Format.double.scale) := by
  have hscale : 674 ≤ Format.double.scale := by decide
  have hpos : 0 < Format.double.scale := by decide
  unfold toDouble exact
  simp only [Nat.pow_eq]
  -- the scale is kept as a name, so that no power of it is computed
  generalize Format.double.scale = scale at hscale hpos ⊢
  have hfive : 0 < 5 ^ scale := Nat.pow_pos (by decide)
  have hcoefficient : units * 5 ^ scale ≠ 0 := Nat.mul_ne_zero h (Nat.ne_of_gt hfive)
  have hbits : scale ≤ Nat.log2 (units * 5 ^ scale) := by
    rw [Nat.le_log2 hcoefficient]
    calc 2 ^ scale ≤ 5 ^ scale := Nat.pow_le_pow_left (by decide) scale
      _ ≤ units * 5 ^ scale := Nat.le_mul_of_pos_left _ (Nat.pos_of_ne_zero h)
  have hquotient : (10 : Nat) ^ (- -(scale : Int)).toNat = 2 ^ scale * 5 ^ scale := by
    rw [Int.neg_neg, Int.toNat_natCast, ← Nat.mul_pow]
  rw [if_neg hcoefficient, if_neg (by omega), if_neg (by omega), if_neg (by omega), hquotient]
  exact Format.double.round_mul_right units (2 ^ scale) hfive

/-- The shortest decimal of a finite double reads back, up to the sign that it does not have. -/
theorem magnitude_toDouble_shortest {x : Double} (hfinite : x.isFinite = true)
    (hzero : x.isZero = false) : (shortest x).toDouble.magnitude = x.magnitude := by
  have hmagnitude : x.magnitude ≠ 0 := beq_eq_false_iff_ne.1 hzero
  have hround : Format.double.round x.units (Nat.pow 2 Format.double.scale) = x.magnitude :=
    Format.double.round_units (of_decide_eq_true hfinite)
  have hunits : x.units ≠ 0 :=
    Nat.ne_of_gt (Format.double.units_pos (Nat.pos_of_ne_zero hmagnitude))
  unfold shortest
  simp only
  cases hfound : (List.range 18).findSome? fun i =>
      nearestOnGrid? x.magnitude x.units (placeAbove x.units - (i : Nat)) with
  | some found =>
    obtain ⟨i, -, hgrid⟩ := List.exists_of_findSome?_eq_some hfound
    exact magnitude_of_nearestOnGrid? hgrid
  | none =>
    rw [Option.getD_none, magnitude_toDouble_exact hunits, hround]

/-- **The decimal that shows a finite double, behind its sign, is read as the double.** -/
theorem toDouble_shortest {x : Double} (hfinite : x.isFinite = true) (hzero : x.isZero = false) :
    ({ shortest x with negative := x.negative } : Decimal).toDouble = x := by
  have hmagnitude := magnitude_toDouble_shortest hfinite hzero
  obtain ⟨negative, magnitude, hlt⟩ := x
  rw [toDouble_signed]
  simp only [Double.mk.injEq, true_and]
  exact hmagnitude

theorem coefficient_shortest_ne_zero {x : Double} (hfinite : x.isFinite = true)
    (hzero : x.isZero = false) : (shortest x).coefficient ≠ 0 := by
  have hmagnitude := magnitude_toDouble_shortest hfinite hzero
  intro h
  have hnone : (shortest x).toDouble.magnitude = 0 := by
    have heta : shortest x = ⟨(shortest x).negative, 0, (shortest x).exponent⟩ := by
      rw [← h]
    rw [heta, magnitude_toDouble_zero]
  exact beq_eq_false_iff_ne.1 hzero (hmagnitude.symm.trans hnone)

end Decimal

/-- A finite double is shown by its digits, not by a name. -/
theorem Double.toTextWith_of_isFinite {x : Double} (h : x.isFinite = true) (infinity nan : Text) :
    x.toTextWith infinity nan = x.finiteText := by
  have hlt : x.magnitude < Format.double.infinite := of_decide_eq_true h
  have hnan : x.isNaN = false := decide_eq_false (Nat.lt_asymm hlt)
  have hinfinite : x.isInfinite = false := beq_eq_false_iff_ne.2 (Nat.ne_of_lt hlt)
  unfold toTextWith
  rw [hnan, hinfinite]
  rfl

end FarmLink
