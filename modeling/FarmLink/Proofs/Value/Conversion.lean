import FarmLink.Proofs.Value.Showable
import FarmLink.Value.Convert

/-!
# Conversion - the whole numbers that values stand for

Whole numbers are read from numerals of at most `digitLimit` digits, so what a numeral writes can be
shown. The only value too large for a whole number is an infinite double.
-/

namespace FarmLink

/-! ### Numerals -/

namespace Numeral

theorem groupedDigits?_cons_cons (c next : CodePoint) (r : Text) :
    groupedDigits? (c :: next :: r) = (Text.asciiDigit? c).bind fun d =>
      (if next = '_' then groupedDigits? r else groupedDigits? (next :: r)).map (d :: ·) := by
  rw [groupedDigits?]
  cases Text.asciiDigit? c with
  | none => rfl
  | some d =>
    split
    · cases groupedDigits? r <;> rfl
    · cases groupedDigits? (next :: r) <;> rfl

/-- Every digit of a numeral is the value of a character. -/
theorem lt_of_mem_groupedDigits? {t : Text} {ds : List Nat} (h : groupedDigits? t = some ds) :
    ∀ d ∈ ds, d < 10 := by
  induction t using groupedDigits?.induct generalizing ds with
  | case1 => cases h
  | case2 c =>
    obtain ⟨d, hd, rfl⟩ := Option.map_eq_some_iff.1 h
    exact List.forall_mem_singleton.2 (Text.asciiDigit?_lt hd)
  | case3 c next r ihBehind ihNext =>
    rw [groupedDigits?_cons_cons] at h
    obtain ⟨d, hd, h⟩ := Option.bind_eq_some_iff.1 h
    obtain ⟨rest, hrest, rfl⟩ := Option.map_eq_some_iff.1 h
    refine List.forall_mem_cons.2 ⟨Text.asciiDigit?_lt hd, ?_⟩
    split at hrest
    · exact ihBehind hrest
    · exact ihNext hrest

/-- **What a numeral writes can be shown.** -/
theorem isShowable_of_integer {t : Text} {n : Int} (h : integer t = .ok n) :
    isShowable n = true := by
  unfold integer at h
  simp only at h
  split at h
  · cases h
  · next ds hds =>
    split at h
    · cases h
    · next hlimit =>
      cases h
      rw [isShowable_signed]
      exact isShowable_ofDigits (lt_of_mem_groupedDigits? hds) (Nat.le_of_not_lt hlimit)

end Numeral

namespace Value

/-! ### Numbers too large -/

/-- An infinite double is a number, but stands for no whole one. -/
theorem toInt_of_isInfinite {x : Double} (h : x.isInfinite = true) :
    (float x).toInt = .error .tooLarge := by
  have hmagnitude : x.magnitude = Format.double.infinite := beq_iff_eq.1 h
  have hnan : x.isNaN = false := by
    unfold Double.isNaN
    rw [hmagnitude]
    exact decide_eq_false (Nat.lt_irrefl _)
  simp only [toInt, hnan, h, Bool.false_eq_true, if_false, if_true]

/-- No other value is too large for a whole number. -/
theorem toInt_eq_tooLarge_iff {v : Value} :
    v.toInt = .error .tooLarge ↔ ∃ x, v = .float x ∧ x.isInfinite = true := by
  constructor
  · intro h
    cases v with
    | float x =>
      simp only [toInt] at h
      split at h
      · cases h
      · split at h
        · next hinf => exact ⟨x, rfl, hinf⟩
        · cases h
    | text t =>
      simp only [toInt] at h
      split at h <;> cases h
    | null | bool _ | int _ | list _ | dict _ => cases h
  · rintro ⟨x, rfl, h⟩
    exact toInt_of_isInfinite h

end Value

end FarmLink
