import FarmLink.Proofs.Numeral.Nearest
import FarmLink.Proofs.Numeral.Strict
import FarmLink.Telemetry

/-!
# Number - the number at the front of a token

A token is read as far as it is a numeral. The scanner behind `number?` takes the longest decimal
one and rounds it at once; a name of infinity it leaves alone, which is what becomes of infinities
anyway. So the number is the double of the longest numeral behind the blanks, where that is finite
(`number?_of_isLongest`), and what follows the numeral makes no difference
(`number?_eq_of_isLongest`). The double of a decimal numeral is the one nearest to the number
written (`rounds_longest_numeral`).
-/

namespace FarmLink.Token

open Numeral

variable {token w : Text}

/-- A token without the blanks in front. -/
def unblanked (token : Text) : Text := token.dropWhile Text.isTokenBlank

theorem number?_of_scan_eq_none (h : Decimal.scan Text.digit? (unblanked token) = none) :
    number? token = none := by
  unfold number?
  unfold unblanked at h
  rw [h]

theorem number?_of_scan {x : Decimal} {rest : Text}
    (h : Decimal.scan Text.digit? (unblanked token) = some (x, rest)) :
    number? token = if x.toDouble.isFinite then some x.toDouble else none := by
  unfold number?
  unfold unblanked at h
  rw [h]

/-- **The number is the double of the longest numeral.** -/
theorem number?_of_isLongest (h : IsLongest w (unblanked token)) :
    ∃ x, Numeral.double? w = some x ∧ number? token = if x.isFinite then some x else none := by
  cases hscan : Decimal.scan Text.digit? (unblanked token) with
  | some found =>
    obtain ⟨x, rest⟩ := found
    obtain ⟨v, hv, -⟩ := exists_spells_of_scan hscan
    have hlongest := hscan
    rw [hv] at hlongest h
    obtain ⟨hspells, hlongest⟩ := isLongest_of_scan hlongest
    obtain rfl := hlongest.unique h
    exact ⟨x.toDouble, double?_of_spells hspells, number?_of_scan hscan⟩
  | none =>
    obtain ⟨s, negative, hsign, rfl⟩ :=
      exists_sign_of_scan_eq_none hscan h.isPrefix h.isNumeral
    exact ⟨.infinity negative, double?_infinity hsign, number?_of_scan_eq_none hscan⟩

/-- A decimal numeral counts as its double. -/
theorem number?_of_spells {x : Decimal} (h : IsLongest w (unblanked token)) (hw : Spells w x) :
    number? token = if x.toDouble.isFinite then some x.toDouble else none := by
  obtain ⟨y, hy, hnumber⟩ := number?_of_isLongest h
  obtain rfl : y = x.toDouble := Option.some.inj (hy.symm.trans (double?_of_spells hw))
  exact hnumber

theorem number?_of_forall_not_isNumeral (h : ∀ w, w <+: unblanked token → ¬ IsNumeral w) :
    number? token = none := by
  cases hscan : Decimal.scan Text.digit? (unblanked token) with
  | some found =>
    obtain ⟨x, rest⟩ := found
    obtain ⟨w, hw, hspells⟩ := exists_spells_of_scan hscan
    exact absurd (.decimal hspells) (h w ⟨rest, hw.symm⟩)
  | none => exact number?_of_scan_eq_none hscan

/-- A numeral has no blanks in front of it. -/
theorem unblanked_of_isPrefix (h : w <+: unblanked token) : unblanked w = w := by
  obtain ⟨rest, hrest⟩ := h
  rcases w with - | ⟨c, r⟩
  · rfl
  · apply List.dropWhile_cons_of_neg
    have hhead := List.head?_dropWhile_not Text.isTokenBlank token
    unfold unblanked at hrest
    rw [← hrest] at hhead
    simpa using hhead

/-- **What stands around the longest numeral makes no difference.** -/
theorem number?_eq_of_isLongest (h : IsLongest w (unblanked token)) :
    number? token = number? w := by
  have hself : IsLongest w (unblanked w) := by
    rw [unblanked_of_isPrefix h.isPrefix]
    exact ⟨List.prefix_rfl, h.isNumeral, fun v hv _ => hv.length_le⟩
  obtain ⟨x, hx, hnumber⟩ := number?_of_isLongest h
  obtain ⟨y, hy, hnumber'⟩ := number?_of_isLongest hself
  obtain rfl : x = y := Option.some.inj (hx.symm.trans hy)
  rw [hnumber, hnumber']

/-- **A token is read by its longest numeral.**  Where a numeral stands behind the blanks, there is
one longest, and the token counts as the double of that alone, or as a text if the double is not
finite. Every other token counts as a text, and a text keeps its blanks. -/
theorem reads_longest_numeral (token : Text) :
    ((∃ w, w <+: unblanked token ∧ IsNumeral w) → ∃! w, IsLongest w (unblanked token)) ∧
    (∀ w, IsLongest w (unblanked token) → number? token = number? w ∧
      ∃ x, Numeral.double? w = some x ∧
        number? token = (if x.isFinite then some x else none) ∧
        Reading.ofToken token = if x.isFinite then .number x else .text token) ∧
    ((∀ w, w <+: unblanked token → ¬ IsNumeral w) →
      number? token = none ∧ Reading.ofToken token = .text token) := by
  refine ⟨?_, fun w hw => ⟨number?_eq_of_isLongest hw, ?_⟩, fun h => ?_⟩
  · rintro ⟨w, hfront, hnumeral⟩
    obtain ⟨v, hv⟩ := exists_isLongest hfront hnumeral
    exact ⟨v, hv, fun v' hv' => hv'.unique hv⟩
  · obtain ⟨x, hx, hnumber⟩ := number?_of_isLongest hw
    refine ⟨x, hx, hnumber, ?_⟩
    unfold Reading.ofToken
    rw [hnumber]
    cases x.isFinite <;> rfl
  · have hnumber := number?_of_forall_not_isNumeral h
    refine ⟨hnumber, ?_⟩
    unfold Reading.ofToken
    rw [hnumber]

/-- Behind two kinds of blanks, Arabic digits with a fraction; the letter behind them begins no
exponent, as no digits follow its sign. -/
theorem reads_longest_numeral_halfExponent :
    IsLongest "-\u0661\u0662.5" (unblanked "\u00A0 -\u0661\u0662.5e+V") ∧
    Reading.ofToken "\u00A0 -\u0661\u0662.5e+V" = .number (.ofBits 0xC029000000000000) := by
  have hscan : Decimal.scan Text.digit? (Text.ofString "-\u0661\u0662.5" ++ Text.ofString "e+V") =
      some (⟨true, 125, -1⟩, Text.ofString "e+V") := by decide +kernel
  have htext : unblanked "\u00A0 -\u0661\u0662.5e+V" =
      Text.ofString "-\u0661\u0662.5" ++ Text.ofString "e+V" := by decide +kernel
  have hlongest : IsLongest "-\u0661\u0662.5" (unblanked "\u00A0 -\u0661\u0662.5e+V") := by
    rw [htext]
    exact (isLongest_of_scan hscan).2
  have hdouble : Numeral.double? "-\u0661\u0662.5" = some (.ofBits 0xC029000000000000) := by
    decide +kernel
  obtain ⟨-, x, hx, -, hreading⟩ := (reads_longest_numeral _).2.1 _ hlongest
  obtain rfl : x = .ofBits 0xC029000000000000 := Option.some.inj (hx.symm.trans hdouble)
  exact ⟨hlongest, hreading.trans (by decide)⟩

/-- **A numeral is rounded to the nearest double.**  A token whose longest numeral is a decimal one
counts as the double nearest to the number written, the even one of two as near, behind the sign
written. It counts as a text from the middle behind the largest double on, and only then. -/
theorem rounds_longest_numeral {x : Decimal} (h : IsLongest w (unblanked token))
    (hw : Spells w x) :
    (∀ y, number? token = some y ↔ |x.value| < 2 ^ 1024 - 2 ^ 970 ∧ y.IsNearest x.value ∧
      y.negative = x.negative) ∧
    (number? token = none ↔ 2 ^ 1024 - 2 ^ 970 ≤ |x.value|) := by
  have hnumber := number?_of_spells h hw
  by_cases hlt : |x.value| < 2 ^ 1024 - 2 ^ 970
  · rw [if_pos (Decimal.isFinite_toDouble_iff.2 hlt)] at hnumber
    rw [hnumber]
    refine ⟨fun y => ⟨?_, ?_⟩, iff_of_false (Option.some_ne_none _) (not_le.2 hlt)⟩
    · rintro ⟨⟩
      exact ⟨hlt, Decimal.isNearest_toDouble hlt, x.negative_toDouble⟩
    · rintro ⟨-, hnearest, hsign⟩
      rw [Decimal.eq_toDouble hlt hnearest hsign]
  · rw [if_neg (mt Decimal.isFinite_toDouble_iff.1 hlt)] at hnumber
    rw [hnumber]
    refine ⟨fun y => ⟨fun hy => ?_, fun hy => absurd hy.1 hlt⟩, ?_⟩
    · cases hy
    · exact iff_of_true rfl (not_lt.1 hlt)

/-- In the middle between two doubles, where the even one is taken, and below half of the least one,
where the sign stays. -/
theorem rounds_longest_numeral_middle :
    IsLongest "-900719925474099.3e1" (unblanked "\u00A0-900719925474099.3e1kg") ∧
    (Double.ofBits 0xC340000000000000).IsNearest (-9007199254740993) ∧
    IsLongest "-1e-400" (unblanked "-1e-400e") ∧
    number? "-1e-400e" = some (.zero true) ∧
    (Double.zero true).IsNearest (Decimal.value ⟨true, 1, -400⟩) := by
  have hmiddle : Decimal.scan Text.digit?
      (Text.ofString "-900719925474099.3e1" ++ Text.ofString "kg") =
        some (⟨true, 9007199254740993, 0⟩, Text.ofString "kg") := by decide +kernel
  have hsmall : Decimal.scan Text.digit? (Text.ofString "-1e-400" ++ Text.ofString "e") =
      some (⟨true, 1, -400⟩, Text.ofString "e") := by decide +kernel
  obtain ⟨hspells, hlongest⟩ := isLongest_of_scan hmiddle
  obtain ⟨hspells', hlongest'⟩ := isLongest_of_scan hsmall
  have htext : unblanked "\u00A0-900719925474099.3e1kg" =
      Text.ofString "-900719925474099.3e1" ++ Text.ofString "kg" := by decide +kernel
  have htext' : unblanked "-1e-400e" = Text.ofString "-1e-400" ++ Text.ofString "e" := by
    decide +kernel
  have hnumber : number? "\u00A0-900719925474099.3e1kg" = some (.ofBits 0xC340000000000000) := by
    decide +kernel
  have hnumber' : number? "-1e-400e" = some (.zero true) := by decide +kernel
  have hvalue : Decimal.value ⟨true, 9007199254740993, 0⟩ = -9007199254740993 := by
    norm_num [Decimal.value, Decimal.size, signed]
  rw [← htext] at hlongest
  rw [← htext'] at hlongest'
  obtain ⟨-, hnearest, -⟩ := ((rounds_longest_numeral hlongest hspells).1 _).1 hnumber
  obtain ⟨-, hnearest', -⟩ := ((rounds_longest_numeral hlongest' hspells').1 _).1 hnumber'
  exact ⟨hlongest, hvalue ▸ hnearest, hlongest', hnumber', hnearest'⟩

end FarmLink.Token
