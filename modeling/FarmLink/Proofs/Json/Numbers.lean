import FarmLink.Proofs.Json.Strings
import FarmLink.Proofs.Numeral.ReadBack
import FarmLink.Proofs.Value.Showable

/-!
# Numbers - numbers that are written and read back

A whole number is written in digits alone, a double always with a point or an exponent, so the
reader keeps them apart. Every form of a double spells its shortest decimal, or that decimal with
one more zero, and so it is read as the double itself (`number_finiteText`). The reader takes as
many digits as there are, so all this holds in front of what ends a value (`Ends`).
-/

namespace FarmLink.Json

/-! ### Where a number ends -/

/-- What follows a value in a document: a comma, a closing bracket or brace, a line break, or
nothing. -/
def Ends (rest : Text) : Prop := ∀ c ∈ rest.head?, c = ',' ∨ c = ']' ∨ c = '\x7d' ∨ c = '\n'

namespace Ends

variable {rest : Text} (h : Ends rest)

include h

theorem asciiDigit? : ∀ c ∈ rest.head?, Text.asciiDigit? c = none := by
  intro c hc
  rcases h c hc with rfl | rfl | rfl | rfl <;> rfl

theorem fraction? : fraction? rest = none := by
  cases rest with
  | nil => rfl
  | cons c r =>
    refine if_neg ?_
    rintro rfl
    exact absurd (h _ rfl) (by decide)

theorem exponent? : Decimal.exponent? Text.asciiDigit? rest = none := by
  cases rest with
  | nil => rfl
  | cons c r =>
    refine if_neg ?_
    rintro (rfl | rfl)
    · exact absurd (h _ rfl) (by decide)
    · exact absurd (h _ rfl) (by decide)

end Ends

/-! ### Digits and the sign in front of them -/

/-- Digits of which the first is zero only where it stands alone. -/
theorem whole?_numerals {ds : List Nat} {rest : Text} (hds : ∀ d ∈ ds, d < 10)
    (hfirst : ds = [0] ∨ ∃ d r, ds = (d + 1) :: r)
    (hrest : ∀ c ∈ rest.head?, Text.asciiDigit? c = none) :
    whole? (Text.numerals ds ++ rest) = some (ds, rest) := by
  unfold whole?
  rw [Text.takeDigits_ascii hds hrest]
  rcases hfirst with rfl | ⟨d, r, rfl⟩
  · rfl
  · rfl

theorem fraction?_numerals {ds : List Nat} {rest : Text} (hds : ∀ d ∈ ds, d < 10) (hne : ds ≠ [])
    (hrest : ∀ c ∈ rest.head?, Text.asciiDigit? c = none) :
    fraction? (('.' : CodePoint) :: (Text.numerals ds ++ rest)) = some (ds, rest) := by
  rw [fraction?, if_pos rfl, Text.takeDigits_ascii hds hrest]
  cases ds with
  | nil => exact absurd rfl hne
  | cons d ds => rfl

/-- A text behind a minus sign, or without one. -/
def signed (negative : Bool) (t : Text) : Text := if negative then '-' :: t else t

theorem signed_append (negative : Bool) (t rest : Text) :
    signed negative t ++ rest = signed negative (t ++ rest) := by
  cases negative <;> rfl

/-- What is read as digits begins with one. -/
theorem exists_digit_of_whole? {t rest : Text} {ds : List Nat} (h : whole? t = some (ds, rest)) :
    ∃ c r d, t = c :: r ∧ Text.asciiDigit? c = some d := by
  cases t with
  | nil => cases h
  | cons c r =>
    cases hc : Text.asciiDigit? c with
    | some d => exact ⟨c, r, d, rfl, hc⟩
    | none =>
      unfold whole? at h
      rw [Text.takeDigits, hc] at h
      cases h

theorem ne_of_asciiDigit? {c other : CodePoint} {d : Nat} (hc : Text.asciiDigit? c = some d)
    (hother : Text.asciiDigit? other = none) : c ≠ other := by
  rintro rfl
  rw [hc] at hother
  cases hother

section Reading

variable {negative : Bool} {t rest behind : Text} {whole fraction : List Nat}

theorem number_int (negative : Bool) (h : whole? t = some (whole, rest)) (hrest : Ends rest)
    (hlength : whole.length ≤ digitLimit) :
    number (signed negative t) =
      .ok (.int (if negative then -(Text.ofDigits 10 whole : Int) else Text.ofDigits 10 whole),
        rest) := by
  obtain ⟨c, r, d, rfl, hc⟩ := exists_digit_of_whole? h
  have hminus : c ≠ '-' := ne_of_asciiDigit? hc rfl
  have hshort : ¬ digitLimit < whole.length := Nat.not_lt.2 hlength
  cases negative with
  | true =>
    unfold number signed
    simp [h, hrest.fraction?, hrest.exponent?, hshort]
  | false =>
    unfold number signed
    simp [h, hrest.fraction?, hrest.exponent?, hshort, hminus]

/-- What stands behind the whole digits of a double: a fraction, an exponent, or both. -/
inductive Continues (rest : Text) : Text → List Nat → Int → Prop
  | fraction {behind : Text} {ds : List Nat} (hfraction : fraction? behind = some (ds, rest))
      (hexponent : Decimal.exponent? Text.asciiDigit? rest = none) : Continues rest behind ds 0
  | exponent {behind : Text} {e : Int} (hfraction : fraction? behind = none)
      (hexponent : Decimal.exponent? Text.asciiDigit? behind = some (e, rest)) :
      Continues rest behind [] e
  | both {behind tail : Text} {ds : List Nat} {e : Int}
      (hfraction : fraction? behind = some (ds, tail))
      (hexponent : Decimal.exponent? Text.asciiDigit? tail = some (e, rest)) :
      Continues rest behind ds e

theorem number_float {exponent : Int} (negative : Bool) (h : whole? t = some (whole, behind))
    (hbehind : Continues rest behind fraction exponent) :
    number (signed negative t) =
      .ok (.float (Decimal.ofDigits negative whole fraction exponent).toDouble, rest) := by
  obtain ⟨c, r, d, rfl, hc⟩ := exists_digit_of_whole? h
  have hminus : c ≠ '-' := ne_of_asciiDigit? hc rfl
  unfold number signed
  cases hbehind with
  | fraction hfraction hexponent =>
    cases negative <;> simp [h, hminus, hfraction, hexponent]
  | exponent hfraction hexponent =>
    cases negative <;> simp [h, hminus, hfraction, hexponent]
  | both hfraction hexponent =>
    cases negative <;> simp [h, hminus, hfraction, hexponent]

theorem readValue_number {c : CodePoint} {r : Text} (fuel depth : Nat) (htext : c ≠ '"')
    (hlist : c ≠ '[') (hdict : c ≠ '\x7b') (hname : named? (c :: r) = none) :
    readValue (fuel + 1) depth (c :: r) = number (c :: r) := by
  rw [readValue.eq_def]
  simp only
  rw [if_neg htext, if_neg hlist, if_neg hdict, hname]

theorem named?_eq_none (h : ∀ e ∈ names, Text.after? e.1 t = none) : named? t = none := by
  refine List.findSome?_eq_none_iff.2 fun e he => ?_
  simp only [h e he, Option.map_none]

/-- What begins with a digit, or with one behind a minus sign, is read as a number. -/
theorem readValue_signed (fuel depth : Nat) (negative : Bool)
    (h : whole? t = some (whole, behind)) :
    readValue (fuel + 1) depth (signed negative t) = number (signed negative t) := by
  obtain ⟨c, r, d, rfl, hc⟩ := exists_digit_of_whole? h
  have hne (other : CodePoint) (hother : Text.asciiDigit? other = none) : other ≠ c :=
    (ne_of_asciiDigit? hc hother).symm
  cases negative with
  | true =>
    have hinfinity : Text.after? "-Infinity" (('-' : CodePoint) :: c :: r) = none :=
      if_neg (hne 'I' rfl)
    have hname : named? (('-' : CodePoint) :: c :: r) = none := by
      refine named?_eq_none ?_
      simp only [names, List.forall_mem_cons]
      exact ⟨rfl, rfl, rfl, rfl, rfl, hinfinity, List.forall_mem_nil _⟩
    exact readValue_number fuel depth (by decide) (by decide) (by decide) hname
  | false =>
    have hafter (first : CodePoint) (name : Text) (hfirst : Text.asciiDigit? first = none) :
        Text.after? (first :: name) (c :: r) = none := if_neg (hne first hfirst)
    have hname : named? (c :: r) = none := by
      refine named?_eq_none ?_
      simp only [names, List.forall_mem_cons]
      exact ⟨hafter 'n' _ rfl, hafter 't' _ rfl, hafter 'f' _ rfl, hafter 'N' _ rfl,
        hafter 'I' _ rfl, hafter '-' _ rfl, List.forall_mem_nil _⟩
    exact readValue_number fuel depth (hne '"' rfl).symm (hne '[' rfl).symm (hne '\x7b' rfl).symm
      hname

end Reading

/-! ### Whole numbers -/

theorem ofInt_eq_signed (n : Int) : Text.ofInt n = signed (n < 0) (Text.ofNat n.natAbs) := by
  unfold Text.ofInt signed
  simp only [decide_eq_true_eq]

/-- **A whole number is read back.** -/
theorem readValue_ofInt {n : Int} {rest : Text} (fuel depth : Nat)
    (h : FarmLink.isShowable n = true) (hrest : Ends rest) :
    readValue (fuel + 1) depth (Text.ofInt n ++ rest) = .ok (.int n, rest) := by
  obtain ⟨ds, hds, htext, hlength⟩ := exists_digits_of_isShowable h
  have hwhole := whole?_numerals hds.lt hds.first hrest.asciiDigit?
  rw [ofInt_eq_signed, signed_append, htext, readValue_signed fuel depth _ hwhole,
    number_int _ hwhole hrest hlength, hds.value]
  have hvalue : (if decide (n < 0) = true then -(n.natAbs : Int) else n.natAbs) = n := by
    split
    · next hneg =>
      have := of_decide_eq_true hneg
      omega
    · next hneg =>
      have := of_decide_eq_false (Bool.eq_false_iff.2 hneg)
      omega
  rw [hvalue]

/-! ### Doubles -/

/-- Digits on both sides of a point. -/
def pointed (whole fraction : List Nat) : Text :=
  Text.numerals whole ++ ('.' : CodePoint) :: Text.numerals fraction

/-- A text that is read as a double, whatever the sign in front of it and the end behind it. -/
def Spells (t : Text) (x : Decimal) : Prop :=
  ∀ (fuel depth : Nat) (negative : Bool) (rest : Text), Ends rest →
    readValue (fuel + 1) depth (signed negative t ++ rest) =
      .ok (.float ({ x with negative := negative } : Decimal).toDouble, rest)

theorem Spells.congr {t : Text} {x y : Decimal} (h : Spells t x)
    (hxy : ∀ negative, ({ x with negative := negative } : Decimal).toDouble =
      ({ y with negative := negative } : Decimal).toDouble) : Spells t y := by
  intro fuel depth negative rest hrest
  rw [← hxy negative]
  exact h fuel depth negative rest hrest

/-- No digit, but a point or the letter of an exponent, ends the digits in front of it. -/
theorem asciiDigit?_head_cons {c : CodePoint} (h : Text.asciiDigit? c = none) (r : Text) :
    ∀ d ∈ (c :: r).head?, Text.asciiDigit? d = none := by
  rintro _ ⟨⟩
  exact h

theorem spells_pointed {x : Decimal} {whole fraction : List Nat} (hwhole : ∀ d ∈ whole, d < 10)
    (hfirst : whole = [0] ∨ ∃ d r, whole = (d + 1) :: r) (hfraction : ∀ d ∈ fraction, d < 10)
    (hne : fraction ≠ []) (hcoefficient : Text.ofDigits 10 (whole ++ fraction) = x.coefficient)
    (hexponent : -(fraction.length : Int) = x.exponent) : Spells (pointed whole fraction) x := by
  intro fuel depth negative rest hrest
  have htext : pointed whole fraction ++ rest =
      Text.numerals whole ++ ('.' : CodePoint) :: (Text.numerals fraction ++ rest) :=
    List.append_assoc ..
  have hread := whole?_numerals hwhole hfirst
    (asciiDigit?_head_cons (show Text.asciiDigit? '.' = none from rfl)
      (Text.numerals fraction ++ rest))
  have hbehind := Continues.fraction (fraction?_numerals hfraction hne hrest.asciiDigit?)
    hrest.exponent?
  rw [signed_append, htext, readValue_signed fuel depth negative hread,
    number_float negative hread hbehind, Decimal.ofDigits, hcoefficient, Int.zero_sub, hexponent]

section Forms

variable {x : Decimal} {ds : List Nat}

/-- Every digit behind the point. -/
theorem spells_below (hds : Text.Writes 10 ds x.coefficient)
    (hplace : (ds.length : Int) + x.exponent ≤ 0) :
    Spells (Decimal.positional (Text.numerals ds) (ds.length + x.exponent)) x := by
  obtain ⟨zeros, hzeros⟩ : ∃ zeros : Nat, -((ds.length : Int) + x.exponent) = zeros :=
    Int.eq_ofNat_of_zero_le (by omega)
  have htext : Decimal.positional (Text.numerals ds) (ds.length + x.exponent) =
      pointed [0] (List.replicate zeros 0 ++ ds) := by
    rw [Decimal.positional, if_pos hplace, hzeros, Int.toNat_natCast, Text.repeated_zero,
      List.append_assoc, ← Text.numerals_append]
    rfl
  have hlt : ∀ d ∈ List.replicate zeros 0 ++ ds, d < 10 := by
    intro d hd
    rcases List.mem_append.1 hd with hd | hd
    · rw [List.eq_of_mem_replicate hd]
      decide
    · exact hds.lt d hd
  rw [htext]
  refine spells_pointed (by decide) (.inl rfl) hlt
    (List.append_ne_nil_of_right_ne_nil _ hds.ne_nil) ?_ ?_
  · rw [← List.replicate_one, Text.ofDigits_zeros_append, Text.ofDigits_zeros_append, hds.value]
  · rw [List.length_append, List.length_replicate]
    omega

/-- The digits of a number other than zero begin with another one. -/
theorem exists_first_digit (hds : Text.Writes 10 ds x.coefficient) (hx : x.coefficient ≠ 0) :
    ∃ d r, ds = (d + 1) :: r := by
  rcases hds.first with rfl | hfirst
  · exact absurd hds.value.symm hx
  · exact hfirst

/-- The point among the digits. -/
theorem spells_among (hds : Text.Writes 10 ds x.coefficient) (hx : x.coefficient ≠ 0)
    (hlow : 0 < (ds.length : Int) + x.exponent) (hhigh : x.exponent < 0) :
    Spells (Decimal.positional (Text.numerals ds) (ds.length + x.exponent)) x := by
  obtain ⟨front, hfront⟩ : ∃ front : Nat, (ds.length : Int) + x.exponent = (front + 1 : Nat) :=
    ⟨((ds.length : Int) + x.exponent).toNat - 1, by omega⟩
  have htext : Decimal.positional (Text.numerals ds) (ds.length + x.exponent) =
      pointed (ds.take (front + 1)) (ds.drop (front + 1)) := by
    rw [Decimal.positional, if_neg (Int.not_le.2 hlow), if_neg, hfront, Int.toNat_natCast,
      List.append_assoc]
    · unfold pointed Text.numerals
      rw [List.map_take, List.map_drop]
      rfl
    · rw [Text.length_numerals]
      omega
  rw [htext]
  refine spells_pointed (fun d hd => hds.lt d (List.mem_of_mem_take hd)) ?_
    (fun d hd => hds.lt d (List.mem_of_mem_drop hd)) ?_ ?_ ?_
  · obtain ⟨d, r, rfl⟩ := exists_first_digit hds hx
    exact .inr ⟨d, r.take front, List.take_succ_cons⟩
  · rw [ne_eq, List.drop_eq_nil_iff]
    omega
  · rw [List.take_append_drop, hds.value]
  · rw [List.length_drop]
    omega

/-- Every digit in front of the point, and zeros up to it. -/
theorem spells_above (hds : Text.Writes 10 ds x.coefficient) (hx : x.coefficient ≠ 0)
    (hlow : 0 ≤ x.exponent) (hhigh : x.exponent ≤ 310) :
    Spells (Decimal.positional (Text.numerals ds) (ds.length + x.exponent)) x := by
  obtain ⟨zeros, hzeros⟩ := Int.eq_ofNat_of_zero_le hlow
  obtain ⟨d, r, hfirst⟩ := exists_first_digit hds hx
  have htext : Decimal.positional (Text.numerals ds) (ds.length + x.exponent) =
      pointed (ds ++ List.replicate zeros 0) [0] := by
    have hgap : ((ds.length : Int) + zeros).toNat - ds.length = zeros := by omega
    have hpositive : 0 < ds.length := List.length_pos_iff.2 hds.ne_nil
    rw [Decimal.positional, if_neg (by omega), if_pos, hzeros, Text.length_numerals, hgap,
      Text.repeated_zero, ← Text.numerals_append]
    · rfl
    · rw [Text.length_numerals]
      omega
  have hlt : ∀ d ∈ ds ++ List.replicate zeros 0, d < 10 := by
    intro d hd
    rcases List.mem_append.1 hd with hd | hd
    · exact hds.lt d hd
    · rw [List.eq_of_mem_replicate hd]
      decide
  have htenfold : Spells (pointed (ds ++ List.replicate zeros 0) [0])
      ⟨x.negative, x.coefficient * 10 ^ zeros * 10, -1⟩ := by
    refine spells_pointed hlt (.inr ⟨d, r ++ List.replicate zeros 0, ?_⟩) (by decide)
      (List.cons_ne_nil _ _) ?_ rfl
    · rw [hfirst, List.cons_append]
    · rw [Text.ofDigits_concat, Text.ofDigits_append_zeros, hds.value, Nat.mul_comm 10,
        Nat.add_zero]
  rw [htext]
  refine htenfold.congr fun negative => ?_
  rw [Decimal.toDouble_tenfold negative hx (by omega), hzeros]

/-- The letter of an exponent, a sign, and digits. -/
theorem exponent?_signed {r digits rest : Text} {negative : Bool} {es : List Nat} (hne : es ≠ [])
    (hsign : Decimal.scanSign r = (negative, digits))
    (htake : Text.takeDigits Text.asciiDigit? digits = (es, rest)) :
    Decimal.exponent? Text.asciiDigit? (('e' : CodePoint) :: r) =
      some (if negative then -(Text.ofDigits 10 es : Int) else Text.ofDigits 10 es, rest) := by
  cases es with
  | nil => exact absurd rfl hne
  | cons d es =>
    rw [Decimal.exponent?, if_pos (.inl rfl), hsign]
    simp only [htake]

/-- An exponent behind its letter and sign, in at least two digits. -/
def exponentText (e : Int) : Text :=
  Text.ofString (if e < 0 then "e-" else "e+") ++
    (Text.repeated (2 - (Text.ofNat e.natAbs).length) '0' ++ Text.ofNat e.natAbs)

theorem exponent?_exponentText (e : Int) {rest : Text}
    (hrest : ∀ c ∈ rest.head?, Text.asciiDigit? c = none) :
    Decimal.exponent? Text.asciiDigit? (exponentText e ++ rest) = some (e, rest) := by
  unfold exponentText
  obtain ⟨es, hne, hlt, hvalue, -, htext⟩ :=
    Text.exists_padded (show 1 < 10 by decide) 2 e.natAbs
  have htake := Text.takeDigits_ascii hlt hrest
  rw [show Text.repeated (2 - (Text.ofNat e.natAbs).length) '0' ++ Text.ofNat e.natAbs =
    Text.numerals es from htext, List.append_assoc]
  by_cases hneg : e < 0
  · have hsign : Decimal.scanSign (('-' : CodePoint) :: (Text.numerals es ++ rest)) =
        (true, Text.numerals es ++ rest) := rfl
    rw [if_pos hneg]
    refine (exponent?_signed hne hsign htake).trans ?_
    rw [if_pos rfl, hvalue, Int.ofNat_natAbs_of_nonpos (Int.le_of_lt hneg), Int.neg_neg]
  · have hsign : Decimal.scanSign (('+' : CodePoint) :: (Text.numerals es ++ rest)) =
        (false, Text.numerals es ++ rest) := rfl
    rw [if_neg hneg]
    refine (exponent?_signed hne hsign htake).trans ?_
    rw [if_neg Bool.false_ne_true, hvalue, Int.natAbs_of_nonneg (Int.not_lt.1 hneg)]

theorem exists_exponentText (e : Int) (rest : Text) :
    ∃ r, exponentText e ++ rest = ('e' : CodePoint) :: r := by
  unfold exponentText
  split
  · exact ⟨_, rfl⟩
  · exact ⟨_, rfl⟩

/-- The point behind the first digit, if there are others, and the exponent. -/
theorem spells_scientific (hds : Text.Writes 10 ds x.coefficient) (hx : x.coefficient ≠ 0) :
    Spells (Decimal.scientific (Text.numerals ds) (ds.length + x.exponent - 1)) x := by
  obtain ⟨d, r, rfl⟩ := exists_first_digit hds hx
  have hplace : ((((d + 1) :: r).length : Nat) : Int) + x.exponent - 1 = r.length + x.exponent := by
    rw [List.length_cons]
    omega
  have hfirst : ∀ e ∈ [d + 1], e < 10 :=
    List.forall_mem_singleton.2 (hds.lt _ List.mem_cons_self)
  intro fuel depth negative rest hrest
  have hexponent := exponent?_exponentText (r.length + x.exponent) hrest.asciiDigit?
  obtain ⟨tail, htail⟩ := exists_exponentText (r.length + x.exponent) rest
  have hend : ∀ c ∈ (exponentText (r.length + x.exponent) ++ rest).head?,
      Text.asciiDigit? c = none := by
    rw [htail]
    exact asciiDigit?_head_cons rfl tail
  -- both forms are read as the same digits and the same exponent
  have hread {behind : Text} (htext : Decimal.scientific (Text.numerals ((d + 1) :: r))
        (r.length + x.exponent) ++ rest = Text.numerals [d + 1] ++ behind)
      (hdigit : ∀ c ∈ behind.head?, Text.asciiDigit? c = none)
      (hbehind : Continues rest behind r (r.length + x.exponent)) :
      readValue (fuel + 1) depth (signed negative (Decimal.scientific
        (Text.numerals ((d + 1) :: r)) (r.length + x.exponent)) ++ rest) =
        .ok (.float ({ x with negative := negative } : Decimal).toDouble, rest) := by
    have hwhole := whole?_numerals hfirst (.inr ⟨d, [], rfl⟩) hdigit
    have hexact : (r.length : Int) + x.exponent - r.length = x.exponent := by omega
    rw [signed_append, htext, readValue_signed fuel depth negative hwhole,
      number_float negative hwhole hbehind, Decimal.ofDigits, List.singleton_append, hds.value,
      hexact]
  rw [hplace]
  cases r with
  | nil =>
    have hnone : fraction? (exponentText (([] : List Nat).length + x.exponent) ++ rest) = none := by
      rw [htail]
      rfl
    refine hread ?_ hend (.exponent hnone hexponent)
    simp only [Decimal.scientific, exponentText, List.append_assoc]
    rfl
  | cons e r =>
    have hsome := fraction?_numerals (fun f hf => hds.lt f (List.mem_cons_of_mem _ hf))
      (List.cons_ne_nil e r) hend
    refine hread ?_ (asciiDigit?_head_cons rfl _) (.both hsome hexponent)
    simp only [Decimal.scientific, exponentText, List.append_assoc]
    rfl

/-- **A decimal as text is read as a double.** -/
theorem spells_toText (hx : x.coefficient ≠ 0) : Spells x.toText x := by
  obtain ⟨ds, hds, htext⟩ := Text.exists_writes_ofNat x.coefficient
  unfold Decimal.toText
  simp only [htext, Text.length_numerals]
  split
  · next hplace =>
    by_cases hbelow : (ds.length : Int) + x.exponent ≤ 0
    · exact spells_below hds hbelow
    · by_cases hamong : x.exponent < 0
      · exact spells_among hds hx (by omega) hamong
      · exact spells_above hds hx (by omega) (by omega)
  · exact spells_scientific hds hx

end Forms

/-- **A finite double is read back**, the sign of a zero included. -/
theorem readValue_finiteText {x : Double} {rest : Text} (fuel depth : Nat)
    (h : x.isFinite = true) (hrest : Ends rest) :
    readValue (fuel + 1) depth (x.finiteText ++ rest) = .ok (.float x, rest) := by
  have htext : x.finiteText =
      signed x.negative (if x.isZero then "0.0" else (Decimal.shortest x).toText) := rfl
  rw [htext]
  cases hzero : x.isZero with
  | true =>
    have hpointed : Text.ofString "0.0" = pointed [0] [0] := rfl
    have hspells : Spells (pointed [0] [0]) ⟨false, 0, -1⟩ :=
      spells_pointed (by decide) (.inl rfl) (by decide) (by decide) rfl rfl
    have hx : (Decimal.mk x.negative 0 (-1)).toDouble = x := by
      obtain ⟨negative, magnitude, hlt⟩ := x
      obtain rfl : magnitude = 0 := beq_iff_eq.1 hzero
      rfl
    rw [if_pos rfl, hpointed, hspells fuel depth x.negative rest hrest, hx]
  | false =>
    have hspells := spells_toText (Decimal.coefficient_shortest_ne_zero h hzero)
    rw [if_neg Bool.false_ne_true, hspells fuel depth x.negative rest hrest,
      Decimal.toDouble_shortest h hzero]

end FarmLink.Json
