import FarmLink.Numeral.Decimal
import FarmLink.Proofs.Text.Digits

/-!
# Grammar - numerals and the longest one at the front of a text

A numeral is a sign, digits of any script with a point among them, and an exponent, or the name of
infinity behind a sign (`IsNumeral`). What the digits of one say is part of its grammar (`Spells`).
The scanner agrees with the grammar on whole numerals (`scan_of_spells`), takes nothing that is not
one (`exists_spells_of_scan`), and takes as much as any numeral at the front of the text
(`exists_scan_append`), though it never looks back. So what it takes is the longest numeral
(`scan_longest`).
-/

namespace FarmLink

namespace Numeral

open Decimal Text

/-! ### The grammar -/

/-- A sign, which may be missing, and whether it is a minus. -/
inductive SpellsSign : Text → Bool → Prop
  | none : SpellsSign [] false
  | plus : SpellsSign ['+'] false
  | minus : SpellsSign ['-'] true

/-- Digits of any script and their values. -/
def SpellsDigits (t : Text) (ds : List Nat) : Prop := t.map digit? = ds.map some

/-- The digits in front of a point and behind it. There may be no point, or no digits on one side
of it. -/
inductive SpellsMantissa : Text → List Nat → List Nat → Prop
  | whole {t : Text} {ds : List Nat} (h : SpellsDigits t ds) (hne : ds ≠ []) :
      SpellsMantissa t ds []
  | point {s t : Text} {ds es : List Nat} (hwhole : SpellsDigits s ds)
      (hfraction : SpellsDigits t es) (hne : ds ≠ [] ∨ es ≠ []) :
      SpellsMantissa (s ++ ('.' : CodePoint) :: t) ds es

/-- An exponent, which may be missing: its letter, a sign, and at least one digit. -/
inductive SpellsExponent : Text → Int → Prop
  | none : SpellsExponent [] 0
  | some {letter : CodePoint} {s t : Text} {negative : Bool} {ds : List Nat}
      (hletter : letter = 'e' ∨ letter = 'E') (hsign : SpellsSign s negative)
      (h : SpellsDigits t ds) (hne : ds ≠ []) :
      SpellsExponent (letter :: (s ++ t))
        (if negative then -(Text.ofDigits 10 ds : Int) else Text.ofDigits 10 ds)

/-- A decimal numeral and the number that it writes. -/
inductive Spells : Text → Decimal → Prop
  | mk {s m e : Text} {negative : Bool} {whole fraction : List Nat} {exponent : Int}
      (hsign : SpellsSign s negative) (hmantissa : SpellsMantissa m whole fraction)
      (hexponent : SpellsExponent e exponent) :
      Spells (s ++ (m ++ e)) (.ofDigits negative whole fraction exponent)

/-- A numeral: a decimal one, or the name of infinity behind a sign. -/
inductive IsNumeral : Text → Prop
  | decimal {t : Text} {x : Decimal} (h : Spells t x) : IsNumeral t
  | infinity {s : Text} {negative : Bool} (h : SpellsSign s negative) :
      IsNumeral (s ++ Text.ofString "Infinity")

/-- The longest numeral at the front of a text. -/
structure IsLongest (w t : Text) : Prop where
  isPrefix : w <+: t
  isNumeral : IsNumeral w
  longest : ∀ v, v <+: t → IsNumeral v → v.length ≤ w.length

theorem IsLongest.unique {v w t : Text} (hv : IsLongest v t) (hw : IsLongest w t) : v = w := by
  have hle := hw.longest v hv.isPrefix hv.isNumeral
  have hge := hv.longest w hw.isPrefix hw.isNumeral
  exact (List.prefix_of_prefix_length_le hv.isPrefix hw.isPrefix hle).eq_of_length (by omega)

variable {s t m e w y rest : Text} {negative : Bool} {ds es whole fraction : List Nat}

/-! ### Digits -/

theorem SpellsDigits.exists_head (h : SpellsDigits t ds) (hne : ds ≠ []) :
    ∃ c r, t = c :: r ∧ (digit? c).isSome = true := by
  rcases ds with - | ⟨d, ds⟩
  · exact absurd rfl hne
  · rcases t with - | ⟨c, r⟩
    · cases h
    · simp only [SpellsDigits, List.map_cons, List.cons.injEq] at h
      exact ⟨c, r, rfl, by rw [h.1]; rfl⟩

/-! ### Signs -/

theorem scanSign_append (h : SpellsSign s negative)
    (hy : ∀ c ∈ y.head?, c ≠ '-' ∧ c ≠ '+') : scanSign (s ++ y) = (negative, y) := by
  cases h with
  | none =>
    rcases y with - | ⟨c, r⟩
    · rfl
    · obtain ⟨hminus, hplus⟩ := hy c rfl
      rw [List.nil_append, scanSign, if_neg hminus, if_neg hplus]
  | plus => rfl
  | minus => rfl

theorem exists_spellsSign (t : Text) :
    ∃ s, t = s ++ (scanSign t).2 ∧ SpellsSign s (scanSign t).1 := by
  rcases t with - | ⟨c, r⟩
  · exact ⟨[], rfl, .none⟩
  · rw [scanSign]
    by_cases hminus : c = '-'
    · subst hminus
      exact ⟨['-'], rfl, .minus⟩
    · rw [if_neg hminus]
      by_cases hplus : c = '+'
      · subst hplus
        exact ⟨['+'], rfl, .plus⟩
      · rw [if_neg hplus]
        exact ⟨[], rfl, .none⟩

/-! ### Digits around a point -/

theorem digit?_of_isLetter {c : CodePoint} (h : c = 'e' ∨ c = 'E') : digit? c = none := by
  rcases h with rfl | rfl <;> rfl

/-- Digits up to a point, where those behind it count as well. -/
theorem scanMantissa_point (hwhole : SpellsDigits s whole) (t y : Text) :
    scanMantissa digit? (s ++ ('.' : CodePoint) :: t ++ y) =
      if whole = [] ∧ (takeDigits digit? (t ++ y)).1 = [] then none
      else some ((whole, (takeDigits digit? (t ++ y)).1), (takeDigits digit? (t ++ y)).2) := by
  have hbefore : takeDigits digit? (s ++ ('.' : CodePoint) :: (t ++ y)) =
      (whole, ('.' : CodePoint) :: (t ++ y)) := by
    apply takeDigits_of_stop hwhole
    intro c hc
    obtain rfl := Option.some.inj hc
    rfl
  have hpoint : after? "." (('.' : CodePoint) :: (t ++ y)) = some (t ++ y) := rfl
  unfold scanMantissa
  rw [List.append_assoc, List.cons_append, hbefore]
  simp only [hpoint]

/-- A mantissa in front of an exponent, or at the end. -/
theorem scanMantissa_of_stop (h : SpellsMantissa m whole fraction)
    (hy : ∀ c ∈ y.head?, c = 'e' ∨ c = 'E') :
    scanMantissa digit? (m ++ y) = some ((whole, fraction), y) := by
  have hstop : ∀ c ∈ y.head?, digit? c = none := fun c hc => digit?_of_isLetter (hy c hc)
  cases h with
  | whole h hne =>
    have hpoint : after? "." y = none := by
      rcases y with - | ⟨c, r⟩
      · rfl
      · rcases hy c rfl with rfl | rfl <;> rfl
    unfold scanMantissa
    rw [takeDigits_of_stop h hstop]
    simp only [hpoint, if_neg hne]
  | @point s t _ _ hwhole hfraction hne =>
    rw [scanMantissa_point hwhole]
    simp only [takeDigits_of_stop hfraction hstop]
    apply if_neg
    rintro ⟨hwhole, hfraction⟩
    exact hne.elim (absurd hwhole) (absurd hfraction)

/-- What leaves a mantissa, wherever the digits behind it end. -/
theorem exists_scanMantissa_append (h : SpellsMantissa m whole fraction) (y : Text) :
    ∃ digits rest, scanMantissa digit? (m ++ y) = some (digits, rest) ∧
      rest.length ≤ y.length := by
  have hleft := length_takeDigits_le digit? y
  cases h with
  | whole h hne =>
    have hsome : whole ++ (takeDigits digit? y).1 ≠ [] :=
      List.append_ne_nil_of_left_ne_nil hne _
    unfold scanMantissa
    rw [takeDigits_append h]
    simp only
    cases hpoint : after? "." (takeDigits digit? y).2 with
    | none => exact ⟨_, _, if_neg hsome, hleft⟩
    | some r =>
      have hr := length_takeDigits_le digit? r
      have hcut := congrArg List.length (after?_eq_some_iff.1 hpoint)
      rw [List.length_append] at hcut
      refine ⟨_, _, if_neg fun hnone => hsome hnone.1, ?_⟩
      show (takeDigits digit? r).2.length ≤ y.length
      omega
  | @point s t _ _ hwhole hfraction hne =>
    rw [scanMantissa_point hwhole]
    simp only [takeDigits_append hfraction]
    refine ⟨_, _, if_neg ?_, hleft⟩
    rintro ⟨hwhole, hfraction⟩
    rcases hne with hne | hne
    · exact hne hwhole
    · exact hne (List.append_eq_nil_iff.1 hfraction).1

theorem exists_spellsMantissa (h : scanMantissa digit? t = some ((whole, fraction), rest)) :
    ∃ m, t = m ++ rest ∧ SpellsMantissa m whole fraction := by
  obtain ⟨s, hs, hwhole⟩ := exists_run_of_takeDigits digit? t
  unfold scanMantissa at h
  generalize takeDigits digit? t = taken at *
  obtain ⟨ds, behind⟩ := taken
  simp only at h hs hwhole
  cases hpoint : after? "." behind with
  | none =>
    simp only [hpoint] at h
    by_cases hne : ds = []
    · rw [if_pos hne] at h
      cases h
    · rw [if_neg hne] at h
      cases h
      exact ⟨s, hs, .whole hwhole hne⟩
  | some r =>
    obtain ⟨s', hs', hfraction⟩ := exists_run_of_takeDigits digit? r
    simp only [hpoint] at h
    by_cases hne : ds = [] ∧ (takeDigits digit? r).1 = []
    · rw [if_pos hne] at h
      cases h
    · rw [if_neg hne] at h
      obtain ⟨⟨rfl, rfl⟩, rfl⟩ : (ds = whole ∧ (takeDigits digit? r).1 = fraction) ∧
          (takeDigits digit? r).2 = rest := by simpa using h
      have hne := Decidable.not_and_iff_or_not.1 hne
      refine ⟨s ++ ('.' : CodePoint) :: s', ?_, .point hwhole hfraction hne⟩
      have hbehind : behind = ('.' : CodePoint) :: r := after?_eq_some_iff.1 hpoint
      rw [List.append_assoc, List.cons_append, ← hs', ← hbehind, ← hs]

/-- A mantissa begins with a digit or a point, and with no sign. -/
theorem SpellsMantissa.exists_head (h : SpellsMantissa m whole fraction) :
    ∃ c r, m = c :: r ∧ ((digit? c).isSome = true ∨ c = '.') := by
  cases h with
  | whole h hne =>
    obtain ⟨c, r, rfl, hc⟩ := h.exists_head hne
    exact ⟨c, r, rfl, .inl hc⟩
  | @point s t _ _ hwhole hfraction hne =>
    rcases s with - | ⟨c, s⟩
    · exact ⟨'.', t, rfl, .inr rfl⟩
    · have hne : whole ≠ [] := by
        rintro rfl
        cases hwhole
      obtain ⟨c', r, hcr, hc⟩ := hwhole.exists_head hne
      exact ⟨c', r ++ ('.' : CodePoint) :: t, by rw [hcr, List.cons_append], .inl hc⟩

theorem ne_sign_of_digit? {c : CodePoint} (h : (digit? c).isSome = true ∨ c = '.') :
    c ≠ '-' ∧ c ≠ '+' := by
  constructor
  · rintro rfl
    exact absurd h (by decide)
  · rintro rfl
    exact absurd h (by decide)

/-! ### Exponents -/

variable {exponent : Int}

theorem exponent?_append {letter : CodePoint} (hletter : letter = 'e' ∨ letter = 'E')
    (hsign : SpellsSign s negative) (h : SpellsDigits t ds) (hne : ds ≠ []) (y : Text) :
    exponent? digit? (letter :: (s ++ t) ++ y) =
      some (if negative then -(Text.ofDigits 10 (ds ++ (takeDigits digit? y).1) : Int)
        else Text.ofDigits 10 (ds ++ (takeDigits digit? y).1),
        (takeDigits digit? y).2) := by
  have hscan : scanSign (s ++ (t ++ y)) = (negative, t ++ y) := by
    apply scanSign_append hsign
    obtain ⟨c, r, rfl, hc⟩ := h.exists_head hne
    rintro _ ⟨⟩
    exact ne_sign_of_digit? (.inl hc)
  rw [List.cons_append, List.append_assoc, exponent?, if_pos hletter, hscan]
  simp only [takeDigits_append h]
  rcases ds with - | ⟨d, ds⟩
  · exact absurd rfl hne
  · rfl

theorem scanExponent_of_spells (h : SpellsExponent e exponent) :
    scanExponent digit? e = (exponent, []) := by
  cases h with
  | none => rfl
  | some hletter hsign h hne =>
    have happend := exponent?_append hletter hsign h hne []
    unfold scanExponent
    rw [List.append_nil] at happend
    simp only [happend, takeDigits, List.append_nil, Option.getD_some]

theorem exists_spellsExponent (t : Text) :
    ∃ e, t = e ++ (scanExponent digit? t).2 ∧
      SpellsExponent e (scanExponent digit? t).1 := by
  unfold scanExponent
  cases h : exponent? digit? t with
  | none => exact ⟨[], rfl, .none⟩
  | some found =>
    rcases t with - | ⟨c, r⟩
    · cases h
    · by_cases hletter : c = 'e' ∨ c = 'E'
      · obtain ⟨s, hs, hsign⟩ := exists_spellsSign r
        obtain ⟨s', hs', hdigits⟩ := exists_run_of_takeDigits digit? (scanSign r).2
        rw [exponent?, if_pos hletter] at h
        generalize scanSign r = signed at *
        obtain ⟨negative, digits⟩ := signed
        simp only at h hs hsign hs' hdigits
        generalize takeDigits digit? digits = taken at *
        obtain ⟨ds, behind⟩ := taken
        rcases ds with - | ⟨d, ds⟩
        · cases h
        · obtain rfl := Option.some.inj h
          refine ⟨c :: (s ++ s'), ?_, .some hletter hsign hdigits (List.cons_ne_nil d ds)⟩
          rw [List.cons_append, List.append_assoc, hs]
          exact congrArg (fun r => c :: (s ++ r)) hs'
      · rw [exponent?, if_neg hletter] at h
        cases h

/-- What leaves an exponent, wherever the digits behind it end. -/
theorem length_scanExponent_append_le (h : SpellsExponent e exponent) (y : Text) :
    (scanExponent digit? (e ++ y)).2.length ≤ y.length := by
  cases h with
  | none =>
    obtain ⟨e, he, -⟩ := exists_spellsExponent y
    have hlength := congrArg List.length he
    rw [List.length_append] at hlength
    rw [List.nil_append]
    omega
  | some hletter hsign h hne =>
    unfold scanExponent
    rw [exponent?_append hletter hsign h hne y]
    exact length_takeDigits_le digit? y

/-! ### Numerals -/

variable {x : Decimal}

theorem SpellsExponent.isLetter_head (h : SpellsExponent e exponent) :
    ∀ c ∈ e.head?, c = 'e' ∨ c = 'E' := by
  cases h with
  | none =>
    intro c hc
    cases hc
  | some hletter _ _ _ =>
    rintro _ ⟨⟩
    exact hletter

theorem scanSign_of_spells (hsign : SpellsSign s negative)
    (hmantissa : SpellsMantissa m whole fraction) (y : Text) :
    scanSign (s ++ (m ++ y)) = (negative, m ++ y) := by
  apply scanSign_append hsign
  obtain ⟨c, r, rfl, hc⟩ := hmantissa.exists_head
  rintro _ ⟨⟩
  exact ne_sign_of_digit? hc

/-- **The scanner reads numerals as the grammar does.** -/
theorem scan_of_spells (h : Spells w x) : scan digit? w = some (x, []) := by
  obtain ⟨hsign, hmantissa, hexponent⟩ := h
  unfold scan
  rw [scanSign_of_spells hsign hmantissa]
  simp only [scanMantissa_of_stop hmantissa hexponent.isLetter_head,
    scanExponent_of_spells hexponent]

/-- **What the scanner takes is a numeral.** -/
theorem exists_spells_of_scan (h : scan digit? t = some (x, rest)) :
    ∃ w, t = w ++ rest ∧ Spells w x := by
  obtain ⟨s, hs, hsign⟩ := exists_spellsSign t
  unfold scan at h
  generalize scanSign t = signed at *
  obtain ⟨negative, unsigned⟩ := signed
  simp only at h hs hsign
  cases hscan : scanMantissa digit? unsigned with
  | none =>
    rw [hscan] at h
    cases h
  | some found =>
    obtain ⟨⟨whole, fraction⟩, behind⟩ := found
    obtain ⟨m, hm, hmantissa⟩ := exists_spellsMantissa hscan
    obtain ⟨e, he, hexponent⟩ := exists_spellsExponent behind
    rw [hscan] at h
    obtain ⟨hx, hrest⟩ := Prod.mk.inj (Option.some.inj h)
    refine ⟨s ++ (m ++ e), ?_, hx ▸ .mk hsign hmantissa hexponent⟩
    rw [hs, hm, he, ← hrest]
    simp only [List.append_assoc]

/-- **The scanner takes as much as any numeral in front.** -/
theorem exists_scan_append (h : Spells w x) (y : Text) :
    ∃ found rest, scan digit? (w ++ y) = some (found, rest) ∧ rest.length ≤ y.length := by
  obtain ⟨hsign, hmantissa, hexponent⟩ := h
  rename_i s m e negative whole fraction exponent
  have hscan := scanSign_of_spells hsign hmantissa (e ++ y)
  have htext : s ++ (m ++ e) ++ y = s ++ (m ++ (e ++ y)) := by simp only [List.append_assoc]
  have hend := length_scanExponent_append_le hexponent y
  unfold scan
  rw [htext, hscan]
  cases hexponent with
  | none =>
    -- the digits behind the mantissa may go on, and an exponent may follow them
    obtain ⟨⟨whole', fraction'⟩, rest, hfound, hle⟩ := exists_scanMantissa_append hmantissa y
    have hmore := length_scanExponent_append_le .none rest
    simp only [List.nil_append] at hmore ⊢
    simp only [hfound]
    exact ⟨_, _, rfl, Nat.le_trans hmore hle⟩
  | @some letter s' t' _ _ hletter _ _ _ =>
    have hhead : ∀ c ∈ (letter :: (s' ++ t') ++ y).head?, c = 'e' ∨ c = 'E' := by
      rintro _ ⟨⟩
      exact hletter
    simp only [scanMantissa_of_stop hmantissa hhead]
    exact ⟨_, _, rfl, hend⟩

/-! ### The longest numeral -/

theorem scan_infinity (h : SpellsSign s negative) (y : Text) :
    scan digit? (s ++ Text.ofString "Infinity" ++ y) = none := by
  have hname : Text.ofString "Infinity" ++ y =
      ('I' : CodePoint) :: (Text.ofString "nfinity" ++ y) := rfl
  have hmantissa : scanMantissa digit? (('I' : CodePoint) :: (Text.ofString "nfinity" ++ y)) =
      none := rfl
  have hsign : scanSign (s ++ (('I' : CodePoint) :: (Text.ofString "nfinity" ++ y))) =
      (negative, ('I' : CodePoint) :: (Text.ofString "nfinity" ++ y)) := by
    apply scanSign_append h
    rintro _ ⟨⟩
    decide
  unfold scan
  rw [List.append_assoc, hname, hsign]
  simp only [hmantissa]

/-- **What the scanner takes is the longest numeral.** -/
theorem isLongest_of_scan (h : scan digit? (w ++ rest) = some (x, rest)) :
    Spells w x ∧ IsLongest w (w ++ rest) := by
  obtain ⟨w', hw, hspells⟩ := exists_spells_of_scan h
  obtain rfl : w = w' := List.append_cancel_right hw
  refine ⟨hspells, List.prefix_append w rest, .decimal hspells, ?_⟩
  rintro v ⟨y, hy⟩ hv
  have hlength := congrArg List.length hy
  rw [List.length_append, List.length_append] at hlength
  rw [← hy] at h
  cases hv with
  | decimal hv =>
    obtain ⟨found, rest', hscan, hle⟩ := exists_scan_append hv y
    rw [hscan] at h
    obtain rfl := (Prod.mk.inj (Option.some.inj h)).2
    omega
  | infinity hsign =>
    rw [scan_infinity hsign] at h
    cases h

/-- Where the scanner takes nothing, the only numerals in front are names of infinity. -/
theorem exists_sign_of_scan_eq_none (h : scan digit? t = none) (hfront : w <+: t)
    (hw : IsNumeral w) :
    ∃ s negative, SpellsSign s negative ∧ w = s ++ Text.ofString "Infinity" := by
  obtain ⟨y, rfl⟩ := hfront
  cases hw with
  | decimal hw =>
    obtain ⟨found, rest, hscan, -⟩ := exists_scan_append hw y
    rw [hscan] at h
    cases h
  | @infinity s negative hsign => exact ⟨s, negative, hsign, rfl⟩

/-- **There is a longest numeral wherever there is one.** -/
theorem exists_isLongest (hfront : w <+: t) (hw : IsNumeral w) : ∃ v, IsLongest v t := by
  cases h : scan digit? t with
  | some found =>
    obtain ⟨x, rest⟩ := found
    obtain ⟨v, rfl, -⟩ := exists_spells_of_scan h
    exact ⟨v, (isLongest_of_scan h).2⟩
  | none =>
    refine ⟨w, hfront, hw, fun v hv hnumeral => ?_⟩
    obtain ⟨s, negative, hsign, rfl⟩ := exists_sign_of_scan_eq_none h hfront hw
    obtain ⟨s', negative', hsign', rfl⟩ := exists_sign_of_scan_eq_none h hv hnumeral
    obtain ⟨y, rfl⟩ := hfront
    obtain ⟨y', hy⟩ := hv
    -- a name without a sign has no sign in front of it
    cases hsign with
    | none =>
      cases hsign' with
      | none => exact Nat.le_refl _
      | plus =>
        have hhead : ('+' : CodePoint) = 'I' := Option.some.inj (congrArg List.head? hy)
        exact absurd hhead (by decide)
      | minus =>
        have hhead : ('-' : CodePoint) = 'I' := Option.some.inj (congrArg List.head? hy)
        exact absurd hhead (by decide)
    | plus | minus => cases hsign' <;> decide

end Numeral

end FarmLink
