import FarmLink.Proofs.Numeral.Whole
import FarmLink.Proofs.Token.Number
import FarmLink.Proofs.Value.Showable

/-!
# WholeNumber - the whole number at the front of a token

A token is read by the whole numeral at its front that takes all the digits there are. Hexadecimal
digits behind a mark go before the zero of the mark, and are the only ones of which there may be any
number (`integer_reads_longest`). A number is read back as it is written, whatever no digit follows
it, unless that makes a mark of a zero (`integer_ofInt_append`).
-/

namespace FarmLink.Token

open Numeral Text

variable {t token : Text} {negative : Bool} {ds : List Nat} {default : Int}

/-! ### What the readers of digits take -/

/-- Behind a mark the run of digits is read if there is one. -/
theorem hexDigits?_append {m : Text} (hm : m ∈ hexadecimal.marks) (y : Text) :
    hexDigits? (m ++ y) =
      if (takeDigits hexDigit? y).1 = [] then none else some (takeDigits hexDigit? y).1 := by
  obtain ⟨x, hx, rfl⟩ := mem_marks_hexadecimal.1 hm
  rw [List.cons_append, List.singleton_append, hexDigits?, if_pos ⟨rfl, hx⟩]
  cases (takeDigits hexDigit? y).1 with
  | nil => rfl
  | cons d ds => rfl

/-- Nothing is read without a mark. -/
theorem exists_mark_of_hexDigits? (h : hexDigits? t = some ds) :
    ∃ m ∈ hexadecimal.marks, ∃ y, t = m ++ y := by
  match t with
  | [] => cases h
  | [_] => cases h
  | zero :: x :: y =>
    rw [hexDigits?] at h
    split_ifs at h with hmark
    obtain ⟨rfl, hx⟩ := hmark
    exact ⟨_, mem_marks_hexadecimal.2 ⟨x, hx, rfl⟩, y, rfl⟩

/-! ### Numerals at the front of a token -/

theorem integer_eq (token : Text) (default : Int) :
    integer token default =
      match size? (Decimal.scanSign (unblanked token)).2 with
      | none => default
      | some n => if (Decimal.scanSign (unblanked token)).1 then -(n : Int) else n := rfl

/-- A token is read by what stands behind its sign. -/
theorem integer_append {s y : Text} (htoken : unblanked token = s ++ y)
    (hsign : SpellsSign s negative) (hy : ∀ c ∈ y.head?, c ≠ '-' ∧ c ≠ '+') :
    integer token default =
      match size? y with
      | none => default
      | some n => if negative then -(n : Int) else n := by
  rw [integer_eq, htoken, scanSign_append hsign hy]

/-- A token with hexadecimal digits behind a mark is read by them. -/
theorem integer_of_hexadecimal (h : hexadecimal.Takes (unblanked token) negative ds) :
    integer token default = hexadecimal.number negative ds := by
  generalize htoken : unblanked token = u at h
  obtain ⟨@⟨s, m, t, _, _, hsign, hmark, hdigits, hne⟩, hstop⟩ := h
  rename_i rest
  have hhead : ∀ c ∈ (m ++ (t ++ rest)).head?, c ≠ '-' ∧ c ≠ '+' := by
    obtain ⟨x, -, rfl⟩ := mem_marks_hexadecimal.1 hmark
    rintro _ ⟨⟩
    decide
  have hrun : takeDigits hexDigit? (t ++ rest) = (ds, rest) := takeDigits_of_stop hdigits hstop
  have hsize : size? (m ++ (t ++ rest)) = some (ofDigits 16 ds) := by
    unfold size?
    rw [hexDigits?_append hmark, hrun, if_neg hne]
  rw [List.append_assoc, List.append_assoc] at htoken
  rw [integer_append htoken hsign hhead, hsize]
  rfl

/-- Where no hexadecimal numeral stands at the front, nothing is read as one. -/
theorem hexDigits?_of_not_leads {s y : Text} (hsign : SpellsSign s negative)
    (h : ¬ hexadecimal.Leads (s ++ y)) : hexDigits? y = none := by
  by_contra hsome
  obtain ⟨ds, hds⟩ := Option.ne_none_iff_exists'.1 hsome
  obtain ⟨m, hmark, y, rfl⟩ := exists_mark_of_hexDigits? hds
  rw [hexDigits?_append hmark] at hds
  split_ifs at hds with hne
  exact h (Radix.takes_append hsign hmark hne).leads

/-- The size of a text without hexadecimal digits behind a mark. -/
theorem size?_of_takeDigits {y rest : Text} (hhex : hexDigits? y = none)
    (h : takeDigits digit? y = (ds, rest)) (hne : ds ≠ []) :
    size? y = if ds.length ≤ digitLimit then some (ofDigits 10 ds) else none := by
  unfold size?
  rw [hhex, h]
  rcases ds with - | ⟨d, ds⟩
  · exact absurd rfl hne
  · rfl

/-- Another token that begins with a decimal numeral is read by that, if it is short. -/
theorem integer_of_decimal (hhex : ¬ hexadecimal.Leads (unblanked token))
    (h : decimal.Takes (unblanked token) negative ds) :
    integer token default =
      if ds.length ≤ digitLimit then decimal.number negative ds else default := by
  generalize htoken : unblanked token = u at h hhex
  obtain ⟨@⟨s, m, t, _, _, hsign, hmark, hdigits, hne⟩, hstop⟩ := h
  rename_i rest
  obtain rfl : m = [] := List.mem_singleton.1 hmark
  rw [List.nil_append, List.append_assoc] at hhex htoken
  have hnone : hexDigits? (t ++ rest) = none := hexDigits?_of_not_leads hsign hhex
  rw [integer_append htoken hsign (ne_sign_of_spellsDigits hdigits hne rest),
    size?_of_takeDigits hnone (takeDigits_of_stop hdigits hstop) hne]
  by_cases hshort : ds.length ≤ digitLimit
  · rw [if_pos hshort, if_pos hshort]
    rfl
  · rw [if_neg hshort, if_neg hshort]

/-- A token that begins with no whole numeral is not read. -/
theorem integer_of_not_leads (hhex : ¬ hexadecimal.Leads (unblanked token))
    (hdecimal : ¬ decimal.Leads (unblanked token)) : integer token default = default := by
  obtain ⟨s, hs, hsign⟩ := exists_spellsSign (unblanked token)
  rw [hs] at hhex hdecimal
  have hnone : hexDigits? (Decimal.scanSign (unblanked token)).2 = none :=
    hexDigits?_of_not_leads hsign hhex
  have hempty : (takeDigits digit? (Decimal.scanSign (unblanked token)).2).1 = [] := by
    by_contra hne
    have htakes := Radix.takes_append (r := decimal) (m := []) hsign List.mem_cons_self hne
    exact hdecimal htakes.leads
  have hsize : size? (Decimal.scanSign (unblanked token)).2 = none := by
    unfold size?
    rw [hnone, hempty]
  rw [integer_eq, hsize]

/-! ### Numbers as they are written -/

/-- A written number is a decimal numeral. Its first digit is zero only for the number zero. -/
theorem exists_spells_ofInt {n : Int} (h : isShowable n = true) :
    ∃ s t ds, Text.ofInt n = s ++ t ∧ SpellsSign s (n < 0) ∧ SpellsDigits t ds ∧ ds ≠ [] ∧
      ds.length ≤ digitLimit ∧ ofDigits 10 ds = n.natAbs ∧
      (t = ['0'] ∧ n = 0 ∨ ∃ d r, ds = (d + 1) :: r) := by
  obtain ⟨ds, hds, htext, hlength⟩ := exists_digits_of_isShowable h
  have hdigits : SpellsDigits (numerals ds) ds :=
    map_numerals fun d hd => digit?_digitChar d (hds.lt d hd)
  have hsign : ∃ s, Text.ofInt n = s ++ numerals ds ∧ SpellsSign s (n < 0) := by
    unfold Text.ofInt
    rw [htext]
    split_ifs with hn
    · exact ⟨['-'], rfl, by rw [decide_eq_true hn]; exact .minus⟩
    · exact ⟨[], rfl, by rw [decide_eq_false hn]; exact .none⟩
  obtain ⟨s, hs, hsign⟩ := hsign
  refine ⟨s, numerals ds, ds, hs, hsign, hdigits, hds.ne_nil, hlength, hds.value,
    hds.first.imp_left ?_⟩
  rintro rfl
  have hvalue : (0 : Nat) = n.natAbs := hds.value
  exact ⟨rfl, by omega⟩

/-- What numerals are made of are no blanks. -/
theorem isTokenBlank_of_isFigure {c : CodePoint} (h : IsFigure c) : isTokenBlank c = false := by
  by_contra hblank
  rw [Bool.not_eq_false] at hblank
  have hplain : isAsciiBlank (plainChar c) = true := by
    simp only [isTokenBlank, Bool.or_eq_true, beq_iff_eq] at hblank
    rcases hblank with hblank | hblank
    · have hlt : c.toNat < 127 := by
        simp only [isAsciiBlank, Bool.or_eq_true, Bool.and_eq_true, decide_eq_true_eq,
          beq_iff_eq] at hblank
        omega
      rwa [plainChar, if_pos hlt]
    · obtain rfl : c = ⟨0xA0, by decide⟩ := CodePoint.ext hblank
      rfl
  rw [h.plainChar.1] at hplain
  cases hplain

/-- A token that begins with figures has no blanks in front. -/
theorem unblanked_append {w : Text} (hne : w ≠ []) (h : ∀ c ∈ w, IsFigure c) (rest : Text) :
    unblanked (w ++ rest) = w ++ rest := by
  rcases w with - | ⟨c, w⟩
  · exact absurd rfl hne
  · refine List.dropWhile_cons_of_neg ?_
    rw [isTokenBlank_of_isFigure (h c List.mem_cons_self)]
    exact Bool.false_ne_true

/-- **A number is read back as it is written**, with anything behind it but more digits, or what
makes a hexadecimal mark of a zero. -/
theorem integer_ofInt_append {n : Int} {rest : Text} (h : isShowable n = true)
    (hrest : ∀ c ∈ rest.head?, digit? c = none)
    (hzero : n = 0 → ∀ x c r, rest = x :: c :: r → x = 'x' ∨ x = 'X' → hexDigit? c = none) :
    integer (Text.ofInt n ++ rest) default = n := by
  obtain ⟨s, t, ds, htext, hsign, hdigits, hne, hlength, hvalue, hfirst⟩ := exists_spells_ofInt h
  have htne : t ≠ [] := by
    obtain ⟨c, r, rfl, -⟩ := hdigits.exists_head hne
    exact List.cons_ne_nil c r
  have hunblanked : unblanked (s ++ t ++ rest) = s ++ (t ++ rest) := by
    rw [unblanked_append (List.append_ne_nil_of_right_ne_nil s htne)
      (List.forall_mem_append.2 ⟨hsign.isFigure, hdigits.isFigure⟩), List.append_assoc]
  have hhex : ¬ hexadecimal.Leads (s ++ (t ++ rest)) :=
    not_leads_hexadecimal hsign hdigits hne (hfirst.imp_left fun h => ⟨h.1, hzero h.2⟩)
  have htakes : decimal.Takes (s ++ (t ++ rest)) (n < 0) ds := by
    rw [← List.append_assoc]
    exact .mk (.mk (m := []) hsign List.mem_cons_self hdigits hne) hrest
  rw [← hunblanked] at hhex htakes
  rw [htext, integer_of_decimal hhex htakes, if_pos hlength, Radix.number,
    show ofDigits decimal.base ds = n.natAbs from hvalue]
  simp only [decide_eq_true_eq]
  split_ifs <;> omega

theorem integer_ofInt {n : Int} (h : isShowable n = true) (default : Int) :
    integer (Text.ofInt n) default = n := by
  have hread : integer (Text.ofInt n ++ []) default = n :=
    integer_ofInt_append h (fun c hc => nomatch hc) fun _ x c r h => nomatch h
  rwa [List.append_nil] at hread

/-- **A token is read by the longest whole numeral at its front.**  Behind the blanks a sign may
stand. If `0x` and hexadecimal digits follow, all of these are read, however many there are; if not,
and decimal digits of any script follow, all of these are read if they are not too many; else the
default stands, without the sign. So a number is read back as it is written, unless it is a zero
that what follows makes a hexadecimal mark of. -/
theorem integer_reads_longest (token : Text) (default : Int) :
    (hexadecimal.Leads (unblanked token) →
      ∃ negative ds, hexadecimal.Takes (unblanked token) negative ds ∧
        integer token default = hexadecimal.number negative ds) ∧
    (¬ hexadecimal.Leads (unblanked token) → decimal.Leads (unblanked token) →
      ∃ negative ds, decimal.Takes (unblanked token) negative ds ∧
        integer token default =
          if ds.length ≤ digitLimit then decimal.number negative ds else default) ∧
    (¬ hexadecimal.Leads (unblanked token) → ¬ decimal.Leads (unblanked token) →
      integer token default = default) ∧
    ∀ (n : Int) (rest : Text), n.natAbs < 10 ^ digitLimit →
      (∀ c ∈ rest.head?, digit? c = none) →
      (n = 0 → ∀ x c r, rest = x :: c :: r → x = 'x' ∨ x = 'X' → hexDigit? c = none) →
      integer (Text.ofInt n ++ rest) default = n := by
  refine ⟨fun h => ?_, fun hhex h => ?_, integer_of_not_leads, fun n rest hn => ?_⟩
  · obtain ⟨negative, ds, htakes⟩ := h.exists_takes
    exact ⟨negative, ds, htakes, integer_of_hexadecimal htakes⟩
  · obtain ⟨negative, ds, htakes⟩ := h.exists_takes
    exact ⟨negative, ds, htakes, integer_of_decimal hhex htakes⟩
  · exact integer_ofInt_append (isShowable_of_natAbs_lt le_rfl hn)

/-- Digits up to a letter behind a mark, a mark without digits behind it, two signs, and a number
that is written and read back. -/
theorem integer_reads_longest_mark :
    (∃ negative ds, hexadecimal.Takes (unblanked "\u00A0-0x1Fz") negative ds ∧
      hexadecimal.number negative ds = -31) ∧
    (∃ negative ds, decimal.Takes (unblanked "0xg") negative ds ∧ decimal.number negative ds = 0) ∧
    integer "+-5" 7 = 7 ∧ integer (Text.ofInt (-40) ++ Text.ofString ":ok") 7 = -40 := by
  have hmark : hexadecimal.Leads (unblanked "\u00A0-0x1Fz") := by
    have htext : unblanked "\u00A0-0x1Fz" =
        Text.ofString "-" ++ (Text.ofString "0x" ++ Text.ofString "1F") ++ Text.ofString "z" := by
      decide +kernel
    rw [htext]
    exact ⟨_, true, [1, 15], List.prefix_append _ _,
      .mk .minus List.mem_cons_self (by decide) (List.cons_ne_nil _ _)⟩
  have hzero : ¬ hexadecimal.Leads (unblanked "0xg") := by
    intro h
    obtain ⟨x, c, r, htext, -, hc⟩ := exists_mark_of_leads h
    obtain ⟨-, htext⟩ := List.cons.inj htext
    obtain ⟨-, htext⟩ := List.cons.inj htext
    obtain ⟨rfl, -⟩ := List.cons.inj htext
    cases hc
  have hdigit : decimal.Leads (unblanked "0xg") :=
    ⟨['0'], false, [0], by decide +kernel,
      .mk .none (m := []) List.mem_cons_self (by decide) (List.cons_ne_nil _ _)⟩
  have hsigns : ¬ hexadecimal.Leads (unblanked "+-5") := by
    intro h
    obtain ⟨x, c, r, htext, -, -⟩ := exists_mark_of_leads h
    cases (List.cons.inj htext).1
  have hsigns' : ¬ decimal.Leads (unblanked "+-5") := by
    intro h
    obtain ⟨c, r, htext, hc⟩ := exists_digit_of_leads h
    obtain ⟨rfl, -⟩ := List.cons.inj htext
    cases hc
  obtain ⟨negative, ds, htakes, hvalue⟩ := (integer_reads_longest "\u00A0-0x1Fz" 7).1 hmark
  have hnumber : integer "0xg" 7 = 0 := by decide +kernel
  obtain ⟨negative', ds', htakes', hvalue'⟩ := (integer_reads_longest "0xg" 7).2.1 hzero hdigit
  rw [hnumber] at hvalue'
  have hshort : (-40 : Int).natAbs < 10 ^ digitLimit :=
    Nat.lt_of_lt_of_le (by decide : 40 < 10 ^ 2)
      (Nat.pow_le_pow_right (by decide) (by decide : 2 ≤ digitLimit))
  refine ⟨⟨negative, ds, htakes, hvalue.symm.trans (by decide +kernel)⟩,
    ⟨negative', ds', htakes', ?_⟩, (integer_reads_longest "+-5" 7).2.2.1 hsigns hsigns',
    (integer_reads_longest "" 7).2.2.2 (-40) ":ok" hshort (by decide) fun h => absurd h (by decide)⟩
  split at hvalue'
  · exact hvalue'.symm
  · exact absurd hvalue' (by decide)

end FarmLink.Token
