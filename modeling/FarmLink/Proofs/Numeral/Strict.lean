import FarmLink.Numeral.Strict
import FarmLink.Proofs.Numeral.Grammar
import FarmLink.Proofs.Text.Numeral
import FarmLink.Proofs.Text.Trimming

/-!
# Strict - numerals read as whole texts

A text that is a numeral is read as the double that it names. The reader first turns digits of all
scripts into ASCII digits and cuts spaces and underscores; of a numeral the former changes no value
(`scan_plain`) and the latter finds nothing (`IsFigure`). So what the strict reader reads is what
the scanner does (`double?_of_spells`), and an infinite double where one is named
(`double?_infinity`).
-/

namespace FarmLink

namespace Numeral

open Decimal

/-! ### Characters made plain -/

/-- In ASCII the digits are the ASCII digits. -/
theorem digit?_of_lt {c : CodePoint} (h : c.toNat < 127) : Text.digit? c = Text.asciiDigit? c := by
  have hzeros : ∃ zeros, Text.digitZeros = 0x30 :: zeros ∧ ∀ start ∈ zeros, 127 ≤ start :=
    ⟨_, rfl, by decide⟩
  obtain ⟨zeros, heq, hzeros⟩ := hzeros
  have hrest : (zeros.findSome? fun start =>
      if start ≤ c.toNat ∧ c.toNat < start + 10 then some (c.toNat - start) else none) = none := by
    apply List.findSome?_eq_none_iff.2
    intro start hstart
    have hle := hzeros start hstart
    apply if_neg
    omega
  have hrange : ('0' ≤ c ∧ c ≤ '9') ↔ 0x30 ≤ c.toNat ∧ c.toNat < 0x30 + 10 := by
    show (0x30 ≤ c.toNat ∧ c.toNat ≤ 0x39) ↔ _
    omega
  have hzero : ('0' : Char).toNat = 0x30 := rfl
  unfold Text.digit? Text.asciiDigit?
  rw [heq, List.findSome?_cons, hrest]
  simp only [hrange, hzero]
  split_ifs <;> rfl

/-- No space is a digit. -/
theorem digit?_of_isBlank {c : CodePoint} (h : Text.isBlank c = true) (hc : 127 ≤ c.toNat) :
    Text.digit? c = none := by
  have hzeros : ∀ start ∈ Text.digitZeros, start + 10 ≤ 0x85 ∨ 0xA0 < start ∧ start + 10 ≤ 0x1680 ∨
      0x1680 < start ∧ start + 10 ≤ 0x2000 ∨ 0x3000 < start := by decide
  unfold Text.digit?
  apply List.findSome?_eq_none_iff.2
  intro start hstart
  have hgap := hzeros start hstart
  simp only [Text.isBlank, Bool.or_eq_true, Bool.and_eq_true, decide_eq_true_eq, beq_iff_eq] at h
  apply if_neg
  omega

/-- Made plain, a digit keeps its value, and nothing else becomes one. -/
theorem asciiDigit?_plainChar (c : CodePoint) :
    Text.asciiDigit? (plainChar c) = Text.digit? c := by
  unfold plainChar
  by_cases hc : c.toNat < 127
  · rw [if_pos hc, digit?_of_lt hc]
  · rw [if_neg hc]
    by_cases hblank : Text.isBlank c = true
    · rw [if_pos hblank, digit?_of_isBlank hblank (by omega)]
      rfl
    · rw [if_neg hblank]
      cases hd : Text.digit? c with
      | none => rfl
      | some d => exact Text.asciiDigit?_digitChar d (Text.digit?_lt hd)

/-- The characters of numerals beside digits. -/
def marks : Text := "+-.eE"

/-- The marks stay, and nothing else becomes one. -/
theorem plainChar_eq_iff {c mark : CodePoint} (h : mark ∈ marks) :
    plainChar c = mark ↔ c = mark := by
  have hmark : mark.toNat < 127 ∧ mark ≠ ' ' ∧ mark ≠ '?' ∧ Text.asciiDigit? mark = none := by
    revert mark
    decide
  obtain ⟨hlt, hspace, hquestion, hdigit⟩ := hmark
  by_cases hc : c.toNat < 127
  · rw [plainChar, if_pos hc]
  · have hne : c ≠ mark := by
      rintro rfl
      exact hc hlt
    refine iff_of_false (fun heq => ?_) hne
    have hnone := asciiDigit?_plainChar c
    rw [heq, hdigit] at hnone
    rw [plainChar, if_neg hc, ← hnone] at heq
    split_ifs at heq
    · exact hspace heq.symm
    · exact hquestion heq.symm

/-! ### The scanner on plain texts -/

variable {t w : Text} {x : Decimal}

theorem takeDigits_plain (t : Text) :
    Text.takeDigits Text.asciiDigit? (t.map plainChar) =
      (Text.takeDigits Text.digit? t).map id (List.map plainChar) := by
  induction t with
  | nil => rfl
  | cons c r ih =>
    rw [List.map_cons, Text.takeDigits, Text.takeDigits, asciiDigit?_plainChar, ih]
    cases Text.digit? c with
    | none => rfl
    | some d => rfl

theorem scanSign_plain (t : Text) :
    scanSign (t.map plainChar) = (scanSign t).map id (List.map plainChar) := by
  rcases t with - | ⟨c, r⟩
  · rfl
  · have hminus : plainChar c = '-' ↔ c = '-' := plainChar_eq_iff (by decide)
    have hplus : plainChar c = '+' ↔ c = '+' := plainChar_eq_iff (by decide)
    rw [List.map_cons, scanSign, scanSign]
    simp only [hminus, hplus]
    split_ifs <;> rfl

theorem after?_point_plain (t : Text) :
    Text.after? "." (t.map plainChar) = (Text.after? "." t).map (List.map plainChar) := by
  rcases t with - | ⟨c, r⟩
  · rfl
  · have hpoint : plainChar c = '.' ↔ c = '.' := plainChar_eq_iff (by decide)
    show (if ('.' : CodePoint) = plainChar c then some (r.map plainChar) else none) =
      (if ('.' : CodePoint) = c then some r else none).map (List.map plainChar)
    simp only [eq_comm (a := ('.' : CodePoint)), hpoint]
    split_ifs <;> rfl

theorem scanMantissa_plain (t : Text) :
    scanMantissa Text.asciiDigit? (t.map plainChar) =
      (scanMantissa Text.digit? t).map (Prod.map id (List.map plainChar)) := by
  unfold scanMantissa
  rw [takeDigits_plain]
  obtain ⟨whole, rest⟩ := Text.takeDigits Text.digit? t
  simp only [Prod.map_apply, id_eq, after?_point_plain]
  cases Text.after? "." rest with
  | none =>
    simp only [Option.map_none]
    split_ifs <;> rfl
  | some r =>
    simp only [Option.map_some, takeDigits_plain, Prod.map_fst, Prod.map_snd, id_eq]
    split_ifs <;> rfl

theorem exponent?_plain (t : Text) :
    exponent? Text.asciiDigit? (t.map plainChar) =
      (exponent? Text.digit? t).map (Prod.map id (List.map plainChar)) := by
  rcases t with - | ⟨c, r⟩
  · rfl
  · have hlower : plainChar c = 'e' ↔ c = 'e' := plainChar_eq_iff (by decide)
    have hupper : plainChar c = 'E' ↔ c = 'E' := plainChar_eq_iff (by decide)
    rw [List.map_cons, exponent?, exponent?]
    simp only [hlower, hupper, scanSign_plain]
    obtain ⟨negative, digits⟩ := scanSign r
    simp only [Prod.map_apply, id_eq, takeDigits_plain]
    obtain ⟨ds, rest⟩ := Text.takeDigits Text.digit? digits
    by_cases hletter : c = 'e' ∨ c = 'E'
    · rw [if_pos hletter, if_pos hletter]
      cases ds with
      | nil => rfl
      | cons d ds => rfl
    · rw [if_neg hletter, if_neg hletter]
      rfl

theorem scanExponent_plain (t : Text) :
    scanExponent Text.asciiDigit? (t.map plainChar) =
      (scanExponent Text.digit? t).map id (List.map plainChar) := by
  unfold scanExponent
  rw [exponent?_plain]
  cases exponent? Text.digit? t with
  | none => rfl
  | some found => rfl

/-- **A plain text has the decimal of the text that it was made of.** -/
theorem scan_plain (t : Text) :
    scan Text.asciiDigit? (t.map plainChar) =
      (scan Text.digit? t).map (Prod.map id (List.map plainChar)) := by
  unfold scan
  rw [scanSign_plain]
  obtain ⟨negative, unsigned⟩ := scanSign t
  simp only [Prod.map_apply, id_eq, scanMantissa_plain]
  cases scanMantissa Text.digit? unsigned with
  | none => rfl
  | some found =>
    obtain ⟨⟨whole, fraction⟩, rest⟩ := found
    simp only [Option.map_some, Prod.map_apply, id_eq, scanExponent_plain]
    rfl

/-! ### Whole numerals -/

/-- A digit or a mark: what decimal numerals are made of. -/
def IsFigure (c : CodePoint) : Prop := (Text.digit? c).isSome = true ∨ c ∈ marks

theorem SpellsDigits.isFigure {ds : List Nat} (h : SpellsDigits t ds) : ∀ c ∈ t, IsFigure c := by
  intro c hc
  have hmem : Text.digit? c ∈ ds.map some := h ▸ List.mem_map_of_mem hc
  obtain ⟨d, -, hd⟩ := List.mem_map.1 hmem
  exact .inl (by rw [← hd]; rfl)

theorem SpellsSign.isFigure {negative : Bool} (h : SpellsSign t negative) :
    ∀ c ∈ t, IsFigure c := by
  intro c hc
  right
  revert c
  cases h <;> decide

theorem SpellsMantissa.isFigure {whole fraction : List Nat} (h : SpellsMantissa t whole fraction) :
    ∀ c ∈ t, IsFigure c := by
  cases h with
  | whole h hne => exact h.isFigure
  | point hwhole hfraction hne =>
    have hpoint : IsFigure '.' := .inr (by decide)
    exact List.forall_mem_append.2
      ⟨hwhole.isFigure, List.forall_mem_cons.2 ⟨hpoint, hfraction.isFigure⟩⟩

theorem SpellsExponent.isFigure {exponent : Int} (h : SpellsExponent t exponent) :
    ∀ c ∈ t, IsFigure c := by
  cases h with
  | none => exact List.forall_mem_nil _
  | some hletter hsign h hne =>
    refine List.forall_mem_cons.2 ⟨.inr ?_, List.forall_mem_append.2 ⟨hsign.isFigure, h.isFigure⟩⟩
    rcases hletter with rfl | rfl <;> decide

theorem Spells.isFigure (h : Spells t x) : ∀ c ∈ t, IsFigure c := by
  obtain ⟨hsign, hmantissa, hexponent⟩ := h
  exact List.forall_mem_append.2
    ⟨hsign.isFigure, List.forall_mem_append.2 ⟨hmantissa.isFigure, hexponent.isFigure⟩⟩

/-- Made plain, a figure is neither a space nor an underscore. -/
theorem IsFigure.plainChar {c : CodePoint} (h : IsFigure c) :
    Text.isAsciiBlank (plainChar c) = false ∧ plainChar c ≠ '_' := by
  rcases h with h | h
  · rw [← asciiDigit?_plainChar] at h
    generalize Numeral.plainChar c = p at h
    obtain ⟨d, hd⟩ := Option.isSome_iff_exists.1 h
    have hrange := Text.asciiDigit?_eq_some_iff.1 hd
    constructor
    · by_contra hblank
      rw [Bool.not_eq_false] at hblank
      simp only [Text.isAsciiBlank, Bool.or_eq_true, Bool.and_eq_true, decide_eq_true_eq,
        beq_iff_eq] at hblank
      omega
    · rintro rfl
      exact absurd h (by decide)
  · rw [(plainChar_eq_iff h).2 rfl]
    revert c
    decide

theorem plain_of_isFigure (h : ∀ c ∈ t, IsFigure c) : plain t = t.map plainChar := by
  apply Text.strip_of_forall
  intro p hp
  obtain ⟨c, hc, rfl⟩ := List.mem_map.1 hp
  exact (h c hc).plainChar.1

theorem ungroup?_of_not_mem (h : ('_' : CodePoint) ∉ t) (behindDigit : Bool) :
    ungroup? behindDigit t = some t := by
  induction t generalizing behindDigit with
  | nil => rfl
  | cons c r ih =>
    simp only [List.mem_cons, not_or] at h
    rw [ungroup?, if_neg (Ne.symm h.1), ih h.2]
    rfl

/-- The names of numbers without digits begin with letters. -/
theorem named?_eq_none {c : CodePoint} (r : Text) (negative : Bool)
    (h : (Text.asciiDigit? c).isSome = true ∨ c = '.') : named? negative (c :: r) = none := by
  have hlt : c.toNat < 0x41 := by
    rcases h with h | rfl
    · obtain ⟨d, hd⟩ := Option.isSome_iff_exists.1 h
      have hrange := Text.asciiDigit?_eq_some_iff.1 hd
      omega
    · decide
  have hlower : c.toLower = c := by
    apply if_neg
    rintro ⟨hle, -⟩
    have hle : 0x41 ≤ c.toNat := hle
    omega
  have hfirst : ∀ letter : CodePoint, 0x41 ≤ letter.toNat →
      ((c :: r).map CodePoint.toLower).head? ≠ some letter := by
    intro letter hletter heq
    obtain rfl : c = letter := hlower.symm.trans (Option.some.inj heq)
    omega
  unfold named?
  simp only
  rw [if_neg, if_neg]
  · intro hname
    exact hfirst 'n' (by decide) (congrArg List.head? hname)
  · rintro (hname | hname)
    · exact hfirst 'i' (by decide) (congrArg List.head? hname)
    · exact hfirst 'i' (by decide) (congrArg List.head? hname)

/-- **A decimal numeral is read as the double of its decimal.** -/
theorem double?_of_spells (h : Spells w x) : double? w = some x.toDouble := by
  have hplain := plain_of_isFigure h.isFigure
  have hgroups : ('_' : CodePoint) ∉ w.map plainChar := by
    intro hmem
    obtain ⟨c, hc, heq⟩ := List.mem_map.1 hmem
    exact (h.isFigure c hc).plainChar.2 heq
  have hscan : scan Text.asciiDigit? (w.map plainChar) = some (x, []) := by
    rw [scan_plain, scan_of_spells h]
    rfl
  have hname : ∀ negative, named? negative (scanSign (w.map plainChar)).2 = none := by
    intro negative
    obtain ⟨hsign, hmantissa, hexponent⟩ := h
    rw [scanSign_plain, scanSign_of_spells hsign hmantissa]
    obtain ⟨c, r, rfl, hc⟩ := hmantissa.exists_head
    apply named?_eq_none
    rw [asciiDigit?_plainChar]
    exact hc.imp_right fun hpoint => (plainChar_eq_iff (by decide)).2 hpoint
  unfold double?
  rw [hplain, ungroup?_of_not_mem hgroups]
  simp only [Option.bind_eq_bind, Option.bind_some, hname, hscan]

theorem double?_infinity {s : Text} {negative : Bool} (h : SpellsSign s negative) :
    double? (s ++ Text.ofString "Infinity") = some (.infinity negative) := by
  cases h <;> decide +kernel

end Numeral

end FarmLink
