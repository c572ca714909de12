import FarmLink.Numeral.Shortest
import FarmLink.Proofs.Text.Latin
import FarmLink.Proofs.Text.Numeral
import FarmLink.Text.Utf8

/-!
# Ascii - texts that any output can hold

Numbers are written in ASCII, whatever their size and base, and so is what is put together from
them. An ASCII text has no surrogates, which are all that an output cannot hold, and stands in a
file with one byte for each character (`IsAscii.exists_file`). Decimal numbers are written with few
characters (`IsNumeral`), whole ones and finite doubles alike.
-/

namespace FarmLink

namespace Text

/-- A text of ASCII characters. -/
def IsAscii (t : Text) : Prop := ∀ c ∈ t, c.toNat < 0x80

instance (t : Text) : Decidable t.IsAscii := inferInstanceAs (Decidable (∀ c ∈ t, c.toNat < 0x80))

theorem IsAscii.isSurrogate_eq_false {t : Text} (h : t.IsAscii) :
    ∀ c ∈ t, c.isSurrogate = false := by
  intro c hc
  have hlt := h c hc
  simp only [CodePoint.isSurrogate, Bool.and_eq_false_iff, decide_eq_false_iff_not]
  omega

/-! ### Texts put together -/

section Parts

variable {s t : Text}

theorem isAscii_nil : IsAscii [] := fun _ hc => absurd hc List.not_mem_nil

theorem isAscii_append (hs : s.IsAscii) (ht : t.IsAscii) : IsAscii (s ++ t) := by
  intro c hc
  rcases List.mem_append.1 hc with hc | hc
  · exact hs c hc
  · exact ht c hc

theorem isAscii_cons {c : CodePoint} (hc : c.toNat < 0x80) (ht : t.IsAscii) : IsAscii (c :: t) := by
  intro d hd
  rcases List.mem_cons.1 hd with rfl | hd
  · exact hc
  · exact ht d hd

theorem isAscii_repeated (n : Nat) {c : CodePoint} (hc : c.toNat < 0x80) :
    (repeated n c).IsAscii := by
  intro d hd
  rw [List.eq_of_mem_replicate hd]
  exact hc

theorem isAscii_flatMap {f : CodePoint → Text} (h : ∀ c, (f c).IsAscii) (t : Text) :
    IsAscii (t.flatMap f) := by
  intro c hc
  obtain ⟨d, -, hd⟩ := List.mem_flatMap.1 hc
  exact h d c hd

end Parts

/-! ### Files -/

theorem utf8Chars?_ascii {bs : Bytes} (h : ∀ b ∈ bs, b.toNat < 0x80) :
    utf8Chars? bs.length bs = some (ofBytes bs) := by
  induction bs with
  | nil => rfl
  | cons b bs ih =>
    obtain ⟨hb, hbs⟩ := List.forall_mem_cons.1 h
    have hchar : utf8Char? (b :: bs) = some (ofByte b, bs) := if_pos hb
    have hstep : utf8Chars? (b :: bs).length (b :: bs) =
        (utf8Char? (b :: bs)).bind fun front =>
          (utf8Chars? bs.length front.2).bind fun t => some (front.1 :: t) := rfl
    rw [hstep, hchar, Option.bind_some, ih hbs]
    rfl

/-- **An ASCII text comes back from the file that has its characters for bytes.** -/
theorem IsAscii.exists_file {t : Text} (h : t.IsAscii) :
    ∃ bs, toBytes? t = some bs ∧ ofUtf8? bs = some t := by
  obtain ⟨bs, hbs, rfl⟩ := exists_toBytes? fun c hc => Nat.lt_trans (h c hc) (by decide)
  exact ⟨bs, hbs, utf8Chars?_ascii fun b hb => h (ofByte b) (List.mem_map_of_mem hb)⟩

/-! ### Numbers -/

theorem digitChar_lt : ∀ n < 16, (Nat.digitChar n).toNat < 0x80 := by decide

/-- Up to base sixteen there are digits for all values. -/
theorem isAscii_toDigits {base : Nat} (hone : 1 < base) (hbase : base ≤ 16) (n : Nat) :
    IsAscii ((Nat.toDigits base n).map CodePoint.ofChar) := by
  obtain ⟨ds, hds, htext⟩ := exists_writes hone n
  rw [htext]
  intro c hc
  obtain ⟨d, hd, rfl⟩ := List.mem_map.1 hc
  exact digitChar_lt d (Nat.lt_of_lt_of_le (hds.lt d hd) hbase)

theorem isAscii_ofNatHex (width n : Nat) : (ofNatHex width n).IsAscii :=
  isAscii_append (isAscii_repeated _ (by decide)) (isAscii_toDigits (by decide) (by decide) n)

/-! ### Decimal numbers -/

/-- The characters that decimal numbers are written with. -/
def numeralChars : Text := "+-.0123456789e"

/-- A text of nothing else. -/
def IsNumeral (t : Text) : Prop := ∀ c ∈ t, c ∈ numeralChars

instance (t : Text) : Decidable t.IsNumeral :=
  inferInstanceAs (Decidable (∀ c ∈ t, c ∈ numeralChars))

theorem IsNumeral.isAscii {t : Text} (h : t.IsNumeral) : t.IsAscii := fun c hc =>
  (show numeralChars.IsAscii by decide) c (h c hc)

theorem isNumeral_append {s t : Text} (hs : s.IsNumeral) (ht : t.IsNumeral) : IsNumeral (s ++ t) :=
  List.forall_mem_append.2 ⟨hs, ht⟩

theorem isNumeral_cons {c : CodePoint} {t : Text} (hc : c ∈ numeralChars) (ht : t.IsNumeral) :
    IsNumeral (c :: t) :=
  List.forall_mem_cons.2 ⟨hc, ht⟩

theorem isNumeral_zeros (n : Nat) : (repeated n '0').IsNumeral := by
  intro c hc
  rw [List.eq_of_mem_replicate hc]
  decide

theorem isNumeral_ofNat (n : Nat) : (ofNat n).IsNumeral := by
  obtain ⟨ds, hds, htext⟩ := exists_writes_ofNat n
  have hdigit : ∀ d < 10, CodePoint.ofChar (Nat.digitChar d) ∈ numeralChars := by decide
  rw [htext]
  intro c hc
  obtain ⟨d, hd, rfl⟩ := List.mem_map.1 hc
  exact hdigit d (hds.lt d hd)

theorem isNumeral_ofInt (n : Int) : (ofInt n).IsNumeral := by
  unfold ofInt
  split
  · exact isNumeral_cons (by decide) (isNumeral_ofNat _)
  · exact isNumeral_ofNat _

theorem isAscii_ofNat (n : Nat) : (ofNat n).IsAscii := (isNumeral_ofNat n).isAscii

theorem isAscii_ofInt (n : Int) : (ofInt n).IsAscii := (isNumeral_ofInt n).isAscii

end Text

namespace Decimal

theorem isNumeral_positional {digits : Text} (h : digits.IsNumeral) (place : Int) :
    (positional digits place).IsNumeral := by
  have hpoint : Text.IsNumeral "." := by decide
  have hzeros := Text.isNumeral_zeros
  unfold positional
  split
  · exact Text.isNumeral_append (Text.isNumeral_append (by decide) (hzeros _)) h
  · split
    · exact Text.isNumeral_append (Text.isNumeral_append h (hzeros _)) (by decide)
    · exact Text.isNumeral_append
        (Text.isNumeral_append (fun c hc => h c (List.mem_of_mem_take hc)) hpoint)
        fun c hc => h c (List.mem_of_mem_drop hc)

theorem isNumeral_scientific {digits : Text} (h : digits.IsNumeral) (exponent : Int) :
    (scientific digits exponent).IsNumeral := by
  have hsign : (Text.ofString (if exponent < 0 then "e-" else "e+")).IsNumeral := by
    split <;> decide
  have hend := fun n : Nat => Text.isNumeral_append
    (Text.isNumeral_zeros (2 - (Text.ofNat n).length)) (Text.isNumeral_ofNat n)
  unfold scientific
  simp only [List.append_assoc]
  refine Text.isNumeral_append ?_ (Text.isNumeral_append hsign (hend _))
  match digits, h with
  | [], _ => exact List.forall_mem_nil _
  | [_], h => exact h
  | d :: _ :: _, h =>
    exact Text.isNumeral_cons (h d List.mem_cons_self)
      (Text.isNumeral_cons (by decide) fun c hc => h c (List.mem_cons_of_mem _ hc))

theorem isNumeral_toText (x : Decimal) : x.toText.IsNumeral := by
  unfold toText
  simp only
  split
  · exact isNumeral_positional (Text.isNumeral_ofNat _) _
  · exact isNumeral_scientific (Text.isNumeral_ofNat _) _

end Decimal

theorem Double.isNumeral_finiteText (x : Double) : x.finiteText.IsNumeral := by
  have hsize : Text.IsNumeral (if x.isZero then "0.0" else (Decimal.shortest x).toText) := by
    split
    · decide
    · exact Decimal.isNumeral_toText _
  unfold finiteText
  simp only
  split
  · exact Text.isNumeral_cons (by decide) hsize
  · exact hsize

/-- A double is written in ASCII where the names of those without digits are. -/
theorem Double.isAscii_toTextWith {infinity nan : Text} (hinf : infinity.IsAscii)
    (hnan : nan.IsAscii) (x : Double) : (x.toTextWith infinity nan).IsAscii := by
  unfold toTextWith
  split
  · exact hnan
  · split
    · split
      · exact Text.isAscii_cons (by decide) hinf
      · exact hinf
    · exact x.isNumeral_finiteText.isAscii

end FarmLink
