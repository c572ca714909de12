import FarmLink.Proofs.Text.Latin
import FarmLink.Proofs.Text.Numeral
import FarmLink.Proofs.Text.Trimming
import FarmLink.Spelling.Basic
import Mathlib.Data.List.Forall2

/-!
# Hex - which texts spell bytes in hex

Three things are dropped from a text before its pairs are read, the blanks around it, all spaces,
and one mark (`Hex.Leaves`). What is left must be pairs of digits with ASCII blanks between them
(`Hex.Spells`). Digits are no blanks, and a mark is not two of them, so they are all that is left of
a text in which they stand among spaces (`leaves_of_digits`): bytes are read back from every way of
writing their digits (`read?_of_writes`), `write` among them (`writes_write`).
-/

namespace FarmLink

namespace Hex

/-- The digits in the order of their values. -/
def lowerDigits : Text := "0123456789abcdef"

/-- The digits in upper case. -/
def upperDigits : Text := "0123456789ABCDEF"

/-- What may stand in front of the digits. -/
def marks : List Text := ["0x", "0X"]

/-- A digit in either case, and its value. -/
def IsDigit (c : CodePoint) (n : Nat) : Prop :=
  lowerDigits[n]? = some c ∨ upperDigits[n]? = some c

instance (c : CodePoint) (n : Nat) : Decidable (IsDigit c n) :=
  inferInstanceAs (Decidable (_ ∨ _))

/-- A text of digits, and their values. -/
def Digits (t : Text) (ns : List Nat) : Prop := List.Forall₂ IsDigit t ns

instance (t : Text) (ns : List Nat) : Decidable (Digits t ns) :=
  inferInstanceAs (Decidable (List.Forall₂ IsDigit t ns))

/-- The values of the two digits of a byte. -/
def nibbles (b : UInt8) : List Nat := [b.toNat / 16, b.toNat % 16]

/-- Pairs of digits with ASCII blanks between them, before them or behind them, and the bytes of the
pairs in order. -/
inductive Spells : Text → Bytes → Prop
  | nil {gap : Text} (hgap : ∀ c ∈ gap, Text.isAsciiBlank c = true) : Spells gap []
  | cons {gap pair rest : Text} {b : UInt8} {bs : Bytes}
    (hgap : ∀ c ∈ gap, Text.isAsciiBlank c = true) (hpair : Digits pair (nibbles b))
    (hrest : Spells rest bs) : Spells (gap ++ pair ++ rest) (b :: bs)

/-- A text without its spaces. -/
def unspaced (t : Text) : Text := t.filter fun c => c != ' '

/-- What is left of a text without the blanks around it, without spaces, and without one mark. -/
inductive Leaves (v : Text) : Text → Prop
  | marked {core mark u : Text} (hcore : Text.IsCore Text.isBlank core v) (hmark : mark ∈ marks)
    (h : unspaced core = mark ++ u) : Leaves v u
  | plain {core u : Text} (hcore : Text.IsCore Text.isBlank core v) (h : unspaced core = u)
    (hnone : ∀ mark ∈ marks, ¬ mark <+: u) : Leaves v u

/-- The digits of bytes in any case, with a mark or none, and with spaces anywhere. -/
def Writes (v : Text) (bs : Bytes) : Prop :=
  ∃ mark w, (mark = [] ∨ mark ∈ marks) ∧ Digits w (bs.flatMap nibbles) ∧ unspaced v = mark ++ w

variable {c : CodePoint} {n : Nat} {ns : List Nat} {t u v w mark : Text} {bs : Bytes}

/-! ### Digits -/

/-- The numbers of the characters that are hexadecimal digits. -/
theorem range_of_hexDigit? (h : Text.hexDigit? c = some n) :
    (0x30 ≤ c.toNat ∧ c.toNat ≤ 0x39) ∨ (0x61 ≤ c.toNat ∧ c.toNat ≤ 0x66) ∨
      (0x41 ≤ c.toNat ∧ c.toNat ≤ 0x46) := by
  unfold Text.hexDigit? at h
  split at h
  · next hc => exact .inl hc
  · split at h
    · next hc => exact .inr (.inl hc)
    · split at h
      · next hc => exact .inr (.inr hc)
      · cases h

theorem lt_of_isDigit (h : IsDigit c n) : n < 16 := by
  rcases h with h | h <;> exact (List.getElem?_eq_some_iff.1 h).1

theorem hexDigit?_eq_some_iff : Text.hexDigit? c = some n ↔ IsDigit c n := by
  constructor
  · intro h
    have hbyte : c.toNat < 256 := by
      have hrange := range_of_hexDigit? h
      omega
    -- the digits are ASCII, so it is enough to look at the characters numbered by bytes
    have hall : ∀ k < 256, ∀ n ∈ Text.hexDigit? (Text.ofByte (UInt8.ofNat k)),
        IsDigit (Text.ofByte (UInt8.ofNat k)) n := by decide +kernel
    have hc := hall c.toNat hbyte n
    rw [Text.ofByte_ofNat hbyte] at hc
    exact hc h
  · intro h
    have hlower : ∀ n < 16, ∀ c ∈ lowerDigits[n]?, Text.hexDigit? c = some n := by decide
    have hupper : ∀ n < 16, ∀ c ∈ upperDigits[n]?, Text.hexDigit? c = some n := by decide
    have hlt := lt_of_isDigit h
    exact h.elim (hlower n hlt c) (hupper n hlt c)

theorem IsDigit.isBlank (h : IsDigit c n) : Text.isBlank c = false := by
  have hrange := range_of_hexDigit? (hexDigit?_eq_some_iff.2 h)
  simp only [Text.isBlank, Bool.or_eq_false_iff, Bool.and_eq_false_iff, decide_eq_false_iff_not,
    beq_eq_false_iff_ne]
  omega

theorem IsDigit.isAsciiBlank (h : IsDigit c n) : Text.isAsciiBlank c = false := by
  have hrange := range_of_hexDigit? (hexDigit?_eq_some_iff.2 h)
  simp only [Text.isAsciiBlank, Bool.or_eq_false_iff, Bool.and_eq_false_iff,
    decide_eq_false_iff_not, beq_eq_false_iff_ne]
  omega

/-- A text of digits holds nothing else. -/
theorem Digits.exists_isDigit (h : Digits t ns) : ∀ c ∈ t, ∃ n, IsDigit c n := by
  intro c hc
  induction h with
  | nil => cases hc
  | cons hd _ ih =>
    rcases List.mem_cons.1 hc with rfl | hc
    · exact ⟨_, hd⟩
    · exact ih hc

theorem Digits.unspaced (h : Digits t ns) : unspaced t = t := by
  refine List.filter_eq_self.2 fun c hc => bne_iff_ne.2 ?_
  rintro rfl
  obtain ⟨n, hn⟩ := h.exists_isDigit _ hc
  cases hn.isBlank

/-! ### Pairs -/

theorem byte?_eq_some_iff {high low : CodePoint} {b : UInt8} :
    byte? high low = some b ↔ Digits [high, low] (nibbles b) := by
  constructor
  · intro h
    obtain ⟨x, hx, h⟩ := Option.bind_eq_some_iff.1 h
    obtain ⟨y, hy, h⟩ := Option.bind_eq_some_iff.1 h
    rw [hexDigit?_eq_some_iff] at hx hy
    have hxlt := lt_of_isDigit hx
    have hylt := lt_of_isDigit hy
    have hb : b.toNat = 16 * x + y := by
      rw [← Option.some.inj h, UInt8.toNat_ofNat', Nat.mod_eq_of_lt (by omega)]
    have hhigh : b.toNat / 16 = x := by omega
    have hlow : b.toNat % 16 = y := by omega
    unfold nibbles
    rw [hhigh, hlow]
    exact .cons hx (.cons hy .nil)
  · rintro (_ | ⟨hhigh, _ | ⟨hlow, -⟩⟩)
    unfold byte?
    rw [hexDigit?_eq_some_iff.2 hhigh, hexDigit?_eq_some_iff.2 hlow]
    change some (UInt8.ofNat (16 * (b.toNat / 16) + b.toNat % 16)) = some b
    rw [Nat.div_add_mod, UInt8.ofNat_toNat]

theorem pairs?_of_blank (hc : Text.isAsciiBlank c = true) (t : Text) :
    pairs? (c :: t) = pairs? t := by
  cases t <;> simp only [pairs?, hc, if_true]

theorem pairs?_append {gap : Text} (hgap : ∀ c ∈ gap, Text.isAsciiBlank c = true) (t : Text) :
    pairs? (gap ++ t) = pairs? t := by
  induction gap with
  | nil => rfl
  | cons c gap ih =>
    rw [List.forall_mem_cons] at hgap
    rw [List.cons_append, pairs?_of_blank hgap.1, ih hgap.2]

theorem pairs?_of_not_blank {high low : CodePoint} (hhigh : Text.isAsciiBlank high = false)
    (t : Text) :
    pairs? (high :: low :: t) = (byte? high low).bind fun b => (pairs? t).map (b :: ·) := by
  simp only [pairs?, hhigh, Bool.false_eq_true, if_false]
  cases pairs? t <;> rfl

theorem pairs?_of_spells (h : Spells u bs) : pairs? u = some bs := by
  induction h with
  | nil hgap =>
    have hblank := pairs?_append hgap []
    rwa [List.append_nil] at hblank
  | @cons gap pair rest b bs hgap hpair _ ih =>
    match pair, hpair with
    | [high, low], hpair =>
      obtain ⟨n, hn⟩ := hpair.exists_isDigit high List.mem_cons_self
      rw [List.append_assoc, pairs?_append hgap]
      change pairs? (high :: low :: rest) = some (b :: bs)
      rw [pairs?_of_not_blank hn.isAsciiBlank, byte?_eq_some_iff.2 hpair, ih]
      rfl

theorem Spells.blank (hc : Text.isAsciiBlank c = true) (h : Spells u bs) :
    Spells (c :: u) bs := by
  cases h with
  | nil hgap => exact .nil (List.forall_mem_cons.2 ⟨hc, hgap⟩)
  | cons hgap hpair hrest => exact .cons (List.forall_mem_cons.2 ⟨hc, hgap⟩) hpair hrest

/-- By induction on the text, as it is read: a blank goes to the next gap, and a pair has none in
front of it. -/
theorem spells_of_pairs? (h : pairs? u = some bs) : Spells u bs := by
  induction u using pairs?.induct generalizing bs with
  | case1 =>
    cases h
    exact .nil (List.forall_mem_nil _)
  | case2 c r hc ih =>
    rw [pairs?_of_blank hc] at h
    exact (ih h).blank hc
  | case3 c hc =>
    rw [pairs?, if_neg hc] at h
    cases h
  | case4 c hc d r ih =>
    rw [pairs?_of_not_blank (Bool.eq_false_iff.2 hc)] at h
    obtain ⟨b, hb, h⟩ := Option.bind_eq_some_iff.1 h
    obtain ⟨rest, hrest, rfl⟩ := Option.map_eq_some_iff.1 h
    exact .cons (List.forall_mem_nil _) (byte?_eq_some_iff.1 hb) (ih hrest)

/-- **The pairs that are read are those that are spelled.** -/
theorem pairs?_eq_some_iff : pairs? u = some bs ↔ Spells u bs :=
  ⟨spells_of_pairs?, pairs?_of_spells⟩

/-! ### What is left -/

theorem dropMark_append (hmark : mark ∈ marks) (u : Text) : dropMark (mark ++ u) = u := by
  rcases List.mem_cons.1 hmark with rfl | hmark
  · rfl
  · obtain rfl := List.mem_singleton.1 hmark
    rfl

theorem dropMark_of_not_isPrefix (h : ∀ mark ∈ marks, ¬ mark <+: u) : dropMark u = u := by
  match u with
  | [] | [_] => rfl
  | zero :: x :: r =>
    refine if_neg ?_
    rintro ⟨rfl, rfl | rfl⟩
    · exact h "0x" (by decide) ⟨r, rfl⟩
    · exact h "0X" (by decide) ⟨r, rfl⟩

theorem body_eq_iff : body v = u ↔ Leaves v u := by
  constructor
  · rintro rfl
    have hcore : Text.IsCore Text.isBlank (Text.strip Text.isBlank v) v := Text.strip_eq_iff.1 rfl
    by_cases h : ∃ mark ∈ marks, mark <+: unspaced (Text.strip Text.isBlank v)
    · obtain ⟨mark, hmark, u, hu⟩ := h
      have hbody : body v = u := by
        rw [body, ← unspaced, ← hu, dropMark_append hmark]
      exact .marked hcore hmark (hbody ▸ hu.symm)
    · have hnone : ∀ mark ∈ marks, ¬ mark <+: unspaced (Text.strip Text.isBlank v) :=
        fun mark hmark hp => h ⟨mark, hmark, hp⟩
      have hbody : body v = unspaced (Text.strip Text.isBlank v) := dropMark_of_not_isPrefix hnone
      exact .plain hcore hbody.symm (hbody ▸ hnone)
  · rintro (⟨hcore, hmark, h⟩ | ⟨hcore, rfl, hnone⟩)
    · rw [body, Text.strip_eq_iff.2 hcore, ← unspaced, h, dropMark_append hmark]
    · rw [body, Text.strip_eq_iff.2 hcore, ← unspaced, dropMark_of_not_isPrefix hnone]

/-- A mark holds a character that is no digit. -/
theorem Digits.not_isPrefix (h : Digits w ns) : ∀ mark ∈ marks, ¬ mark <+: w := by
  have hx : ∀ mark ∈ marks, ∃ c ∈ mark, Text.hexDigit? c = none := by decide
  intro mark hmark hfront
  obtain ⟨c, hc, hnone⟩ := hx mark hmark
  obtain ⟨n, hn⟩ := h.exists_isDigit c (hfront.subset hc)
  rw [hexDigit?_eq_some_iff.2 hn] at hnone
  cases hnone

theorem isBlank_of_mem_mark (hmark : mark = [] ∨ mark ∈ marks) :
    ∀ c ∈ mark, Text.isBlank c = false := by
  rcases hmark with rfl | hmark
  · exact List.forall_mem_nil _
  · revert mark
    decide

theorem unspaced_strip (h : ∀ c ∈ unspaced t, Text.isBlank c = false) :
    unspaced (Text.strip Text.isBlank t) = unspaced t := by
  obtain ⟨-, before, after, htext, hbefore, hafter⟩ :=
    (Text.strip_eq_iff (p := Text.isBlank) (t := t)).1 rfl
  -- of the blanks around only spaces can be there
  have hgone : ∀ {part : Text}, part ⊆ t → (∀ c ∈ part, Text.isBlank c = true) →
      unspaced part = [] := by
    intro part hsub hblank
    refine List.filter_eq_nil_iff.2 fun c hc hne => ?_
    have hnot := h c (List.mem_filter.2 ⟨hsub hc, hne⟩)
    rw [hblank c hc] at hnot
    cases hnot
  have hparts : unspaced t =
      unspaced before ++ unspaced (Text.strip Text.isBlank t) ++ unspaced after := by
    conv_lhs => rw [htext]
    unfold unspaced
    rw [List.filter_append, List.filter_append]
  have hfront : before ⊆ t := fun c hc =>
    htext ▸ List.mem_append_left _ (List.mem_append_left _ hc)
  have hback : after ⊆ t := fun c hc => htext ▸ List.mem_append_right _ hc
  rw [hparts, hgone hfront hbefore, hgone hback hafter, List.nil_append, List.append_nil]

/-- Of digits with spaces anywhere the digits are left. -/
theorem leaves_of_digits (hmark : mark = [] ∨ mark ∈ marks) (hw : Digits w ns)
    (h : unspaced t = mark ++ w) : Leaves t w := by
  have hcore : Text.IsCore Text.isBlank (Text.strip Text.isBlank t) t := Text.strip_eq_iff.1 rfl
  have hnone : ∀ c ∈ unspaced t, Text.isBlank c = false := by
    rw [h]
    refine List.forall_mem_append.2 ⟨isBlank_of_mem_mark hmark, fun c hc => ?_⟩
    obtain ⟨n, hn⟩ := hw.exists_isDigit c hc
    exact hn.isBlank
  rw [← unspaced_strip hnone] at h
  rcases hmark with rfl | hmark
  · exact .plain hcore h hw.not_isPrefix
  · exact .marked hcore hmark h

/-- By induction on the bytes: two digits for each, with no gap. -/
theorem Digits.spells (h : Digits w (bs.flatMap nibbles)) : Spells w bs := by
  induction bs generalizing w with
  | nil =>
    cases h
    exact .nil (List.forall_mem_nil _)
  | cons b bs ih =>
    rw [List.flatMap_cons] at h
    obtain _ | ⟨hhigh, _ | ⟨hlow, hrest⟩⟩ := h
    exact .cons (List.forall_mem_nil _) (.cons hhigh (.cons hlow .nil)) (ih hrest)

theorem read?_of_writes (h : Writes t bs) : read? t = some bs := by
  obtain ⟨mark, w, hmark, hw, ht⟩ := h
  unfold read?
  rw [body_eq_iff.2 (leaves_of_digits hmark hw ht), pairs?_eq_some_iff]
  exact hw.spells

/-! ### Writing -/

/-- A byte is written by its two digits. -/
theorem digits_ofNatHex (b : UInt8) : Digits (Text.ofNatHex 2 b.toNat) (nibbles b) := by
  obtain ⟨ds, -, hlt, hvalue, hlength, htext⟩ :=
    Text.exists_padded (show 1 < 16 by decide) 2 b.toNat
  have hlength := hlength (by decide) b.toNat_lt
  match ds, hlength with
  | [high, low], _ =>
    simp only [List.forall_mem_cons] at hlt
    obtain ⟨hhigh, hlow, -⟩ := hlt
    have hvalue : 16 * high + low = b.toNat := by simpa [Text.ofDigits] using hvalue
    have hdiv : b.toNat / 16 = high := by omega
    have hmod : b.toNat % 16 = low := by omega
    unfold Text.ofNatHex nibbles
    rw [htext, hdiv, hmod]
    exact .cons (hexDigit?_eq_some_iff.1 (Text.hexDigit?_digitChar _ hhigh))
      (.cons (hexDigit?_eq_some_iff.1 (Text.hexDigit?_digitChar _ hlow)) .nil)

/-- By induction on the bytes: the pair of the first one, then the pairs of the others. -/
theorem digits_write (bs : Bytes) : Digits (write bs) (bs.flatMap nibbles) := by
  induction bs with
  | nil => exact .nil
  | cons b bs ih => exact List.rel_append (digits_ofNatHex b) ih

theorem writes_write (bs : Bytes) : Writes (write bs) bs :=
  ⟨[], write bs, .inl rfl, digits_write bs, (digits_write bs).unspaced⟩

end Hex

namespace Encoding

open Hex

theorem readNamed_hex_eq_ok_iff {v : Text} {bs : Bytes} :
    readNamed "hex" v = .ok bs ↔ Hex.read? v = some bs := by
  change Encoding.hex.read v = .ok bs ↔ _
  unfold Encoding.read
  cases Hex.read? v with
  | none => exact iff_of_false nofun nofun
  | some bs' => rw [Except.ok.injEq, Option.some.injEq]

theorem readNamed_hex_of_writes {v : Text} {bs : Bytes} (h : Writes v bs) :
    readNamed "hex" v = .ok bs :=
  readNamed_hex_eq_ok_iff.2 (read?_of_writes h)

/-- **A text is read in hex exactly if it spells bytes.**  One text is left of it without the blanks
around, the spaces and the mark. If that is pairs of digits then the result is their bytes, and else
an error. So bytes are read back from every way of writing their digits. -/
theorem readNamed_hex_by_grammar (v : Text) :
    (∃ u, (∀ other, Leaves v other ↔ other = u) ∧
      (∀ bs, readNamed "hex" v = .ok bs ↔ Spells u bs) ∧
      ((¬ ∃ bs, Spells u bs) → ∃ e, readNamed "hex" v = .error e ∧ e.isInvalidValue = true)) ∧
    ∀ bs, Writes v bs → readNamed "hex" v = .ok bs := by
  have hspells : ∀ bs, readNamed "hex" v = .ok bs ↔ Spells (body v) bs := fun bs =>
    readNamed_hex_eq_ok_iff.trans pairs?_eq_some_iff
  refine ⟨⟨body v, fun other => ?_, hspells, fun hnone => ?_⟩,
    fun bs h => readNamed_hex_of_writes h⟩
  · rw [← body_eq_iff]
    exact eq_comm
  · refine exists_error_of_not_read ?_
    rintro ⟨bs, hbs⟩
    exact hnone ⟨bs, (hspells bs).1 hbs⟩

/-- Spaces in the mark and in a pair, and a pair that is torn by another blank. -/
theorem readNamed_hex_by_grammar_spaces :
    Writes "0 Xa 0 0F" [0xa0, 0x0f] ∧ readNamed "hex" "0 Xa 0 0F" = .ok [0xa0, 0x0f] ∧
    Leaves "0x1\t2" "1\t2" ∧ (¬ ∃ bs, Spells "1\t2" bs) ∧
    ∃ e, readNamed "hex" "0x1\t2" = .error e ∧ e.isInvalidValue = true := by
  have hwrites : Writes "0 Xa 0 0F" [0xa0, 0x0f] :=
    ⟨"0X", "a00F", .inr (by decide), by decide, by decide⟩
  have hleaves : Leaves "0x1\t2" "1\t2" := by
    have hcore : Text.IsCore Text.isBlank "0x1\t2" "0x1\t2" :=
      ⟨by decide, [], [], by decide, by decide, by decide⟩
    exact .marked hcore (by decide : ("0x" : Text) ∈ marks) (by decide)
  have hnone : ¬ ∃ bs, Spells "1\t2" bs := by
    rintro ⟨bs, h⟩
    have hread := pairs?_of_spells h
    cases (by decide : pairs? "1\t2" = none).symm.trans hread
  refine ⟨hwrites, (readNamed_hex_by_grammar _).2 _ hwrites, hleaves, hnone, ?_⟩
  obtain ⟨u, hu, -, herror⟩ := (readNamed_hex_by_grammar "0x1\t2").1
  obtain rfl := (hu _).1 hleaves
  exact herror hnone

end Encoding

end FarmLink
