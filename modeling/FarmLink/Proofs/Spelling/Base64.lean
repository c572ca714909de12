import FarmLink.Proofs.Binary.Bits
import FarmLink.Proofs.Sequence
import FarmLink.Proofs.Text.Digits
import FarmLink.Proofs.Text.Latin
import FarmLink.Proofs.Text.Trimming
import FarmLink.Spelling.Basic
import Mathlib.Data.List.Forall2

/-!
# Base64 - which texts spell bytes in base64

The digits of a text are one stream of bits, six for each, and the text spells the whole bytes at
its front (`Streams`); bits behind them do not count. Padding fills digits that are no whole groups
of four up to one (`Pads`). Nothing else is read (`read?_eq_some_iff`). The standard text of bytes
has the fewest digits that hold their bits, zeros behind these, and no padding beyond a group
(`Writes`). There is one such text, and it is what is written (`writes_iff`).
-/

namespace FarmLink

namespace Base64

/-- A digit of the standard alphabet, and its value. -/
def IsDigit (c : CodePoint) (n : Nat) : Prop := alphabet[n]? = some c

instance (c : CodePoint) (n : Nat) : Decidable (IsDigit c n) :=
  inferInstanceAs (Decidable (_ = _))

/-- A text of digits, and their values. -/
def Digits (t : Text) (ns : List Nat) : Prop := List.Forall₂ IsDigit t ns

/-- The bits of digits, six for each. -/
def stream (ns : List Nat) : List Bool := ns.flatMap (bitsOf 6)

/-- The whole bytes at the front of the stream of digits. -/
structure Streams (ns : List Nat) (bs : Bytes) : Prop where
  length : bs.length = 6 * ns.length / 8
  front : bs.flatMap byteBits <+: stream ns

/-- A number of padding characters that may stand behind a number of digits. One digit behind whole
groups is never enough for a byte; two or three are filled up to four; padding does not stand
alone. -/
structure Pads (digits padding : Nat) : Prop where
  enough : digits % 4 ≠ 1
  filled : digits % 4 = 2 ∨ digits % 4 = 3 → padding = 4 - digits % 4
  alone : digits = 0 → padding = 0

/-- A text of digits with padding behind them and blanks around, and the bytes of its digits. -/
inductive Spells (v : Text) (bs : Bytes) : Prop
  | mk {digits padding : Text} {ns : List Nat}
    (hcore : Text.IsCore Text.isBlank (digits ++ padding) v) (hdigits : Digits digits ns)
    (hpadding : ∀ c ∈ padding, c = '=') (hpads : Pads digits.length padding.length)
    (hbytes : Streams ns bs)

/-- The standard text of bytes: the digits of their bits, of which the last one is filled up with
zeros, and then padding up to a whole group of four. -/
inductive Writes : Text → Bytes → Prop
  | mk {digits padding : Text} {ns : List Nat} {fill : List Bool} {bs : Bytes}
    (hdigits : Digits digits ns) (hpadding : ∀ c ∈ padding, c = '=')
    (hbits : stream ns = bs.flatMap byteBits ++ fill) (hfill : ∀ bit ∈ fill, bit = false)
    (hfew : fill.length < 6) (hshort : padding.length < 4)
    (hgroups : (digits.length + padding.length) % 4 = 0) : Writes (digits ++ padding) bs

/-- The characters of a text that are digits. -/
def digitsOf (t : Text) : Text := t.filter fun c => alphabet.contains c

/-- A character that is neither a digit nor padding. -/
def HoldsForeign (t : Text) : Prop := ∃ c ∈ t, c ∉ alphabet ∧ c ≠ '='

/-- A digit somewhere behind padding. -/
def GoesOnBehindPadding (t : Text) : Prop :=
  ∃ front back, t = front ++ ('=' : CodePoint) :: back ∧ ∃ c ∈ back, c ∈ alphabet

variable {c : CodePoint} {n : Nat} {ns : List Nat} {t v w : Text} {bs : Bytes}

/-! ### Digits -/

theorem lt_of_isDigit (h : IsDigit c n) : n < 64 := (List.getElem?_eq_some_iff.1 h).1

theorem isDigit_digitChar (h : n < 64) : IsDigit (digitChar n) n := by
  have hlength : n < alphabet.length := h
  unfold IsDigit digitChar
  rw [List.getD_eq_getElem?_getD, List.getElem?_eq_getElem hlength, Option.getD_some]

theorem IsDigit.eq_digitChar (h : IsDigit c n) : c = digitChar n :=
  Option.some.inj (h.symm.trans (isDigit_digitChar (lt_of_isDigit h)))

/-- All digits are ASCII. -/
theorem toNat_lt_of_digit? (h : digit? c = some n) : c.toNat < 128 := by
  have below : ∀ {last : CodePoint}, last.toNat < 128 → c ≤ last → c.toNat < 128 :=
    fun hlast hc => Nat.lt_of_le_of_lt hc hlast
  unfold digit? at h
  split at h
  · next hc => exact below (by decide) hc.2
  · split at h
    · next hc => exact below (by decide) hc.2
    · split at h
      · next hc => exact below (by decide) hc.2
      · split at h
        · next hc => rw [hc]; decide
        · split at h
          · next hc => rw [hc]; decide
          · cases h

theorem digit?_eq_some_iff : digit? c = some n ↔ IsDigit c n := by
  constructor
  · intro h
    have hascii := toNat_lt_of_digit? h
    have hall : ∀ k < 128, ∀ n ∈ digit? (Text.ofByte (UInt8.ofNat k)),
        IsDigit (Text.ofByte (UInt8.ofNat k)) n := by decide +kernel
    have hc := hall c.toNat hascii n
    rw [Text.ofByte_ofNat (by omega)] at hc
    exact hc h
  · intro h
    rw [h.eq_digitChar]
    exact digit?_digitChar n (lt_of_isDigit h)

theorem digits_iff : Digits t ns ↔ t.map digit? = ns.map some := by
  unfold Digits
  rw [← List.forall₂_eq_eq_eq, List.forall₂_map_left_iff, List.forall₂_map_right_iff]
  simp only [digit?_eq_some_iff]

theorem Digits.length (h : Digits t ns) : t.length = ns.length := List.Forall₂.length_eq h

theorem Digits.lt (h : Digits t ns) : ∀ n ∈ ns, n < 64 := by
  intro n hn
  obtain ⟨c, -, hc⟩ := exists_mem_of_forall₂ (List.Forall₂.flip h) n hn
  exact lt_of_isDigit hc

theorem Digits.mem_alphabet (h : Digits t ns) : ∀ c ∈ t, c ∈ alphabet := by
  intro c hc
  obtain ⟨n, -, hn⟩ := exists_mem_of_forall₂ h c hc
  exact List.mem_of_getElem? hn

theorem isBlank_of_mem_alphabet : ∀ c ∈ alphabet, Text.isBlank c = false := by decide +kernel

theorem padding_not_mem_alphabet : ('=' : CodePoint) ∉ alphabet := by decide +kernel

/-- Digits with the same values are the same. -/
theorem Digits.unique {s : Text} (hs : Digits s ns) (ht : Digits t ns) : s = t := by
  have hsame : ∀ {s : Text}, Digits s ns → s = ns.map digitChar := by
    intro s hs
    rw [← List.forall₂_eq_eq_eq, List.forall₂_map_right_iff]
    exact hs.imp fun c n h => h.eq_digitChar
  rw [hsame hs, hsame ht]

/-- And digits have one value each. -/
theorem Digits.unique_values {ms : List Nat} (h : Digits t ns) (h' : Digits t ms) : ns = ms :=
  List.map_injective_iff.2 (fun _ _ => Option.some.inj)
    ((digits_iff.1 h).symm.trans (digits_iff.1 h'))

/-! ### Streams -/

theorem length_stream (ns : List Nat) : (stream ns).length = 6 * ns.length :=
  length_flatMap_rows (length_bitsOf 6) ns

theorem Streams.unique {cs : Bytes} (h : Streams ns bs) (h' : Streams ns cs) : bs = cs :=
  eq_of_flatMap_byteBits_prefix (h.length.trans h'.length.symm) h.front h'.front

/-- The stream tells the digits. -/
theorem stream_injective {ms : List Nat} (hns : ∀ n ∈ ns, n < 64) (hms : ∀ m ∈ ms, m < 64)
    (h : stream ns = stream ms) : ns = ms := by
  have hlength := congrArg List.length h
  rw [length_stream, length_stream] at hlength
  exact flatMap_injective (length_bitsOf 6)
    (fun n hn m hm => bitsOf_injective (hns n hn) (hms m hm)) (by omega) h

/-- Bytes make up a stream of digits, up to some bits behind them, if they make up its number. -/
theorem stream_eq_append (extra : Nat) (hns : ∀ n ∈ ns, n < 64)
    (hlength : 6 * ns.length = 8 * bs.length + extra)
    (hvalue : Text.ofDigits 64 ns / 2 ^ extra = Text.ofDigits 256 (bs.map UInt8.toNat)) :
    stream ns = bs.flatMap byteBits ++ bitsOf extra (Text.ofDigits 64 ns) := by
  have hstream : stream ns = bitsOf (6 * ns.length) (Text.ofDigits 64 ns) := flatMap_bitsOf hns
  rw [hstream, flatMap_byteBits, hlength, bitsOf_add, hvalue]

/-- The bytes of one group are its number without the bits to spare. -/
theorem value_bytesOf {extra : Nat} (h : ∀ n ∈ ns, n < 64) (hlow : 2 ≤ ns.length)
    (hhigh : ns.length ≤ 4) (hextra : 6 * ns.length % 8 = extra) :
    Text.ofDigits 64 ns / 2 ^ extra = Text.ofDigits 256 ((bytesOf ns).map UInt8.toNat) := by
  match ns, h with
  | [a, b], h | [a, b, c], h | [a, b, c, d], h =>
    subst hextra
    simp only [List.forall_mem_cons] at h
    simp only [Text.ofDigits, bytesOf, List.map_cons, List.map_nil, List.foldl_cons,
      List.foldl_nil, List.length_cons, List.length_nil, UInt8.toNat_ofNat', Nat.reduceAdd,
      Nat.reduceMul, Nat.reduceMod, Nat.reducePow]
    omega

/-- By induction on the groups of four digits, whose bits are those of three bytes. -/
theorem bytesOf_front (h : ∀ n ∈ ns, n < 64) : (bytesOf ns).flatMap byteBits <+: stream ns := by
  induction ns using bytesOf.induct with
  | case1 a b c d r ih =>
    have hgroup : ∀ n ∈ [a, b, c, d], n < 64 := fun n hn => h n (List.mem_append_left r hn)
    have hrest := ih fun n hn => h n (List.mem_append_right [a, b, c, d] hn)
    have hvalue := value_bytesOf hgroup (by simp) (by simp) (show 6 * 4 % 8 = 0 from rfl)
    have hstream : stream ([a, b, c, d] ++ r) = stream [a, b, c, d] ++ stream r :=
      List.flatMap_append
    have hbytes : bytesOf (a :: b :: c :: d :: r) = bytesOf [a, b, c, d] ++ bytesOf r := rfl
    rw [stream_eq_append 0 hgroup rfl hvalue, bitsOf, List.append_nil] at hstream
    change _ <+: stream ([a, b, c, d] ++ r)
    rw [hstream, hbytes, List.flatMap_append, List.prefix_append_right_inj]
    exact hrest
  | case2 a b c =>
    have hvalue := value_bytesOf h (by simp) (by simp) (show 6 * 3 % 8 = 2 from rfl)
    exact ⟨_, (stream_eq_append 2 h rfl hvalue).symm⟩
  | case3 a b =>
    have hvalue := value_bytesOf h (by simp) (by simp) (show 6 * 2 % 8 = 4 from rfl)
    exact ⟨_, (stream_eq_append 4 h rfl hvalue).symm⟩
  | case4 ns hfour hthree htwo =>
    rw [bytesOf.eq_4 ns hfour hthree htwo]
    exact List.nil_prefix

theorem length_bytesOf (ns : List Nat) : (bytesOf ns).length = 6 * ns.length / 8 := by
  induction ns using bytesOf.induct with
  | case1 a b c d r ih =>
    simp only [bytesOf, List.length_cons, ih]
    omega
  | case2 a b c => simp only [bytesOf, List.length_cons, List.length_nil, Nat.reduceAdd]
  | case3 a b => simp [bytesOf]
  | case4 ns hfour hthree htwo =>
    rw [bytesOf.eq_4 ns hfour hthree htwo]
    match ns with
    | [] | [_] => simp
    | [a, b] => exact absurd rfl (htwo a b)
    | [a, b, c] => exact absurd rfl (hthree a b c)
    | a :: b :: c :: d :: r => exact absurd rfl (hfour a b c d r)

theorem streams_bytesOf (h : ∀ n ∈ ns, n < 64) : Streams ns (bytesOf ns) :=
  ⟨length_bytesOf ns, bytesOf_front h⟩

/-! ### Reading -/

theorem digit?_of_padding (h : ∀ c ∈ t, c = '=') : ∀ c ∈ t.head?, digit? c = none := by
  intro c hc
  rw [h c (List.mem_of_head? hc)]
  decide

theorem mayPad_iff {digits padding : Nat} : mayPad digits padding = true ↔ Pads digits padding := by
  have hcases : digits % 4 = 0 ∨ digits % 4 = 1 ∨ digits % 4 = 2 ∨ digits % 4 = 3 := by omega
  unfold mayPad
  rcases hcases with h | h | h | h
  · simp only [h, Bool.or_eq_true, beq_iff_eq, bne_iff_ne]
    refine ⟨fun hpad => ⟨by omega, by omega, by omega⟩, fun hpads => ?_⟩
    have halone := hpads.alone
    omega
  · simp only [h, Bool.false_eq_true, false_iff]
    exact fun hpads => hpads.enough h
  · simp only [h, beq_iff_eq]
    refine ⟨fun hpad => ⟨by omega, by omega, by omega⟩, fun hpads => ?_⟩
    have hfilled := hpads.filled (.inl h)
    omega
  · simp only [h, beq_iff_eq]
    refine ⟨fun hpad => ⟨by omega, by omega, by omega⟩, fun hpads => ?_⟩
    have hfilled := hpads.filled (.inr h)
    omega

/-- **The bytes that are read are those that are spelled.** -/
theorem read?_eq_some_iff : read? v = some bs ↔ Spells v bs := by
  constructor
  · intro h
    unfold read? at h
    simp only at h
    split at h
    · next hpadding =>
      obtain ⟨hall, hpads⟩ := Bool.and_eq_true_iff.1 hpadding
      obtain ⟨digits, htext, hdigits⟩ :=
        Text.exists_run_of_takeDigits digit? (Text.strip Text.isBlank v)
      have hdigits := digits_iff.2 hdigits
      have hcore := Text.strip_eq_iff.1 htext
      have hpadding := fun c hc => beq_iff_eq.1 (List.all_eq_true.1 hall c hc)
      rw [← hdigits.length] at hpads
      cases h
      exact .mk hcore hdigits hpadding (mayPad_iff.1 hpads) (streams_bytesOf hdigits.lt)
    · cases h
  · rintro ⟨hcore, hdigits, hpadding, hpads, hbytes⟩
    unfold read?
    rw [Text.strip_eq_iff.2 hcore,
      Text.takeDigits_of_stop (digits_iff.1 hdigits) (digit?_of_padding hpadding)]
    simp only
    rw [hdigits.length] at hpads
    rw [mayPad_iff.2 hpads, List.all_eq_true.2 fun c hc => beq_iff_eq.2 (hpadding c hc)]
    exact congrArg some ((streams_bytesOf hdigits.lt).unique hbytes)

/-! ### What is not read -/

/-- The core of a text that spells bytes is digits and padding. -/
theorem Spells.exists_parts {core : Text} (h : Spells v bs)
    (hcore : Text.IsCore Text.isBlank core v) : ∃ digits padding, core = digits ++ padding ∧
      (∀ c ∈ digits, c ∈ alphabet) ∧ ∀ c ∈ padding, c = '=' := by
  obtain ⟨hown, hdigits, hpadding, -, -⟩ := h
  obtain rfl := (Text.strip_eq_iff.2 hown).symm.trans (Text.strip_eq_iff.2 hcore)
  exact ⟨_, _, rfl, hdigits.mem_alphabet, hpadding⟩

theorem Spells.not_holdsForeign {core : Text} (h : Spells v bs)
    (hcore : Text.IsCore Text.isBlank core v) : ¬ HoldsForeign core := by
  obtain ⟨digits, padding, rfl, hdigits, hpadding⟩ := h.exists_parts hcore
  rintro ⟨c, hc, hforeign, hne⟩
  rcases List.mem_append.1 hc with hc | hc
  · exact hforeign (hdigits c hc)
  · exact hne (hpadding c hc)

theorem Spells.not_goesOnBehindPadding {core : Text} (h : Spells v bs)
    (hcore : Text.IsCore Text.isBlank core v) : ¬ GoesOnBehindPadding core := by
  obtain ⟨digits, padding, rfl, hdigits, hpadding⟩ := h.exists_parts hcore
  rintro ⟨front, back, htext, c, hc, hdigit⟩
  have hnot : c ∉ padding := fun hmem => padding_not_mem_alphabet (hpadding c hmem ▸ hdigit)
  -- the first padding stands behind the digits, or among them
  rcases List.append_eq_append_iff.1 htext with ⟨more, -, rfl⟩ | ⟨more, rfl, hrest⟩
  · exact hnot (List.mem_append_right _ (List.mem_cons_of_mem _ hc))
  · cases more with
    | nil =>
      rw [List.nil_append] at hrest
      exact hnot (hrest ▸ List.mem_cons_of_mem _ hc)
    | cons d more =>
      obtain ⟨rfl, -⟩ := List.cons.inj hrest
      exact padding_not_mem_alphabet (hdigits _ (List.mem_append_right _ List.mem_cons_self))

theorem digitsOf_eq {digits padding : Text}
    (hcore : Text.IsCore Text.isBlank (digits ++ padding) v) (hdigits : Digits digits ns)
    (hpadding : ∀ c ∈ padding, c = '=') : digitsOf v = digits := by
  obtain ⟨-, before, after, rfl, hbefore, hafter⟩ := hcore
  have hkept : digitsOf digits = digits :=
    List.filter_eq_self.2 fun c hc => List.contains_iff_mem.2 (hdigits.mem_alphabet c hc)
  have hgone : ∀ {part : Text}, (∀ c ∈ part, c ∉ alphabet) → digitsOf part = [] := fun hpart =>
    List.filter_eq_nil_iff.2 fun c hc => mt List.contains_iff_mem.1 (hpart c hc)
  have hblank : ∀ {part : Text}, (∀ c ∈ part, Text.isBlank c = true) → digitsOf part = [] :=
    fun hpart => hgone fun c hc hmem => by
      cases (isBlank_of_mem_alphabet c hmem).symm.trans (hpart c hc)
  have hnone : digitsOf padding = [] := hgone fun c hc hmem =>
    padding_not_mem_alphabet (hpadding c hc ▸ hmem)
  have hparts : digitsOf (before ++ (digits ++ padding) ++ after) =
      digitsOf before ++ (digitsOf digits ++ digitsOf padding) ++ digitsOf after := by
    unfold digitsOf
    rw [List.filter_append, List.filter_append, List.filter_append]
  rw [hparts, hblank hbefore, hblank hafter, hkept, hnone, List.nil_append, List.append_nil,
    List.append_nil]

/-- Texts with the same digits spell the same bytes. -/
theorem Spells.eq_of_digitsOf {cs : Bytes} (hv : Spells v bs) (hw : Spells w cs)
    (h : digitsOf v = digitsOf w) : bs = cs := by
  obtain ⟨hcore, hdigits, hpadding, -, hbytes⟩ := hv
  obtain ⟨hcore', hdigits', hpadding', -, hbytes'⟩ := hw
  rw [digitsOf_eq hcore hdigits hpadding, digitsOf_eq hcore' hdigits' hpadding'] at h
  subst h
  obtain rfl := hdigits.unique_values hdigits'
  exact hbytes.unique hbytes'

/-! ### Writing -/

theorem isBlank_of_writes (h : Writes t bs) : ∀ c ∈ t, Text.isBlank c = false := by
  obtain ⟨hdigits, hpadding⟩ := h
  refine List.forall_mem_append.2 ⟨fun c hc => ?_, fun c hc => ?_⟩
  · exact isBlank_of_mem_alphabet c (hdigits.mem_alphabet c hc)
  · rw [hpadding c hc]
    decide

/-- The standard text of bytes spells them, whatever blanks stand around it. -/
theorem Writes.spells {before after : Text} (h : Writes t bs)
    (hbefore : ∀ c ∈ before, Text.isBlank c = true) (hafter : ∀ c ∈ after, Text.isBlank c = true) :
    Spells (before ++ t ++ after) bs := by
  have hblank := isBlank_of_writes h
  obtain ⟨hdigits, hpadding, hbits, -, hfew, hshort, hgroups⟩ := h
  have hlength := congrArg List.length hbits
  rw [length_stream, List.length_append, length_flatMap_byteBits] at hlength
  have hcount := hdigits.length
  have hcore := (Text.strip_append hbefore hafter _).trans (Text.strip_of_forall hblank)
  exact .mk (Text.strip_eq_iff.1 hcore) hdigits hpadding ⟨by omega, by omega, by omega⟩
    ⟨by omega, ⟨_, hbits.symm⟩⟩

/-- A group of digits in front of a standard text, for the bytes whose bits they have. -/
theorem Writes.cons {group : Text} {ms : List Nat} {front : Bytes} (hgroup : Digits group ms)
    (hbits : stream ms = front.flatMap byteBits) (hlength : group.length = 4) (h : Writes t bs) :
    Writes (group ++ t) (front ++ bs) := by
  obtain ⟨hdigits, hpadding, hrest, hfill, hfew, hshort, hgroups⟩ := h
  rw [← List.append_assoc]
  refine .mk (List.rel_append hgroup hdigits) hpadding ?_ hfill hfew hshort ?_
  · rw [stream, List.flatMap_append, ← stream, ← stream, hbits, hrest, List.flatMap_append,
      List.append_assoc]
  · rw [List.length_append]
    omega

theorem digits_digitChar (h : ∀ n ∈ ns, n < 64) : Digits (ns.map digitChar) ns := by
  unfold Digits
  rw [List.forall₂_map_left_iff, List.forall₂_same]
  exact fun n hn => isDigit_digitChar (h n hn)

/-- Digits that write the number of bytes and zeros behind it have the bits of both. -/
theorem stream_filled (extra : Nat) (hns : ∀ n ∈ ns, n < 64)
    (hlength : 6 * ns.length = 8 * bs.length + extra)
    (hvalue : Text.ofDigits 64 ns = 2 ^ extra * Text.ofDigits 256 (bs.map UInt8.toNat)) :
    ∃ fill, stream ns = bs.flatMap byteBits ++ fill ∧ fill.length = extra ∧
      ∀ bit ∈ fill, bit = false := by
  have hdiv : Text.ofDigits 64 ns / 2 ^ extra = Text.ofDigits 256 (bs.map UInt8.toNat) := by
    rw [hvalue, Nat.mul_div_cancel_left _ (Nat.two_pow_pos extra)]
  have hmod : Text.ofDigits 64 ns % 2 ^ extra = 0 := by rw [hvalue, Nat.mul_mod_right]
  exact ⟨_, stream_eq_append extra hns hlength hdiv, length_bitsOf _ _, bitsOf_of_mod_eq_zero hmod⟩

/-- By induction on the groups of three bytes; the digits of what is left over are filled up. -/
theorem writes_write (bs : Bytes) : Writes (write bs) bs := by
  induction bs using write.induct with
  | case1 a b c r ih =>
    have ha := a.toNat_lt
    have hb := b.toNat_lt
    have hc := c.toNat_lt
    have hlt : ∀ n ∈ [a.toNat / 4, a.toNat % 4 * 16 + b.toNat / 16,
        b.toNat % 16 * 4 + c.toNat / 64, c.toNat % 64], n < 64 := by
      simp only [List.forall_mem_cons]
      refine ⟨by omega, by omega, by omega, by omega, List.forall_mem_nil _⟩
    have hlength : 6 * 4 = 8 * [a, b, c].length + 0 := rfl
    obtain ⟨fill, hbits, hnone, -⟩ := stream_filled 0 hlt hlength (by
      simp only [Text.ofDigits, List.map_cons, List.map_nil, List.foldl_cons, List.foldl_nil]
      omega)
    rw [List.eq_nil_of_length_eq_zero hnone, List.append_nil] at hbits
    exact ih.cons (digits_digitChar hlt) hbits rfl
  | case2 a b =>
    have ha := a.toNat_lt
    have hb := b.toNat_lt
    have hlt : ∀ n ∈ [a.toNat / 4, a.toNat % 4 * 16 + b.toNat / 16, b.toNat % 16 * 4],
        n < 64 := by
      simp only [List.forall_mem_cons]
      refine ⟨by omega, by omega, by omega, List.forall_mem_nil _⟩
    have hlength : 6 * 3 = 8 * [a, b].length + 2 := rfl
    obtain ⟨fill, hbits, hfew, hfill⟩ := stream_filled 2 hlt hlength (by
      simp only [Text.ofDigits, List.map_cons, List.map_nil, List.foldl_cons, List.foldl_nil]
      omega)
    change Writes (List.map digitChar [_, _, _] ++ (['='] : Text)) [a, b]
    exact .mk (digits_digitChar hlt) (by decide) hbits hfill (by omega) (by decide) (by simp)
  | case3 a =>
    have ha := a.toNat_lt
    have hlt : ∀ n ∈ [a.toNat / 4, a.toNat % 4 * 16], n < 64 := by
      simp only [List.forall_mem_cons]
      refine ⟨by omega, by omega, List.forall_mem_nil _⟩
    have hlength : 6 * 2 = 8 * [a].length + 4 := rfl
    obtain ⟨fill, hbits, hfew, hfill⟩ := stream_filled 4 hlt hlength (by
      simp only [Text.ofDigits, List.map_cons, List.map_nil, List.foldl_cons, List.foldl_nil]
      omega)
    change Writes (List.map digitChar [_, _] ++ (['=', '='] : Text)) [a]
    exact .mk (digits_digitChar hlt) (by decide) hbits hfill (by omega) (by decide) (by simp)
  | case4 =>
    change Writes ([] ++ []) []
    exact .mk .nil (by decide) rfl (by decide) (by decide) (by decide) rfl

/-- The standard text of bytes is one. -/
theorem Writes.unique (ht : Writes t bs) (hw : Writes w bs) : t = w := by
  obtain @⟨digits, padding, ns, fill, _, hdigits, hpadding, hbits, hfill, hfew, hshort,
    hgroups⟩ := ht
  obtain @⟨digits', padding', ms, fill', _, hdigits', hpadding', hbits', hfill', hfew', hshort',
    hgroups'⟩ := hw
  have hlength := congrArg List.length hbits
  have hlength' := congrArg List.length hbits'
  rw [length_stream, List.length_append, length_flatMap_byteBits] at hlength hlength'
  -- as many digits are needed as bits, and as many zeros
  have hcount : ns.length = ms.length := by omega
  have hsameFill : fill = fill' := by
    rw [List.eq_replicate_of_mem hfill, List.eq_replicate_of_mem hfill']
    congr 1
    omega
  have hstream : stream ns = stream ms := by rw [hbits, hbits', hsameFill]
  obtain rfl := stream_injective hdigits.lt hdigits'.lt hstream
  obtain rfl := hdigits.unique hdigits'
  have hsamePadding : padding = padding' := by
    rw [List.eq_replicate_of_mem hpadding, List.eq_replicate_of_mem hpadding']
    congr 1
    omega
  rw [hsamePadding]

/-- **What is written is the standard text.** -/
theorem writes_iff : Writes t bs ↔ t = write bs :=
  ⟨fun h => h.unique (writes_write bs), fun h => h ▸ writes_write bs⟩

end Base64

namespace Encoding

open Base64

theorem readNamed_base64_eq_ok_iff {v : Text} {bs : Bytes} :
    readNamed "base64" v = .ok bs ↔ Spells v bs := by
  rw [← read?_eq_some_iff]
  change Encoding.base64.read v = .ok bs ↔ _
  unfold Encoding.read
  cases Base64.read? v with
  | none => exact iff_of_false nofun nofun
  | some bs' => rw [Except.ok.injEq, Option.some.injEq]

theorem exists_error_of_not_spells {v : Text} (h : ¬ ∃ bs, Spells v bs) :
    ∃ e, readNamed "base64" v = .error e ∧ e.isInvalidValue = true := by
  refine exists_error_of_not_read ?_
  rintro ⟨bs, hbs⟩
  exact h ⟨bs, readNamed_base64_eq_ok_iff.1 hbs⟩

/-- **Base64 is read by its grammar, and gives back what is written in it.**  The standard text of
bytes, blanks around it or not, is read as these bytes. A text is read exactly if it spells bytes,
and texts with the same digits never spell others. What spells nothing is an error, such as a text
with a foreign character, or one with digits behind padding. -/
theorem readNamed_base64_by_grammar :
    (∀ (bs : Bytes) (t : Text), (Writes t bs ↔ t = Base64.write bs) ∧
      (Writes t bs → ∀ before after : Text, (∀ c ∈ before, Text.isBlank c = true) →
        (∀ c ∈ after, Text.isBlank c = true) →
        readNamed "base64" (before ++ t ++ after) = .ok bs)) ∧
    (∀ (v : Text) (bs : Bytes), readNamed "base64" v = .ok bs ↔ Spells v bs) ∧
    (∀ (v w : Text) (bs cs : Bytes), readNamed "base64" v = .ok bs →
      readNamed "base64" w = .ok cs → digitsOf v = digitsOf w → bs = cs) ∧
    ∀ v core : Text, Text.IsCore Text.isBlank core v →
      HoldsForeign core ∨ GoesOnBehindPadding core ∨ (¬ ∃ bs, Spells v bs) →
      ∃ e, readNamed "base64" v = .error e ∧ e.isInvalidValue = true := by
  refine ⟨fun bs t => ⟨writes_iff, ?_⟩, fun v bs => readNamed_base64_eq_ok_iff, ?_, ?_⟩
  · intro hwrites before after hbefore hafter
    exact readNamed_base64_eq_ok_iff.2 (hwrites.spells hbefore hafter)
  · intro v w bs cs hv hw
    rw [readNamed_base64_eq_ok_iff] at hv hw
    exact hv.eq_of_digitsOf hw
  · intro v core hcore h
    refine exists_error_of_not_spells ?_
    rintro ⟨bs, hspells⟩
    rcases h with hforeign | hgoesOn | hnone
    · exact hspells.not_holdsForeign hcore hforeign
    · exact hspells.not_goesOnBehindPadding hcore hgoesOn
    · exact hnone ⟨bs, hspells⟩

/-- A standard text between blanks, one with bits to spare, whole groups with and without padding, a
digit of another alphabet, and two padded texts in a row. -/
theorem readNamed_base64_by_grammar_mixed :
    Writes "Zm8=" [0x66, 0x6F] ∧
    readNamed "base64" (" " ++ "Zm8=" ++ "\n" : Text) = .ok [0x66, 0x6F] ∧
    readNamed "base64" "Zm9=" = .ok [0x66, 0x6F] ∧ Spells "Zm9=" [0x66, 0x6F] ∧
    (∃ bs cs, readNamed "base64" "Zm9v" = .ok bs ∧ readNamed "base64" "Zm9v==" = .ok cs ∧
      digitsOf "Zm9v" = digitsOf "Zm9v==" ∧ bs = cs) ∧
    HoldsForeign "Zm_v" ∧ (∃ e, readNamed "base64" "Zm_v" = .error e ∧ e.isInvalidValue = true) ∧
    GoesOnBehindPadding "Zg==Zg==" ∧
    ∃ e, readNamed "base64" "Zg==Zg==" = .error e ∧ e.isInvalidValue = true := by
  obtain ⟨hstandard, hgrammar, hsame, herror⟩ := readNamed_base64_by_grammar
  have hwrites : Writes "Zm8=" [0x66, 0x6F] := ((hstandard _ _).1).2 (by decide +kernel)
  have hspare : readNamed "base64" "Zm9=" = .ok [0x66, 0x6F] := by decide +kernel
  have hplain : readNamed "base64" "Zm9v" = .ok [0x66, 0x6F, 0x6F] := by decide +kernel
  have hpadded : readNamed "base64" "Zm9v==" = .ok [0x66, 0x6F, 0x6F] := by decide +kernel
  have hdigits : digitsOf "Zm9v" = digitsOf "Zm9v==" := by decide +kernel
  have hforeign : HoldsForeign "Zm_v" := ⟨'_', by decide, by decide +kernel, by decide⟩
  have hgoesOn : GoesOnBehindPadding "Zg==Zg==" :=
    ⟨"Zg=", "Zg==", by decide, 'Z', by decide, by decide +kernel⟩
  exact ⟨hwrites, (hstandard _ _).2 hwrites " " "\n" (by decide) (by decide), hspare,
    (hgrammar _ _).1 hspare, ⟨_, _, hplain, hpadded, hdigits, hsame _ _ _ _ hplain hpadded hdigits⟩,
    hforeign, herror "Zm_v" "Zm_v" (Text.strip_eq_iff.1 (by decide)) (.inl hforeign), hgoesOn,
    herror "Zg==Zg==" "Zg==Zg==" (Text.strip_eq_iff.1 (by decide)) (.inr (.inl hgoesOn))⟩

end Encoding

end FarmLink
