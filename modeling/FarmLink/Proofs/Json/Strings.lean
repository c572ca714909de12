import FarmLink.Json.Reader
import FarmLink.Json.Writer
import FarmLink.Proofs.Text.Numeral
import Mathlib.Data.List.Chain

/-!
# Strings - texts between quotes

A text is written as sixteen-bit units: a character above those as the two surrogates that it is
made of. There are three ways in which a character can be written (`Escapes`), and the reader takes
each back as pieces that make up the character (`exists_pieces?_escapeChar`) and puts the surrogates
together again. A text in which a high surrogate stands in front of a low one is written as if one
character stood in their place (`flatMap_escapeChar_paired`) and comes back so; the others come back
as they are (`text?_escaped`). The reader gives a text with such a pair only where surrogates stand
in the document as they are, since it puts escapes together and leaves characters apart
(`unpaired_of_text?`).
-/

namespace FarmLink

/-! ### Surrogates side by side -/

/-- A character that is no surrogate is neither half of a pair. -/
theorem Json.not_arePair_of_plain {c : CodePoint} (h : c.isSurrogate = false) (n : Nat) :
    ¬ Json.ArePair c.toNat n ∧ ¬ Json.ArePair n c.toNat := by
  simp only [CodePoint.isSurrogate, Bool.and_eq_false_iff, decide_eq_false_iff_not] at h
  unfold Json.ArePair
  omega

namespace Text

/-- No high surrogate stands right in front of a low one. -/
def Unpaired (t : Text) : Prop := t.IsChain fun a b => ¬ Json.ArePair a.toNat b.toNat

/-- A text with one character in the place of each high surrogate in front of a low one. -/
def paired : Text → Text
  | [] => []
  | [a] => [a]
  | a :: b :: t =>
    if Json.ArePair a.toNat b.toNat then Json.pairChar a.toNat b.toNat :: paired t
    else a :: paired (b :: t)

theorem paired_of_unpaired {t : Text} (h : t.Unpaired) : t.paired = t := by
  induction t using paired.induct with
  | case1 | case2 => rfl
  | case3 a b t hpair _ => exact absurd hpair ((List.isChain_cons_cons.1 h).1)
  | case4 a b t hpair ih =>
    rw [paired, if_neg hpair, ih (List.isChain_cons_cons.1 h).2]

/-- A text without surrogates. -/
def IsPlain (t : Text) : Prop := ∀ c ∈ t, c.isSurrogate = false

instance (t : Text) : Decidable t.IsPlain :=
  inferInstanceAs (Decidable (∀ c ∈ t, c.isSurrogate = false))

theorem IsPlain.subset {s t : Text} (ht : t.IsPlain) (h : s ⊆ t) : s.IsPlain := fun c hc =>
  ht c (h hc)

/-- Where there are no surrogates there are no pairs of them. -/
theorem IsPlain.unpaired {t : Text} (h : t.IsPlain) : t.Unpaired := by
  induction t with
  | nil => exact .nil
  | cons c t ih =>
    have hc := Json.not_arePair_of_plain (h c List.mem_cons_self)
    exact List.isChain_cons.2 ⟨fun d _ => (hc d.toNat).1, ih (h.subset (List.subset_cons_self c t))⟩

end Text

namespace Json

/-! ### Units -/

/-- The sixteen-bit units of a character. -/
def unitsOf (c : CodePoint) : List Nat :=
  if c.toNat < 0x10000 then [c.toNat]
  else [0xD800 + (c.toNat - 0x10000) / 0x400, 0xDC00 + (c.toNat - 0x10000) % 0x400]

theorem ofNat_toNat (c : CodePoint) : CodePoint.ofNat c.toNat = c :=
  CodePoint.ext (CodePoint.toNat_ofNat c.toNat_lt)

theorem toNat_pairChar {a b : Nat} (h : ArePair a b) :
    (pairChar a b).toNat = 0x10000 + (a - 0xD800) * 0x400 + (b - 0xDC00) := by
  unfold ArePair at h
  exact CodePoint.toNat_ofNat (by omega)

/-- A pair numbers a character above the units. -/
theorem le_toNat_pairChar {a b : Nat} (h : ArePair a b) : 0x10000 ≤ (pairChar a b).toNat := by
  rw [toNat_pairChar h, Nat.add_assoc]
  exact Nat.le_add_right _ _

/-- What is above the units is neither half of a pair. -/
theorem not_arePair_of_le {a : Nat} (h : 0x10000 ≤ a) (b : Nat) :
    ¬ ArePair a b ∧ ¬ ArePair b a := by
  unfold ArePair
  omega

/-- A number beyond the code space is shown by a character that is no surrogate. -/
theorem arePair_of_ofNat {a b : Nat}
    (h : ArePair (CodePoint.ofNat a).toNat (CodePoint.ofNat b).toNat) : ArePair a b := by
  unfold CodePoint.ofNat at h
  split at h
  · split at h
    · exact h
    · exact absurd h.2.2.2 (by decide)
  · exact absurd h.2.1 (by decide)

/-! ### Pieces -/

theorem ofPieces_pair {a b : Nat} (h : ArePair a b) (ps : List Piece) :
    ofPieces (.unit a :: .unit b :: ps) = pairChar a b :: ofPieces ps := by
  rw [ofPieces]
  exact if_pos h

/-- A unit that makes no pair with what follows stands alone. -/
theorem ofPieces_unit {a : Nat} {ps : List Piece}
    (h : ∀ b, .unit b ∈ ps.head? → ¬ ArePair a b) :
    ofPieces (.unit a :: ps) = .ofNat a :: ofPieces ps := by
  cases ps with
  | nil => rfl
  | cons p ps =>
    cases p with
    | char c => rfl
    | unit b =>
      rw [ofPieces]
      exact if_neg (h b rfl)

/-- Pieces that make up a character: the character itself, or its units. -/
inductive MakesUp (c : CodePoint) : List Piece → Prop
  | char : MakesUp c [.char c]
  | units : MakesUp c ((unitsOf c).map .unit)

/-- Pieces in front of others make up their character, unless the two make a pair. -/
theorem MakesUp.ofPieces_append {c : CodePoint} {ps : List Piece} (h : MakesUp c ps)
    {rest : List Piece} (hrest : ∀ b, .unit b ∈ rest.head? → ¬ ArePair c.toNat b) :
    ofPieces (ps ++ rest) = c :: ofPieces rest := by
  cases h with
  | char => rfl
  | units =>
    have hlt := c.toNat_lt
    unfold unitsOf
    split
    · rw [List.map_singleton, List.singleton_append, ofPieces_unit hrest, ofNat_toNat]
    · have hpair : ArePair (0xD800 + (c.toNat - 0x10000) / 0x400)
          (0xDC00 + (c.toNat - 0x10000) % 0x400) := by
        unfold ArePair
        omega
      have hchar : pairChar (0xD800 + (c.toNat - 0x10000) / 0x400)
          (0xDC00 + (c.toNat - 0x10000) % 0x400) = c := by
        apply CodePoint.ext
        rw [toNat_pairChar hpair]
        omega
      rw [List.map_cons, List.map_singleton, List.cons_append, List.singleton_append,
        ofPieces_pair hpair, hchar]

/-- The first piece of a character makes a pair only where the character does. -/
theorem MakesUp.head {c : CodePoint} {ps : List Piece} (h : MakesUp c ps) {a : Nat}
    (hc : ¬ ArePair a c.toNat) (rest : List Piece) :
    ∀ b, .unit b ∈ (ps ++ rest).head? → ¬ ArePair a b := by
  have hlt := c.toNat_lt
  intro b hb hpair
  cases h with
  | char => cases hb
  | units =>
    unfold unitsOf at hb
    split at hb
    · cases hb
      exact hc hpair
    · cases hb
      unfold ArePair at hpair
      omega

/-- **Pieces that make up the characters of a text make it up**, if it has no pairs. -/
theorem ofPieces_flatten {t : Text} (ht : t.Unpaired) {pss : List (List Piece)}
    (h : List.Forall₂ MakesUp t pss) : ofPieces pss.flatten = t := by
  induction h with
  | nil => rfl
  | @cons c ps t pss hc hall ih =>
    obtain ⟨hnext, htail⟩ := List.isChain_cons.1 ht
    rw [List.flatten_cons, hc.ofPieces_append ?_, ih htail]
    cases hall with
    | nil =>
      rintro b ⟨⟩
    | cons hd _ => exact hd.head (hnext _ rfl) _

/-- A piece that is no surrogate standing as it is. -/
def Piece.IsPlain : Piece → Prop
  | .char c => c.isSurrogate = false
  | .unit _ => True

/-- The first character is that of the first piece, or one above the units. -/
theorem head_ofPieces {p : Piece} {ps : List Piece} {c : CodePoint}
    (h : c ∈ (ofPieces (p :: ps)).head?) :
    p = .char c ∨ ∃ a, p = .unit a ∧ (c = .ofNat a ∨ 0x10000 ≤ c.toNat) := by
  cases p with
  | char d =>
    cases h
    exact .inl rfl
  | unit a =>
    refine .inr ⟨a, rfl, ?_⟩
    by_cases hpair : ∃ b, .unit b ∈ ps.head? ∧ ArePair a b
    · obtain ⟨b, hb, hpair⟩ := hpair
      obtain ⟨rest, rfl⟩ : ∃ rest, ps = .unit b :: rest := List.head?_eq_some_iff.1 hb
      rw [ofPieces_pair hpair, List.head?_cons, Option.mem_some_iff] at h
      exact .inr (h ▸ le_toNat_pairChar hpair)
    · rw [ofPieces_unit fun b hb hab => hpair ⟨b, hb, hab⟩, List.head?_cons,
        Option.mem_some_iff] at h
      exact .inl h.symm

/-- **Escapes make no text with pairs of surrogates.** -/
theorem unpaired_ofPieces {ps : List Piece} (h : ∀ p ∈ ps, p.IsPlain) : (ofPieces ps).Unpaired := by
  induction ps using ofPieces.induct with
  | case1 => exact .nil
  | case2 c ps ih =>
    obtain ⟨hc, hps⟩ := List.forall_mem_cons.1 h
    exact List.isChain_cons.2 ⟨fun d _ => (not_arePair_of_plain hc d.toNat).1, ih hps⟩
  | case3 a b ps hpair ih =>
    rw [ofPieces_pair hpair]
    have hps := (List.forall_mem_cons.1 (List.forall_mem_cons.1 h).2).2
    have hchar := not_arePair_of_le (le_toNat_pairChar hpair)
    exact List.isChain_cons.2 ⟨fun c _ => (hchar c.toNat).1, ih hps⟩
  | case4 a b ps hpair ih =>
    rw [ofPieces, if_neg hpair]
    refine List.isChain_cons.2 ⟨fun c hc hac => ?_, ih (List.forall_mem_cons.1 h).2⟩
    rcases head_ofPieces hc with hchar | ⟨n, hunit, rfl | hlarge⟩
    · cases hchar
    · cases hunit
      exact hpair (arePair_of_ofNat hac)
    · exact (not_arePair_of_le hlarge _).2 hac
  | case5 a ps hunit ih =>
    have hps := (List.forall_mem_cons.1 h).2
    rw [ofPieces.eq_4 a ps hunit]
    refine List.isChain_cons.2 ⟨fun c hc => ?_, ih hps⟩
    cases ps with
    | nil => cases hc
    | cons p ps =>
      rcases head_ofPieces hc with rfl | ⟨n, rfl, -⟩
      · exact (not_arePair_of_plain (hps _ List.mem_cons_self) _).2
      · exact absurd rfl (hunit n ps)

/-! ### Escapes -/

/-- The ways in which a character is written between quotes: by a letter behind a backslash, as it
is, and by its units. -/
inductive Escapes (c : CodePoint) : Text → Prop
  | letter {e : CodePoint} (he : e ∈ ("\"\\nrtbf" : Text)) (hescape : escape? e = some c) :
      Escapes c [('\\' : CodePoint), e]
  | plain (hquote : c ≠ '"') (hback : c ≠ '\\') (hrange : 0x20 ≤ c.toNat ∧ c.toNat < 0x7F) :
      Escapes c [c]
  | units : Escapes c ((unitsOf c).flatMap unitEscape)

/-- **Every character is written in one of these ways.** -/
theorem escapes_escapeChar (c : CodePoint) : Escapes c (escapeChar c) := by
  unfold escapeChar
  simp only
  split_ifs with hquote hback hline hreturn htab hb hf hplain hshort
  · exact .letter (e := '"') (by decide) (by rw [hquote]; rfl)
  · exact .letter (e := '\\') (by decide) (by rw [hback]; rfl)
  · exact .letter (e := 'n') (by decide) (by rw [hline]; rfl)
  · exact .letter (e := 'r') (by decide) (by rw [hreturn]; rfl)
  · exact .letter (e := 't') (by decide) (by rw [htab]; rfl)
  · exact .letter (e := 'b') (by decide) (congrArg some (CodePoint.ext hb.symm))
  · exact .letter (e := 'f') (by decide) (congrArg some (CodePoint.ext hf.symm))
  · exact .plain hquote hback hplain
  · have hunits : unitsOf c = [c.toNat] := if_pos hshort
    have hescapes : Escapes c ((unitsOf c).flatMap unitEscape) := .units
    rwa [hunits, List.flatMap_singleton] at hescapes
  · have hunits : unitsOf c =
        [0xD800 + (c.toNat - 0x10000) / 0x400, 0xDC00 + (c.toNat - 0x10000) % 0x400] :=
      if_neg hshort
    have hescapes : Escapes c ((unitsOf c).flatMap unitEscape) := .units
    rwa [hunits, List.flatMap_cons, List.flatMap_singleton] at hescapes

theorem unitsOf_lt (c : CodePoint) : ∀ n ∈ unitsOf c, n < 0x10000 := by
  have hlt := c.toNat_lt
  unfold unitsOf
  split
  · next hshort => exact List.forall_mem_singleton.2 hshort
  · exact List.forall_mem_cons.2 ⟨by omega, List.forall_mem_singleton.2 (by omega)⟩

theorem push_some (p : Piece) (rest : Option (List Piece × Text)) :
    push (some p) rest = rest.map fun r => (p :: r.1, r.2) := by
  cases rest <;> rfl

/-- The four digits of a unit. -/
theorem exists_hexDigits {n : Nat} (h : n < 0x10000) :
    ∃ a b c d, Text.ofNatHex 4 n = [a, b, c, d] ∧ unit? a b c d = some n := by
  obtain ⟨ds, -, hlt, hvalue, hlength, htext⟩ := Text.exists_padded (show 1 < 16 by decide) 4 n
  have hlength := hlength (by decide) h
  match ds, hlength with
  | [a, b, c, d], _ =>
    simp only [List.forall_mem_cons] at hlt
    obtain ⟨ha, hb, hc, hd, -⟩ := hlt
    refine ⟨_, _, _, _, htext, ?_⟩
    unfold unit?
    simp only [List.mapM_cons, List.mapM_nil, Text.hexDigit?_digitChar _ ha,
      Text.hexDigit?_digitChar _ hb, Text.hexDigit?_digitChar _ hc, Text.hexDigit?_digitChar _ hd]
    exact congrArg some hvalue

theorem pieces?_unitEscape {n : Nat} (h : n < 0x10000) (r : Text) :
    pieces? (unitEscape n ++ r) = push (some (.unit n)) (pieces? r) := by
  obtain ⟨a, b, c, d, htext, hunit⟩ := exists_hexDigits h
  have hstep : unitEscape n ++ r =
      ('\\' : CodePoint) :: ('u' : CodePoint) :: a :: b :: c :: d :: r := by
    rw [unitEscape, htext]
    rfl
  rw [hstep, pieces?, if_neg (by decide), if_pos rfl]
  simp only [if_true]
  rw [hunit]
  rfl

theorem pieces?_flatMap_unitEscape {ns : List Nat} (h : ∀ n ∈ ns, n < 0x10000) (r : Text) :
    pieces? (ns.flatMap unitEscape ++ r) =
      (pieces? r).map fun p => (ns.map .unit ++ p.1, p.2) := by
  induction ns with
  | nil => exact (congrFun Option.map_id (pieces? r)).symm
  | cons n ns ih =>
    obtain ⟨hn, hns⟩ := List.forall_mem_cons.1 h
    rw [List.flatMap_cons, List.append_assoc, pieces?_unitEscape hn, ih hns, push_some,
      Option.map_map]
    rfl

/-- A letter behind a backslash. -/
theorem pieces?_letter {c e : CodePoint} (hu : e ≠ 'u') (he : escape? e = some c) (r : Text) :
    pieces? (('\\' : CodePoint) :: e :: r) = push (some (.char c)) (pieces? r) := by
  rw [pieces?.eq_def]
  simp only
  rw [if_neg (by decide), if_pos trivial, if_neg hu, he]
  rfl

/-- A character that stands for itself. -/
theorem pieces?_plain {c : CodePoint} (hquote : c ≠ '"') (hback : c ≠ '\\')
    (hraw : 0x20 ≤ c.toNat) (r : Text) : pieces? (c :: r) = push (some (.char c)) (pieces? r) := by
  rw [pieces?.eq_def]
  simp only
  rw [if_neg hquote, if_neg hback, if_neg (Nat.not_lt.2 hraw)]

/-- **The reader takes the escape of a character back as pieces that make it up.** -/
theorem exists_pieces?_escapeChar (c : CodePoint) : ∃ ps, MakesUp c ps ∧
    ∀ r, pieces? (escapeChar c ++ r) = (pieces? r).map fun p => (ps ++ p.1, p.2) := by
  have hletter : ∀ e ∈ ("\"\\nrtbf" : Text), e ≠ 'u' := by decide
  have hescapes := escapes_escapeChar c
  generalize escapeChar c = s at hescapes ⊢
  cases hescapes with
  | letter he hescape =>
    refine ⟨_, .char, fun r => ?_⟩
    exact (pieces?_letter (hletter _ he) hescape r).trans (push_some _ _)
  | plain hquote hback hrange =>
    refine ⟨_, .char, fun r => ?_⟩
    exact (pieces?_plain hquote hback hrange.1 r).trans (push_some _ _)
  | units => exact ⟨_, .units, pieces?_flatMap_unitEscape (unitsOf_lt c)⟩

/-! ### Texts -/

/-- The escapes of a text up to the closing quote. -/
theorem exists_pieces?_escaped (t : Text) : ∃ pss, List.Forall₂ MakesUp t pss ∧
    ∀ rest, pieces? (t.flatMap escapeChar ++ ('"' : CodePoint) :: rest) =
      some (pss.flatten, rest) := by
  induction t with
  | nil =>
    refine ⟨[], .nil, fun rest => ?_⟩
    rw [List.flatMap_nil, List.nil_append, pieces?.eq_def]
    exact if_pos rfl
  | cons c t ih =>
    obtain ⟨ps, hps, hchar⟩ := exists_pieces?_escapeChar c
    obtain ⟨pss, hall, htail⟩ := ih
    refine ⟨ps :: pss, .cons hps hall, fun rest => ?_⟩
    rw [List.flatMap_cons, List.append_assoc, hchar, htail]
    rfl

/-- **A written text is read back.** -/
theorem text?_escaped {t : Text} (h : t.Unpaired) (rest : Text) :
    text? (t.flatMap escapeChar ++ ('"' : CodePoint) :: rest) = some (t, rest) := by
  obtain ⟨pss, hall, hpieces⟩ := exists_pieces?_escaped t
  unfold text?
  rw [hpieces, Option.map_some]
  simp only
  rw [ofPieces_flatten h hall]

/-! ### Pairs in a written text -/

/-- A character beyond ASCII is written by its units. -/
theorem escapeChar_eq_units {c : CodePoint} (h : 0x80 ≤ c.toNat) :
    escapeChar c = (unitsOf c).flatMap unitEscape := by
  have hletter : ∀ e ∈ ("\"\\nrtbf" : Text), (escape? e).all (·.toNat < 0x80) = true := by decide
  have hescapes := escapes_escapeChar c
  generalize escapeChar c = s at hescapes ⊢
  cases hescapes with
  | letter he hescape =>
    have hlt := hletter _ he
    rw [hescape, Option.all_some, decide_eq_true_eq] at hlt
    omega
  | plain _ _ hrange => omega
  | units => rfl

theorem unitsOf_pairChar {a b : Nat} (h : ArePair a b) : unitsOf (pairChar a b) = [a, b] := by
  have hvalue := toNat_pairChar h
  unfold ArePair at h
  have hhigh : 0xD800 + ((pairChar a b).toNat - 0x10000) / 0x400 = a := by omega
  have hlow : 0xDC00 + ((pairChar a b).toNat - 0x10000) % 0x400 = b := by omega
  rw [unitsOf, if_neg (by omega), hhigh, hlow]

/-- A pair is written as the character that it numbers. -/
theorem escapeChar_pairChar {a b : CodePoint} (h : ArePair a.toNat b.toNat) :
    escapeChar (pairChar a.toNat b.toNat) = escapeChar a ++ escapeChar b := by
  have hvalue := toNat_pairChar h
  have hunits := unitsOf_pairChar h
  unfold ArePair at h
  rw [escapeChar_eq_units (by omega), escapeChar_eq_units (c := a) (by omega),
    escapeChar_eq_units (c := b) (by omega), hunits, unitsOf, if_pos (by omega), unitsOf,
    if_pos (by omega)]
  simp only [List.flatMap_cons, List.flatMap_nil, List.append_nil]

/-- **Whether pairs are put together does not show in a written text.** -/
theorem flatMap_escapeChar_paired (t : Text) :
    t.paired.flatMap escapeChar = t.flatMap escapeChar := by
  induction t using Text.paired.induct with
  | case1 | case2 => rfl
  | case3 a b t hpair ih =>
    rw [Text.paired, if_pos hpair]
    simp only [List.flatMap_cons, ih, escapeChar_pairChar hpair, List.append_assoc]
  | case4 a b t hpair ih =>
    rw [Text.paired, if_neg hpair, List.flatMap_cons, ih, ← List.flatMap_cons]

theorem head_paired {a c : CodePoint} {t : Text} (h : c ∈ (Text.paired (a :: t)).head?) :
    c = a ∨ 0x10000 ≤ c.toNat := by
  cases t with
  | nil =>
    cases h
    exact .inl rfl
  | cons b t =>
    rw [Text.paired] at h
    split at h
    · next hpair =>
      rw [List.head?_cons, Option.mem_some_iff] at h
      exact .inr (h ▸ le_toNat_pairChar hpair)
    · cases h
      exact .inl rfl

theorem unpaired_paired (t : Text) : t.paired.Unpaired := by
  induction t using Text.paired.induct with
  | case1 => exact .nil
  | case2 a => exact .singleton a
  | case3 a b t hpair ih =>
    rw [Text.paired, if_pos hpair]
    have hchar := not_arePair_of_le (le_toNat_pairChar hpair)
    exact List.isChain_cons.2 ⟨fun c _ => (hchar c.toNat).1, ih⟩
  | case4 a b t hpair ih =>
    rw [Text.paired, if_neg hpair]
    refine List.isChain_cons.2 ⟨fun c hc hac => ?_, ih⟩
    rcases head_paired hc with rfl | hlarge
    · exact hpair hac
    · exact (not_arePair_of_le hlarge _).2 hac

theorem writeText_append (t rest : Text) :
    writeText t ++ rest =
      ('"' : CodePoint) :: (t.flatMap escapeChar ++ ('"' : CodePoint) :: rest) := by
  have hquote : Text.ofString "\"" = [('"' : CodePoint)] := rfl
  rw [writeText, hquote, List.append_assoc, List.append_assoc]
  rfl

/-- The letters behind a backslash stand for no surrogates. -/
theorem isSurrogate_of_escape? {e c : CodePoint} (h : escape? e = some c) :
    c.isSurrogate = false := by
  unfold escape? at h
  split at h
  · next he =>
    cases h
    rcases he with rfl | rfl | rfl <;> rfl
  · split_ifs at h <;> cases h <;> rfl

/-- What is read leaves the end of the text, and pieces that are plain if the text is. -/
def LeavesPlain (t : Text) (ps : List Piece) (rest : Text) : Prop :=
  rest <:+ t ∧ (t.IsPlain → ∀ p ∈ ps, p.IsPlain)

/-- One more piece in front of others. -/
theorem leavesPlain_of_push {piece : Option Piece} {r t rest : Text} {ps : List Piece}
    (h : push piece (pieces? r) = some (ps, rest)) (hr : r <:+ t)
    (ih : ∀ {ps rest}, pieces? r = some (ps, rest) → LeavesPlain r ps rest)
    (hpiece : ∀ p, piece = some p → t.IsPlain → p.IsPlain) : LeavesPlain t ps rest := by
  unfold push at h
  obtain ⟨p, hp, h⟩ := Option.bind_eq_some_iff.1 h
  obtain ⟨⟨qs, s⟩, hqs, h⟩ := Option.bind_eq_some_iff.1 h
  cases h
  obtain ⟨hrest, hplain⟩ := ih hqs
  exact ⟨hrest.trans hr, fun ht => List.forall_mem_cons.2
    ⟨hpiece p hp ht, hplain (ht.subset hr.subset)⟩⟩

theorem leavesPlain_of_pieces? {t rest : Text} {ps : List Piece}
    (h : pieces? t = some (ps, rest)) : LeavesPlain t ps rest := by
  fun_induction pieces? t generalizing ps rest with
  | case1 | case3 | case5 => cases h
  | case2 r =>
    cases h
    exact ⟨List.suffix_cons _ _, fun _ => List.forall_mem_nil _⟩
  | case4 d1 d2 d3 d4 r _ ih =>
    refine leavesPlain_of_push h (List.suffix_append [_, _, d1, d2, d3, d4] r) ih ?_
    intro p hp _
    obtain ⟨n, -, rfl⟩ := Option.map_eq_some_iff.1 hp
    trivial
  | case6 e r _ _ ih =>
    refine leavesPlain_of_push h (List.suffix_append [_, e] r) ih ?_
    intro p hp _
    obtain ⟨c, hc, rfl⟩ := Option.map_eq_some_iff.1 hp
    exact isSurrogate_of_escape? hc
  | case7 c r _ _ ih =>
    refine leavesPlain_of_push h (List.suffix_cons c r) ih ?_
    intro p hp ht
    split at hp
    · cases hp
    · cases hp
      exact ht c List.mem_cons_self

/-- What is left of a text behind its closing quote is the end of what was there. -/
theorem suffix_of_text? {t s rest : Text} (h : text? t = some (s, rest)) : rest <:+ t := by
  obtain ⟨⟨ps, r⟩, hpieces, hpair⟩ := Option.map_eq_some_iff.1 h
  obtain ⟨-, rfl⟩ := Prod.mk.inj hpair
  exact (leavesPlain_of_pieces? hpieces).1

/-- **Where no surrogates stand in a document, its texts have no pairs of them.** -/
theorem unpaired_of_text? {t s rest : Text} (h : text? t = some (s, rest)) (ht : t.IsPlain) :
    s.Unpaired := by
  obtain ⟨⟨ps, r⟩, hpieces, hpair⟩ := Option.map_eq_some_iff.1 h
  obtain ⟨rfl, -⟩ := Prod.mk.inj hpair
  exact unpaired_ofPieces ((leavesPlain_of_pieces? hpieces).2 ht)

end Json

end FarmLink
