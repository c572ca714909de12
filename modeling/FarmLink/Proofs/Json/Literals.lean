import FarmLink.Proofs.Json.Strings
import FarmLink.Proofs.Json.Writing
import FarmLink.Proofs.Numeral.ReadBack
import FarmLink.Proofs.Text.Joining

/-!
# Literals - what stands outside the texts of a document

Between its quotes a document may hold any text of a device; outside of them stand names, numbers
and marks (`outside`). The quotes that count are told from escaped ones by reading on from the
start. A document whose doubles are finite spells no double by name, so outside of its texts there
is no capital letter (`avoids_outside_write`), and nowhere in it there is the escape character by
which terminals are controlled (`not_mem_write`).
-/

namespace FarmLink.Json

/-- Where a reader stands: outside of texts, in one, or behind a backslash in one. -/
inductive Place
  | outside
  | literal
  | escape
deriving DecidableEq, Repr

/-- What stands outside of texts from a place on; the quotes themselves stay. -/
def outsideFrom : Place → Text → Text
  | _, [] => []
  | .outside, c :: r => c :: outsideFrom (if c = '"' then .literal else .outside) r
  | .literal, c :: r =>
    if c = '"' then c :: outsideFrom .outside r
    else outsideFrom (if c = '\\' then .escape else .literal) r
  | .escape, _ :: r => outsideFrom .literal r

/-- A document with all its texts emptied. -/
def outside (t : Text) : Text := outsideFrom .outside t

/-- The names by which doubles that are not finite are written. -/
def nonFiniteNames : List Text := ["NaN", "Infinity", "-Infinity"]

/-- Outside of its texts a document spells no double by name. -/
def NamesNoDouble (t : Text) : Prop := ∀ name ∈ nonFiniteNames, ¬ name <:+: outside t

/-- All those names have one of two capital letters. -/
theorem namesNoDouble_of_avoids {t : Text} (h : (outside t).Avoids "NI") : NamesNoDouble t := by
  have hletter : ∀ name ∈ nonFiniteNames, ∃ c ∈ name, c ∈ ("NI" : Text) := by decide
  intro name hname hwithin
  obtain ⟨c, hc, hcapital⟩ := hletter name hname
  exact h c (hwithin.subset hc) hcapital

/-! ### Outside of texts -/

theorem outside_append {t : Text} (h : ('"' : CodePoint) ∉ t) (rest : Text) :
    outside (t ++ rest) = t ++ outside rest := by
  induction t with
  | nil => rfl
  | cons c t ih =>
    rw [List.mem_cons, not_or] at h
    have hstep : outside (c :: (t ++ rest)) =
        c :: outsideFrom (if c = '"' then .literal else .outside) (t ++ rest) := rfl
    rw [List.cons_append, hstep, if_neg (Ne.symm h.1)]
    exact congrArg (c :: ·) (ih h.2)

/-! ### Inside of texts -/

theorem outsideFrom_literal_append {t : Text} (h : t.Avoids "\"\\") (rest : Text) :
    outsideFrom .literal (t ++ rest) = outsideFrom .literal rest := by
  induction t with
  | nil => rfl
  | cons c t ih =>
    obtain ⟨hc, ht⟩ := List.forall_mem_cons.1 h
    have hquote : c ≠ '"' := fun he => hc (he ▸ by decide)
    have hback : c ≠ '\\' := fun he => hc (he ▸ by decide)
    rw [List.cons_append, outsideFrom, if_neg hquote, if_neg hback]
    exact ih ht

/-- Hexadecimal digits are neither quotes nor controls. -/
theorem ofNatHex_avoids (width n : Nat) : (Text.ofNatHex width n).Avoids "\"\\\x1b" := by
  obtain ⟨ds, -, hlt, -, -, htext⟩ := Text.exists_padded (show 1 < 16 by decide) width n
  have hdigit : ∀ d < 16, CodePoint.ofChar (Nat.digitChar d) ∉ ("\"\\\x1b" : Text) := by decide
  rw [show Text.ofNatHex width n = Text.numerals ds from htext]
  intro c hc
  obtain ⟨d, hd, rfl⟩ := List.mem_map.1 hc
  exact hdigit d (hlt d hd)

theorem outsideFrom_unitEscape (n : Nat) (rest : Text) :
    outsideFrom .literal (unitEscape n ++ rest) = outsideFrom .literal rest :=
  outsideFrom_literal_append ((ofNatHex_avoids 4 n).mono (by decide)) rest

/-- An escaped quote does not end the text. -/
theorem outsideFrom_escapeChar (c : CodePoint) (rest : Text) :
    outsideFrom .literal (escapeChar c ++ rest) = outsideFrom .literal rest := by
  have hescapes := escapes_escapeChar c
  generalize escapeChar c = s at hescapes ⊢
  cases hescapes with
  | letter => rfl
  | plain hquote hback => rw [List.singleton_append, outsideFrom, if_neg hquote, if_neg hback]
  | units =>
    induction unitsOf c with
    | nil => rfl
    | cons n ns ih => rw [List.flatMap_cons, List.append_assoc, outsideFrom_unitEscape, ih]

/-- **A text is emptied up to its closing quote.** -/
theorem outside_writeText (t rest : Text) :
    outside (writeText t ++ rest) = "\"\"" ++ outside rest := by
  have hinside : outsideFrom .literal (t.flatMap escapeChar ++ ('"' : CodePoint) :: rest) =
      ('"' : CodePoint) :: outside rest := by
    induction t with
    | nil => rfl
    | cons c t ih => rw [List.flatMap_cons, List.append_assoc, outsideFrom_escapeChar, ih]
  rw [writeText_append]
  exact congrArg (('"' : CodePoint) :: ·) hinside

/-- An escaped quote and a name in a text, and a name outside. -/
example : outside "[\"\\\" NaN\", NaN]" = Text.ofString "[\"\", NaN]" := by decide +kernel

/-! ### Documents -/

/-- A text that puts no capital letter of a name outside of texts, and closes those it opens. -/
def IsBare (t : Text) : Prop :=
  ∀ rest, ∃ s : Text, outside (t ++ rest) = s ++ outside rest ∧ s.Avoids "NI"

theorem isBare_of_avoids {t : Text} (h : t.Avoids "\"NI") : IsBare t := fun rest =>
  ⟨t, outside_append (h.not_mem (by decide)) rest, h.mono (by decide)⟩

/-- Numbers are written with neither quotes nor capital letters. -/
theorem isBare_of_isNumeral {t : Text} (h : t.IsNumeral) : IsBare t :=
  isBare_of_avoids fun c hc =>
    (show Text.numeralChars.Avoids "\"NI" by decide) c (h c hc)

theorem piecewise_isBare : Piecewise IsBare where
  nil := isBare_of_avoids (by decide)
  append := by
    intro s t hs ht rest
    obtain ⟨a, ha, hfirst⟩ := hs (t ++ rest)
    obtain ⟨b, hb, hsecond⟩ := ht rest
    refine ⟨a ++ b, ?_, Text.avoids_append hfirst hsecond⟩
    rw [List.append_assoc, ha, hb, List.append_assoc]
  name t ht := isBare_of_avoids
    ((show ∀ t ∈ (["null", "true", "false"] : List Text), t.Avoids "\"NI" by decide) t ht)
  mark c hc := isBare_of_avoids
    ((show ∀ c ∈ (",:[]\x7b\x7d \n" : Text), Text.Avoids [c] "\"NI" by decide) c hc)
  int n := isBare_of_isNumeral (Text.isNumeral_ofInt n)
  text t rest := ⟨"\"\"", outside_writeText t rest, by decide⟩

/-- **Outside of its texts a document of finite doubles has no capital letter of a name.** -/
theorem avoids_outside_write (layout : Layout) {v : Value} (h : v.HasFiniteFloats) {rest : Text}
    (hrest : Text.Avoids rest "\"NI") : (outside (write layout 0 v ++ rest)).Avoids "NI" := by
  have hbare : IsBare (write layout 0 v) := piecewise_isBare.write layout 0 v fun x hx => by
    rw [Double.toTextWith_of_isFinite (h x hx)]
    exact isBare_of_isNumeral x.isNumeral_finiteText
  obtain ⟨s, hs, hdocument⟩ := piecewise_isBare.append hbare (isBare_of_avoids hrest) []
  rw [List.append_nil] at hs
  rw [hs]
  exact Text.avoids_append hdocument (by decide)

/-! ### The escape character -/

theorem escapeChar_avoids (c : CodePoint) : (escapeChar c).Avoids "\x1b" := by
  have hletter : ∀ e ∈ ("\"\\nrtbf" : Text), Text.Avoids [e] "\x1b" := by decide
  have hescapes := escapes_escapeChar c
  generalize escapeChar c = s at hescapes ⊢
  cases hescapes with
  | letter he _ =>
    exact Text.avoids_append (show Text.Avoids ['\\'] "\x1b" by decide) (hletter _ he)
  | plain _ _ hrange =>
    refine List.forall_mem_singleton.2 fun hescape => ?_
    rw [List.mem_singleton.1 hescape] at hrange
    exact absurd hrange (by decide)
  | units =>
    intro d hd
    obtain ⟨n, -, hd⟩ := List.mem_flatMap.1 hd
    exact Text.avoids_append (by decide) ((ofNatHex_avoids 4 n).mono (by decide)) d hd

theorem piecewise_avoids : Piecewise fun t => t.Avoids "\x1b" where
  nil := by decide
  append := Text.avoids_append
  name := by decide
  mark := by decide
  int n := fun c hc =>
    (show Text.numeralChars.Avoids "\x1b" by decide) c (Text.isNumeral_ofInt n c hc)
  text t := by
    refine Text.avoids_append (Text.avoids_append (by decide) fun c hc => ?_) (by decide)
    obtain ⟨d, -, hd⟩ := List.mem_flatMap.1 hc
    exact escapeChar_avoids d c hd

/-- **No document holds the escape character itself.** -/
theorem not_mem_write (layout : Layout) (v : Value) : ('\x1b' : CodePoint) ∉ write layout 0 v := by
  have havoids : (write layout 0 v).Avoids "\x1b" :=
    piecewise_avoids.write layout 0 v fun x _ => by
      unfold Double.toTextWith
      split
      · decide
      · split
        · split <;> decide
        · exact fun c hc =>
            (show Text.numeralChars.Avoids "\x1b" by decide) c (x.isNumeral_finiteText c hc)
  exact havoids.not_mem (by decide)

end FarmLink.Json
