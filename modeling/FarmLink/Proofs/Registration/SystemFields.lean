import FarmLink.Proofs.Text.Trimming
import FarmLink.Registration.SystemField

/-!
# SystemFields - parameters are read as they were written

A list of parameters is written with blanks around it and around each entry, behind its name or
without it, and an entry may leave out parts at its end. The list is stripped before the name is
looked for, and an entry before it is cut. Blanks behind the list belong to its last entry and may
as well stay (`listOfText_eq`), and the name belongs to the first entry (`listOfText_join`). So each
entry is read for itself, and the parameters come back as they were written
(`listOfText_recovers`).
-/

namespace FarmLink

open Text

/-- An entry as it can be written: a key, a name, and as many of unit, least and greatest value,
access and class as are given, with blanks around. -/
structure SystemEntry where
  key : Text
  name : Text
  more : List Text
  before : Text
  after : Text
  key_ne_nil : key ≠ []
  avoids : ∀ p ∈ key :: name :: more, p.Avoids ",:"
  trimmed : ∀ p ∈ key :: name :: more, p.IsTrimmed isBlank
  blank_before : ∀ c ∈ before, isBlank c = true
  blank_after : ∀ c ∈ after, isBlank c = true

namespace SystemEntry

def parts (e : SystemEntry) : List Text := e.key :: e.name :: e.more

/-- The text without the blanks around it. -/
def core (e : SystemEntry) : Text := join ":" e.parts

def text (e : SystemEntry) : Text := e.before ++ e.core ++ e.after

/-- The parameter of an entry. What is left out is empty, or no number. -/
def field (e : SystemEntry) : SystemField where
  key := e.key
  name := if e.name = [] then e.key else e.name
  unit := e.more[0]?.filter (· ≠ [])
  minValue := e.more[1]?.bind Token.number?
  maxValue := e.more[2]?.bind Token.number?
  writable := e.more[3]? = some (Text.ofString "w")
  stateClass := e.more[4]?.filter (· ≠ [])

variable (e : SystemEntry)

theorem not_mem_parts : ∀ p ∈ e.parts, (':' : CodePoint) ∉ p :=
  fun p hp => (e.avoids p hp).not_mem (by decide)

theorem isTrimmed_core : e.core.IsTrimmed isBlank :=
  isTrimmed_join rfl e.key_ne_nil e.trimmed

theorem comma_not_mem_core : (',' : CodePoint) ∉ e.core := by
  have hcore : e.core.Avoids "," :=
    avoids_join (by decide) fun p hp => (e.avoids p hp).mono (by decide)
  exact hcore.not_mem (by decide)

theorem comma_not_mem_text : (',' : CodePoint) ∉ e.text := by
  have hblank {t : Text} (ht : ∀ c ∈ t, isBlank c = true) : (',' : CodePoint) ∉ t :=
    fun hc => absurd (ht _ hc) (by decide)
  simp only [text, List.mem_append, not_or]
  exact ⟨⟨hblank e.blank_before, e.comma_not_mem_core⟩, hblank e.blank_after⟩

end SystemEntry

namespace SystemField

/-! ### Entries -/

theorem part_more (key name : Text) (more : List Text) (i : Nat) :
    part (key :: name :: more) (i + 2) = more[i]?.getD [] := by
  rw [part, List.getD_cons_succ, List.getD_cons_succ, List.getD_eq_getElem?_getD]

theorem nonempty?_getD (t : Option Text) : (t.getD []).nonempty? = t.filter (· ≠ []) := by
  cases t with
  | none => rfl
  | some t =>
    rw [Option.getD_some, nonempty?, Option.filter_some]
    by_cases h : t = []
    · simp [h]
    · simp [h]

theorem number?_getD (t : Option Text) : Token.number? (t.getD []) = t.bind Token.number? := by
  cases t with
  | none => rfl
  | some t => rfl

theorem getD_beq_writable (t : Option Text) :
    (t.getD [] == ofString "w") = decide (t = some (ofString "w")) := by
  cases t with
  | none => rfl
  | some t =>
    rw [Option.getD_some, Bool.eq_iff_iff, beq_iff_eq, decide_eq_true_eq, Option.some.injEq]

/-- **An entry is read as it was written**, whatever the blanks around it. -/
theorem ofEntry?_core (e : SystemEntry) {before after : Text}
    (hbefore : ∀ c ∈ before, isBlank c = true) (hafter : ∀ c ∈ after, isBlank c = true) :
    ofEntry? (before ++ e.core ++ after) = some e.field := by
  have hparts : split ':' e.core = e.parts :=
    split_join (List.cons_ne_nil _ _) e.not_mem_parts
  have hlong : ¬ (e.parts.length < 2 ∨ part e.parts 0 = []) := by
    rintro (h | h)
    · exact absurd h (by simp [SystemEntry.parts])
    · exact e.key_ne_nil h
  unfold ofEntry?
  simp only [strip_append hbefore hafter, e.isTrimmed_core.strip, hparts, if_neg hlong]
  simp only [SystemEntry.parts, part_more, nonempty?_getD, number?_getD, getD_beq_writable]
  rfl

theorem ofEntry?_text (e : SystemEntry) : ofEntry? e.text = some e.field :=
  ofEntry?_core e e.blank_before e.blank_after

/-- A text between commas that is no entry: it has one part only, or an empty key. -/
def IsNoEntry (t : Text) : Prop :=
  (':' : CodePoint) ∉ t ∨
    ∃ blanks rest, t = blanks ++ (':' : CodePoint) :: rest ∧ ∀ c ∈ blanks, isBlank c = true

theorem ofEntry?_of_isNoEntry {t : Text} (h : IsNoEntry t) : ofEntry? t = none := by
  unfold ofEntry?
  refine if_pos ?_
  rcases h with h | ⟨blanks, rest, rfl, hblanks⟩
  · left
    rw [split_of_not_mem fun hc => h ((mem_strip_iff rfl).1 hc)]
    exact Nat.one_lt_two
  · right
    obtain ⟨kept, hkept⟩ := exists_strip_append_cons (c := ':') rfl hblanks rest
    rw [hkept, split, if_pos rfl]
    rfl

/-- Blanks behind an entry make no difference. -/
theorem ofEntry?_append {after : Text} (hafter : ∀ c ∈ after, isBlank c = true) (t : Text) :
    ofEntry? (t ++ after) = ofEntry? t := by
  unfold ofEntry?
  rw [← List.nil_append (t ++ after), ← List.append_assoc,
    strip_append (List.forall_mem_nil _) hafter]

/-! ### Lists of entries -/

/-- A text without the blanks and the name in front. -/
def unintroduced (t : Text) : Text :=
  (after? "sys=" (t.dropWhile isBlank)).getD (t.dropWhile isBlank)

/-- **Blanks behind a list may stay.** -/
theorem listOfText_eq (t : Text) :
    listOfText t = (split ',' (unintroduced t)).filterMap ofEntry? := by
  obtain ⟨dropped, htext, hdropped⟩ := exists_dropEndWhile_append isBlank (t.dropWhile isBlank)
  have hbody : unintroduced t =
      (after? "sys=" (strip isBlank t)).getD (strip isBlank t) ++ dropped := by
    unfold unintroduced
    rw [htext]
    change (after? "sys=" (strip isBlank t ++ dropped)).getD (strip isBlank t ++ dropped) = _
    -- blanks are no part of the name, so it is found in front of them or not at all
    cases dropped with
    | nil => rw [List.append_nil, List.append_nil]
    | cons c dropped =>
      have hblank := hdropped c List.mem_cons_self
      have hname : ∀ c ∈ ofString "sys=", isBlank c = false := by decide
      have hc : c ∉ ofString "sys=" := by
        intro hmem
        rw [hname c hmem] at hblank
        cases hblank
      rw [after?_append_cons hc]
      cases after? "sys=" (strip isBlank t) with
      | none => rfl
      | some rest => rfl
  have hcomma : (',' : CodePoint) ∉ dropped := fun hc => absurd (hdropped _ hc) (by decide)
  obtain ⟨ps, q, hsplit⟩ :=
    exists_split_append ',' ((after? "sys=" (strip isBlank t)).getD (strip isBlank t))
  have hstripped := hsplit [] List.not_mem_nil
  rw [List.append_nil, List.append_nil] at hstripped
  rw [hbody, hsplit dropped hcomma, List.filterMap_append]
  unfold listOfText
  simp only [hstripped, List.filterMap_append, List.filterMap_cons, ofEntry?_append hdropped]

theorem subset_unintroduced (t : Text) : unintroduced t ⊆ t := by
  have hdrop : t.dropWhile isBlank ⊆ t := (List.dropWhile_sublist isBlank).subset
  unfold unintroduced
  cases hrest : after? "sys=" (t.dropWhile isBlank) with
  | none => exact hdrop
  | some rest =>
    rw [after?_eq_some_iff.1 hrest] at hdrop
    exact fun c hc => hdrop (List.mem_append_right _ hc)

/-- The name of the list stands in front of its first comma. -/
theorem unintroduced_append (first rest : Text) :
    unintroduced (first ++ (',' : CodePoint) :: rest) =
      unintroduced first ++ (',' : CodePoint) :: rest := by
  have hdrop : (first ++ (',' : CodePoint) :: rest).dropWhile isBlank =
      first.dropWhile isBlank ++ (',' : CodePoint) :: rest := by
    rw [List.dropWhile_append]
    split
    · next hblank =>
      rw [List.isEmpty_iff.1 hblank]
      rfl
    · rfl
  unfold unintroduced
  rw [hdrop, after?_append_cons (by decide)]
  cases after? "sys=" (first.dropWhile isBlank) with
  | none => rfl
  | some found => rfl

/-- **Each entry is read for itself**, the first one behind the name of the list. -/
theorem listOfText_join {first : Text} {rest : List Text}
    (h : ∀ t ∈ first :: rest, (',' : CodePoint) ∉ t) :
    listOfText (join "," (first :: rest)) =
      (unintroduced first :: rest).filterMap ofEntry? := by
  have hfirst : (',' : CodePoint) ∉ unintroduced first :=
    fun hc => h first List.mem_cons_self (subset_unintroduced first hc)
  rw [listOfText_eq]
  cases rest with
  | nil => rw [join, split_of_not_mem hfirst]
  | cons q rest =>
    have hrest : split ',' (join "," (q :: rest)) = q :: rest :=
      split_join (List.cons_ne_nil q rest) fun t ht => h t (List.mem_cons_of_mem first ht)
    rw [join_cons _ _ (List.cons_ne_nil q rest), List.append_assoc]
    change (split ',' (unintroduced (first ++ (',' : CodePoint) :: join "," (q :: rest)))).filterMap
      ofEntry? = _
    rw [unintroduced_append, split_append, split_of_not_mem hfirst, hrest, List.singleton_append]

/-- An entry whose key does not look like the name of the list keeps all but its blanks in front. -/
theorem unintroduced_text (e : SystemEntry) (h : ¬ ofString "sys=" <+: e.key) :
    unintroduced e.text = e.core ++ e.after := by
  obtain ⟨rest, hrest⟩ : ∃ rest, e.core ++ e.after = e.key ++ (':' : CodePoint) :: rest := by
    refine ⟨join ":" (e.name :: e.more) ++ e.after, ?_⟩
    unfold SystemEntry.core SystemEntry.parts
    rw [join_cons _ _ (List.cons_ne_nil _ _), List.append_assoc, List.append_assoc]
    rfl
  have hdrop : e.text.dropWhile isBlank = e.core ++ e.after := by
    unfold SystemEntry.text
    rw [List.append_assoc, List.dropWhile_append_of_pos e.blank_before]
    refine dropWhile_of_head? fun c hc => (e.trimmed e.key List.mem_cons_self).first c ?_
    rwa [hrest, List.head?_append_of_ne_nil _ e.key_ne_nil] at hc
  have hname : after? "sys=" e.key = none :=
    Option.eq_none_iff_forall_ne_some.2 fun rest hrest =>
      h ⟨rest, (after?_eq_some_iff.1 hrest).symm⟩
  unfold unintroduced
  rw [hdrop, hrest, after?_append_cons (by decide), hname]
  rfl

/-- Entries with commas between them, behind the name of the list or without it, and with blanks
around. -/
def listing (introduced : Bool) (before after : Text) (entries : List Text) : Text :=
  before ++ ((if introduced then ofString "sys=" else []) ++ join "," entries) ++ after

section Listing

variable {before after : Text} (introduced : Bool) (hbefore : ∀ c ∈ before, isBlank c = true)
  (hafter : ∀ c ∈ after, isBlank c = true)

include hbefore hafter

theorem listOfText_listing (entries : List Text) :
    listOfText (listing introduced before after entries) =
      listOfText ((if introduced then ofString "sys=" else []) ++ join "," entries) := by
  unfold listOfText listing
  rw [strip_append hbefore hafter]

theorem listOfText_listing_cons {first : Text} {rest : List Text}
    (h : ∀ t ∈ first :: rest, (',' : CodePoint) ∉ t) :
    listOfText (listing introduced before after (first :: rest)) =
      ((if introduced then first else unintroduced first) :: rest).filterMap ofEntry? := by
  rw [listOfText_listing introduced hbefore hafter]
  cases introduced with
  | false => exact listOfText_join h
  | true =>
    have hjoin : ofString "sys=" ++ join "," (first :: rest) =
        join "," ((ofString "sys=" ++ first) :: rest) := by
      cases rest with
      | nil => rfl
      | cons q rest => rfl
    have hcomma : ∀ t ∈ (ofString "sys=" ++ first) :: rest, (',' : CodePoint) ∉ t := by
      rw [List.forall_mem_cons] at h ⊢
      refine ⟨fun hc => ?_, h.2⟩
      rcases List.mem_append.1 hc with hc | hc
      · exact absurd hc (by decide)
      · exact h.1 hc
    rw [if_pos rfl, if_pos rfl, hjoin, listOfText_join hcomma]
    rfl

/-- **A list of parameters is read as it was written.**  Each entry gives its parameter, in order
and as often as it stands there, whatever the blanks around the list and around the entries. A list
without its name in front must not have a first key that looks like it. What is no entry changes
nothing, wherever it stands behind the first entry. -/
theorem listOfText_recovers (entries : List SystemEntry)
    (hfirst : introduced = false → ∀ e ∈ entries.head?, ¬ ofString "sys=" <+: e.key) :
    listOfText (listing introduced before after (entries.map SystemEntry.text)) =
      entries.map SystemEntry.field ∧
    ∀ (first : Text) (front : List Text) (bad : Text) (back : List Text),
      (∀ t ∈ first :: (front ++ bad :: back), (',' : CodePoint) ∉ t) → IsNoEntry bad →
      listOfText (listing introduced before after (first :: (front ++ bad :: back))) =
        listOfText (listing introduced before after (first :: (front ++ back))) := by
  constructor
  · cases entries with
    | nil =>
      rw [listOfText_listing introduced hbefore hafter]
      cases introduced <;> rfl
    | cons e entries =>
      have hcomma : ∀ t ∈ (e :: entries).map SystemEntry.text, (',' : CodePoint) ∉ t :=
        List.forall_mem_map.2 fun e _ => e.comma_not_mem_text
      have hfield :
          ofEntry? (if introduced then e.text else unintroduced e.text) = some e.field := by
        cases introduced with
        | true => exact ofEntry?_text e
        | false =>
          rw [if_neg Bool.false_ne_true, unintroduced_text e (hfirst rfl e rfl)]
          exact ofEntry?_core e (List.forall_mem_nil _) e.blank_after
      have hrest : (entries.map SystemEntry.text).filterMap ofEntry? =
          entries.map SystemEntry.field := by
        rw [List.filterMap_map, ← List.filterMap_eq_map]
        exact List.filterMap_congr fun e _ => ofEntry?_text e
      rw [List.map_cons] at hcomma ⊢
      rw [listOfText_listing_cons introduced hbefore hafter hcomma, List.filterMap_cons_some hfield,
        hrest, List.map_cons]
  · intro first front bad back hcomma hbad
    have hcomma' : ∀ t ∈ first :: (front ++ back), (',' : CodePoint) ∉ t := by
      rw [List.forall_mem_cons, List.forall_mem_append, List.forall_mem_cons] at hcomma
      exact List.forall_mem_cons.2
        ⟨hcomma.1, List.forall_mem_append.2 ⟨hcomma.2.1, hcomma.2.2.2⟩⟩
    rw [listOfText_listing_cons introduced hbefore hafter hcomma,
      listOfText_listing_cons introduced hbefore hafter hcomma']
    simp only [List.filterMap_cons, List.filterMap_append, ofEntry?_of_isNoEntry hbad]

end Listing

/-- A key with the unit, both bounds and the access, but no name, and no class. -/
def limitEntry : SystemEntry where
  key := "sy"
  name := []
  more := ["C", "-40", "85.5", "w"]
  before := "\u00A0"
  after := " "
  key_ne_nil := by decide
  avoids := by decide
  trimmed := by decide
  blank_before := by decide
  blank_after := by decide

/-- A key and a name, with a blank inside. -/
def labelEntry : SystemEntry where
  key := "at"
  name := "field 7"
  more := []
  before := []
  after := "\u3000"
  key_ne_nil := by decide
  avoids := by decide
  trimmed := by decide
  blank_before := by decide
  blank_after := by decide

theorem listOfText_recovers_omitted :
    listOfText "\n\u00A0sy::C:-40:85.5:w ,at:field 7\u3000\t" =
      [{ key := "sy", name := "sy", unit := some "C",
         minValue := some (.ofInt (-40)), maxValue := some (.ofBits 0x4055600000000000),
         writable := true },
       { key := "at", name := "field 7" }] ∧
    listOfText "\nsy:a, :b,at:c\t" = listOfText "\nsy:a,at:c\t" := by
  have hblank : ∀ c ∈ ofString "\n", isBlank c = true := by decide
  have hblank' : ∀ c ∈ ofString "\t", isBlank c = true := by decide
  have hkey : ∀ e ∈ [limitEntry, labelEntry].head?, ¬ ofString "sys=" <+: e.key := by
    rintro _ ⟨⟩
    decide
  obtain ⟨hread, hinsert⟩ :=
    listOfText_recovers false hblank hblank' [limitEntry, labelEntry] fun _ => hkey
  exact ⟨hread.trans (by decide +kernel),
    hinsert "sy:a" [] " :b" ["at:c"] (by decide) (.inr ⟨" ", "b", rfl, by decide⟩)⟩

end SystemField
end FarmLink
