import FarmLink.Proofs.Text.Joining
import Mathlib.Data.List.DropRight

/-!
# Trimming - what stripping leaves

Characters of a class in front of a text and behind it are stripped, whatever the text
(`strip_append`), other characters never (`mem_strip_iff`). A text that neither begins nor ends with
one of the class stays (`IsTrimmed.strip`), though it may hold some inside. Parts without them at
their ends are joined to texts without them.
-/

namespace FarmLink.Text

variable {p : CodePoint → Bool} {t before after : Text}

/-- A text that neither begins nor ends with a character of a class. -/
structure IsTrimmed (p : CodePoint → Bool) (t : Text) : Prop where
  first : ∀ c ∈ t.head?, p c = false
  last : ∀ c ∈ t.getLast?, p c = false

instance (p : CodePoint → Bool) (t : Text) : Decidable (IsTrimmed p t) :=
  decidable_of_iff ((∀ c ∈ t.head?, p c = false) ∧ ∀ c ∈ t.getLast?, p c = false)
    ⟨fun h => ⟨h.1, h.2⟩, fun h => ⟨h.first, h.last⟩⟩

theorem dropEndWhile_eq_rdropWhile (p : CodePoint → Bool) (t : Text) :
    dropEndWhile p t = t.rdropWhile p := rfl

theorem dropWhile_of_head? (h : ∀ c ∈ t.head?, p c = false) : t.dropWhile p = t := by
  cases t with
  | nil => rfl
  | cons c r => exact List.dropWhile_cons_of_neg (by simp [h c rfl])

theorem IsTrimmed.strip (h : IsTrimmed p t) : strip p t = t := by
  unfold Text.strip
  rw [dropWhile_of_head? h.first, dropEndWhile_eq_rdropWhile, List.rdropWhile_eq_self_iff]
  intro hne hlast
  rw [h.last _ (List.getLast?_eq_some_getLast hne)] at hlast
  cases hlast

/-- What is dropped at the end are characters of the class. -/
theorem exists_dropEndWhile_append (p : CodePoint → Bool) (t : Text) :
    ∃ dropped, t = dropEndWhile p t ++ dropped ∧ ∀ c ∈ dropped, p c = true :=
  ⟨t.rtakeWhile p, List.rdropWhile_append_rtakeWhile.symm, fun _ hc => List.mem_rtakeWhile_imp hc⟩

/-- **What is stripped makes no difference.** -/
theorem strip_append (hbefore : ∀ c ∈ before, p c = true) (hafter : ∀ c ∈ after, p c = true)
    (t : Text) : strip p (before ++ t ++ after) = strip p t := by
  unfold strip
  rw [List.append_assoc, List.dropWhile_append_of_pos hbefore, List.dropWhile_append]
  split
  · next hblank =>
    have hgone : after.dropWhile p = [] := List.dropWhile_eq_nil_iff.2 hafter
    rw [hgone, List.isEmpty_iff.1 hblank]
  · unfold dropEndWhile
    rw [List.reverse_append,
      List.dropWhile_append_of_pos fun c hc => hafter c (List.mem_reverse.1 hc)]

/-- What stays begins with the first character that is none of the class. -/
theorem exists_strip_append_cons {c : CodePoint} (hc : p c = false)
    (hbefore : ∀ c ∈ before, p c = true) (rest : Text) :
    ∃ kept, strip p (before ++ c :: rest) = c :: kept := by
  obtain ⟨dropped, htext, hdropped⟩ := exists_dropEndWhile_append p (c :: rest)
  have hstrip : strip p (before ++ c :: rest) = dropEndWhile p (c :: rest) := by
    unfold strip
    rw [List.dropWhile_append_of_pos hbefore, List.dropWhile_cons_of_neg (by simp [hc])]
  rw [hstrip]
  cases hkept : dropEndWhile p (c :: rest) with
  | nil =>
    rw [hkept, List.nil_append] at htext
    rw [hdropped c (htext ▸ List.mem_cons_self)] at hc
    cases hc
  | cons d kept =>
    rw [hkept, List.cons_append] at htext
    rw [(List.cons.inj htext).1]
    exact ⟨kept, rfl⟩

/-- What stays of a text when characters of a class are stripped: a part that is trimmed, with none
but such characters around it. -/
structure IsCore (p : CodePoint → Bool) (core t : Text) : Prop where
  trimmed : IsTrimmed p core
  around : ∃ before after : Text, t = before ++ core ++ after ∧ (∀ c ∈ before, p c = true) ∧
    ∀ c ∈ after, p c = true

theorem isTrimmed_strip (p : CodePoint → Bool) (t : Text) : IsTrimmed p (strip p t) := by
  constructor
  · intro c hc
    obtain ⟨r, hr⟩ := List.head?_eq_some_iff.1 hc
    obtain ⟨dropped, hdropped, -⟩ := exists_dropEndWhile_append p (t.dropWhile p)
    -- what is dropped behind leaves the first character as it is
    have hfirst : (t.dropWhile p).head? = some c := by
      rw [hdropped, ← strip, hr]
      rfl
    have hnot := List.head?_dropWhile_not p t
    rwa [hfirst] at hnot
  · intro c hc
    have hne : strip p t ≠ [] := by
      intro hnil
      rw [hnil] at hc
      cases hc
    rw [List.getLast?_eq_some_getLast hne] at hc
    cases hc
    exact Bool.eq_false_iff.2 (List.rdropWhile_last_not p _ hne)

/-- **Stripping leaves the core of a text.** -/
theorem strip_eq_iff {core : Text} : strip p t = core ↔ IsCore p core t := by
  constructor
  · rintro rfl
    obtain ⟨after, hafter, hp⟩ := exists_dropEndWhile_append p (t.dropWhile p)
    refine ⟨isTrimmed_strip p t, t.takeWhile p, after, ?_, fun c hc => List.mem_takeWhile_imp hc, hp⟩
    rw [List.append_assoc, strip, ← hafter, List.takeWhile_append_dropWhile]
  · rintro ⟨htrimmed, before, after, rfl, hbefore, hafter⟩
    rw [strip_append hbefore hafter, htrimmed.strip]

/-- A text without characters of a class stays. -/
theorem strip_of_forall (h : ∀ c ∈ t, p c = false) : strip p t = t :=
  IsTrimmed.strip ⟨fun c hc => h c (List.mem_of_head? hc), fun c hc => h c (List.mem_of_getLast? hc)⟩

/-! ### What stays -/

theorem mem_dropWhile_iff {c : CodePoint} (hc : p c = false) : c ∈ t.dropWhile p ↔ c ∈ t := by
  refine ⟨fun h => (List.dropWhile_sublist p).subset h, fun h => ?_⟩
  rw [← List.takeWhile_append_dropWhile (p := p) (l := t)] at h
  refine (List.mem_append.1 h).resolve_left fun hfront => ?_
  rw [List.mem_takeWhile_imp hfront] at hc
  cases hc

/-- What is not blank stays, at the end as well. -/
theorem mem_dropEndWhile_iff {c : CodePoint} (hc : p c = false) : c ∈ dropEndWhile p t ↔ c ∈ t := by
  rw [dropEndWhile, List.mem_reverse, mem_dropWhile_iff hc, List.mem_reverse]

theorem mem_strip_iff {c : CodePoint} (hc : p c = false) : c ∈ strip p t ↔ c ∈ t := by
  rw [strip, mem_dropEndWhile_iff hc, mem_dropWhile_iff hc]

/-! ### Joined parts -/

theorem last_join {sep : CodePoint} (hsep : p sep = false) :
    ∀ {ps : List Text}, (∀ q ∈ ps, ∀ c ∈ q.getLast?, p c = false) →
      ∀ c ∈ (join [sep] ps).getLast?, p c = false
  | [], _, c, hc => by cases hc
  | [q], h, c, hc => h q List.mem_cons_self c hc
  | q :: q' :: ps, h, c, hc => by
    rw [join_cons _ _ (List.cons_ne_nil q' ps), List.getLast?_append, Option.mem_def,
      Option.or_eq_some_iff] at hc
    rcases hc with hc | ⟨-, hc⟩
    · exact last_join hsep (fun r hr => h r (List.mem_cons_of_mem _ hr)) c hc
    · rw [List.getLast?_append, List.getLast?_singleton, Option.some_or] at hc
      cases hc
      exact hsep

theorem isTrimmed_join {sep : CodePoint} {q : Text} {ps : List Text} (hsep : p sep = false)
    (hne : q ≠ []) (h : ∀ r ∈ q :: ps, IsTrimmed p r) : IsTrimmed p (join [sep] (q :: ps)) := by
  refine ⟨?_, last_join hsep fun r hr => (h r hr).last⟩
  rcases q with - | ⟨c, q⟩
  · exact absurd rfl hne
  have hfirst : p c = false := (h _ List.mem_cons_self).first c rfl
  cases ps with
  | nil =>
    rintro _ ⟨⟩
    exact hfirst
  | cons r ps =>
    rintro _ ⟨⟩
    exact hfirst

/-! ### Introductions and last parts -/

/-- A text begins as it does in front of a character that the introduction lacks. -/
theorem after?_append_cons {start : Text} {c : CodePoint} (hc : c ∉ start) (t rest : Text) :
    after? start (t ++ c :: rest) = (after? start t).map (· ++ c :: rest) := by
  induction start generalizing t with
  | nil => rfl
  | cons s start ih =>
    rw [List.mem_cons, not_or] at hc
    cases t with
    | nil => exact if_neg (Ne.symm hc.1)
    | cons d t =>
      rw [List.cons_append, after?, after?]
      by_cases h : s = d
      · rw [if_pos h, if_pos h, ih hc.2]
      · rw [if_neg h, if_neg h]
        rfl

/-- What is put behind a text without the separator in it goes to the last part. -/
theorem exists_split_append (sep : CodePoint) (t : Text) :
    ∃ ps q, ∀ after : Text, sep ∉ after → split sep (t ++ after) = ps ++ [q ++ after] := by
  induction t with
  | nil => exact ⟨[], [], fun after hafter => split_of_not_mem hafter⟩
  | cons c t ih =>
    obtain ⟨ps, q, h⟩ := ih
    by_cases hc : c = sep
    · refine ⟨[] :: ps, q, fun after hafter => ?_⟩
      rw [List.cons_append, split, if_pos hc, h after hafter]
      rfl
    · cases ps with
      | nil =>
        refine ⟨[], c :: q, fun after hafter => ?_⟩
        rw [List.cons_append, split, if_neg hc, h after hafter]
        rfl
      | cons r ps =>
        refine ⟨(c :: r) :: ps, q, fun after hafter => ?_⟩
        rw [List.cons_append, split, if_neg hc, h after hafter]
        rfl

end FarmLink.Text
