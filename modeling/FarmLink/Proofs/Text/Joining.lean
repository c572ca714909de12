import FarmLink.Text.Basic

/-!
# Joining - texts put together and taken apart again

Writers join parts by a separator that stands in none of them (`Avoids`), and then `split` finds
the parts (`split_join`).
-/

namespace FarmLink.Text

/-! ### Parts between separators -/

theorem join_cons (sep p : Text) {ps : List Text} (h : ps ≠ []) :
    join sep (p :: ps) = p ++ sep ++ join sep ps := by
  cases ps with
  | nil => exact absurd rfl h
  | cons q ps => rfl

/-- **Splitting finds the parts that were joined.** -/
theorem split_join {sep : CodePoint} : ∀ {ps : List Text}, ps ≠ [] → (∀ p ∈ ps, sep ∉ p) →
    split sep (join [sep] ps) = ps
  | [], h, _ => absurd rfl h
  | [p], _, h => split_of_not_mem (h p List.mem_cons_self)
  | p :: q :: ps, _, h => by
    have hp : sep ∉ p := h p List.mem_cons_self
    have hrest : ∀ r ∈ q :: ps, sep ∉ r := fun r hr => h r (List.mem_cons_of_mem _ hr)
    rw [join_cons _ _ (List.cons_ne_nil q ps), List.append_assoc, List.singleton_append,
      split_append, split_of_not_mem hp, split_join (List.cons_ne_nil q ps) hrest]
    rfl

/-- Where the empty part counts for nothing, the parts found count for those that were joined; no
parts at all are joined to a text whose only part is empty. -/
theorem flatMap_split_join {α : Type} {sep : CodePoint} {ps : List Text} (f : Text → List α)
    (hempty : f [] = []) (h : ∀ p ∈ ps, sep ∉ p) :
    (split sep (join [sep] ps)).flatMap f = ps.flatMap f := by
  by_cases hps : ps = []
  · subst hps
    simp only [join, split, List.flatMap_cons, List.flatMap_nil, hempty, List.append_nil]
  · rw [split_join hps h]

/-- The first part ends at a separator or with the text. -/
theorem exists_split_append_tail {sep : CodePoint} {p tail : Text} (hp : sep ∉ p)
    (htail : ∀ c ∈ tail.head?, c = sep) : ∃ ps, split sep (p ++ tail) = p :: ps := by
  rcases tail with - | ⟨c, r⟩
  · exact ⟨[], by rw [List.append_nil, split_of_not_mem hp]⟩
  · obtain rfl : c = sep := htail c rfl
    exact ⟨split c r, by rw [split_append, split_of_not_mem hp, List.singleton_append]⟩

/-- Every text has a first part. -/
theorem exists_first_part (sep : CodePoint) (t : Text) :
    ∃ p tail, t = p ++ tail ∧ sep ∉ p ∧ ∀ c ∈ tail.head?, c = sep := by
  by_cases hmem : sep ∈ t
  · obtain ⟨p, r, rfl, hp⟩ := List.eq_append_cons_of_mem hmem
    refine ⟨p, sep :: r, rfl, hp, ?_⟩
    rintro _ ⟨⟩
    rfl
  · exact ⟨t, [], (List.append_nil t).symm, hmem, fun c hc => nomatch hc⟩

/-- What stands in a part stands in the text. -/
theorem subset_of_mem_split {sep : CodePoint} {t p : Text} (h : p ∈ split sep t) : p ⊆ t := by
  induction t generalizing p with
  | nil =>
    rw [split, List.mem_singleton] at h
    rw [h]
    exact List.Subset.refl []
  | cons c r ih =>
    by_cases hc : c = sep
    · rw [split, if_pos hc] at h
      rcases List.mem_cons.1 h with rfl | h
      · exact List.nil_subset _
      · exact List.subset_cons_of_subset c (ih h)
    · obtain ⟨q, ps, hr, hs⟩ := split_cons_of_ne hc r
      rw [hs] at h
      rcases List.mem_cons.1 h with rfl | h
      · exact List.cons_subset_cons c (ih (by rw [hr]; exact List.mem_cons_self))
      · exact List.subset_cons_of_subset c (ih (by rw [hr]; exact List.mem_cons_of_mem _ h))

/-- What stands in a joined text stands in the separator or in a part. -/
theorem mem_join {sep : Text} {c : CodePoint} : ∀ {ps : List Text}, c ∈ join sep ps →
    c ∈ sep ∨ ∃ p ∈ ps, c ∈ p
  | [], h => absurd h List.not_mem_nil
  | [p], h => .inr ⟨p, List.mem_cons_self, h⟩
  | p :: q :: ps, h => by
    rw [join_cons _ _ (List.cons_ne_nil q ps)] at h
    rcases List.mem_append.1 h with h | h
    · rcases List.mem_append.1 h with h | h
      · exact .inr ⟨p, List.mem_cons_self, h⟩
      · exact .inl h
    · rcases mem_join h with h | ⟨r, hr, hc⟩
      · exact .inl h
      · exact .inr ⟨r, List.mem_cons_of_mem _ hr, hc⟩

/-! ### Texts without separators -/

/-- None of the characters of a text is a separator. -/
def Avoids (t seps : Text) : Prop := ∀ c ∈ t, c ∉ seps

instance (t seps : Text) : Decidable (t.Avoids seps) :=
  inferInstanceAs (Decidable (∀ c ∈ t, c ∉ seps))

theorem Avoids.not_mem {t seps : Text} {c : CodePoint} (h : t.Avoids seps) (hc : c ∈ seps) :
    c ∉ t := fun hm => h c hm hc

theorem Avoids.mono {t seps fewer : Text} (h : t.Avoids seps) (hsub : ∀ c ∈ fewer, c ∈ seps) :
    t.Avoids fewer := fun c hc hs => h c hc (hsub c hs)

/-- Cutting adds nothing, and takes the separator away. -/
theorem avoids_of_mem_split {sep : CodePoint} {t p seps : Text} (ht : t.Avoids seps)
    (h : p ∈ split sep t) : p.Avoids (sep :: seps) := by
  intro c hc hcs
  rcases List.mem_cons.1 hcs with rfl | hcs
  · exact not_mem_of_mem_split h hc
  · exact ht c (subset_of_mem_split h hc) hcs

/-- A part that is not there is empty, so it avoids what all parts avoid. -/
theorem avoids_part {parts : List Text} {seps : Text} (h : ∀ p ∈ parts, p.Avoids seps) (i : Nat) :
    (part parts i).Avoids seps := by
  unfold part
  rw [List.getD_eq_getElem?_getD]
  cases hp : parts[i]? with
  | none => exact fun c hc => absurd hc List.not_mem_nil
  | some p => exact h p (List.mem_of_getElem? hp)

theorem avoids_append {a b seps : Text} (ha : a.Avoids seps) (hb : b.Avoids seps) :
    Avoids (a ++ b) seps := by
  intro c hc
  rcases List.mem_append.1 hc with hc | hc
  · exact ha c hc
  · exact hb c hc

theorem avoids_join {sep seps : Text} {ps : List Text} (hsep : sep.Avoids seps)
    (h : ∀ p ∈ ps, p.Avoids seps) : (join sep ps).Avoids seps := by
  intro c hc
  rcases mem_join hc with hc | ⟨p, hp, hc⟩
  · exact hsep c hc
  · exact h p hp c hc

end FarmLink.Text
