import FarmLink.Text.Basic

/-!
# Occurrence - where a text stands in another one

A separator may be of any length and overlap itself, so its first occurrence is told by a position
(`FirstAt`): it stands there, and nowhere further to the front. `cut?` cuts at that position and
fails only where the separator stands nowhere (`cut?_eq_some_iff_firstAt`, `cut?_eq_none_iff`);
for a single character the first occurrence is the one with none in front of it.
-/

namespace FarmLink.Text

/-- A separator occurs in a text at a position and at none in front of it. -/
structure FirstAt (sep t : Text) (i : Nat) : Prop where
  /-- It stands there. -/
  stands : sep <+: t.drop i
  /-- It stands nowhere before. -/
  none_before : ∀ j < i, ¬ sep <+: t.drop j

instance (sep t : Text) (i : Nat) : Decidable (FirstAt sep t i) :=
  decidable_of_iff (sep <+: t.drop i ∧ ∀ j < i, ¬ sep <+: t.drop j)
    ⟨fun h => ⟨h.1, h.2⟩, fun h => ⟨h.stands, h.none_before⟩⟩

theorem firstAt_zero {sep t : Text} : FirstAt sep t 0 ↔ sep <+: t := by
  constructor
  · intro h
    simpa only [List.drop_zero] using h.stands
  · intro h
    refine ⟨by rwa [List.drop_zero], fun j hj => absurd hj (Nat.not_lt_zero j)⟩

/-- Behind the first character of a text the positions count from the next one. -/
theorem firstAt_cons_succ {sep t : Text} {c : CodePoint} {i : Nat} :
    FirstAt sep (c :: t) (i + 1) ↔ ¬ sep <+: c :: t ∧ FirstAt sep t i := by
  constructor
  · intro h
    refine ⟨?_, by simpa only [List.drop_succ_cons] using h.stands, fun j hj => ?_⟩
    · simpa only [List.drop_zero] using h.none_before 0 (Nat.succ_pos i)
    · simpa only [List.drop_succ_cons] using h.none_before (j + 1) (Nat.succ_lt_succ hj)
  · rintro ⟨hhead, h⟩
    refine ⟨by simpa only [List.drop_succ_cons] using h.stands, fun j hj => ?_⟩
    cases j with
    | zero => simpa only [List.drop_zero] using hhead
    | succ j => simpa only [List.drop_succ_cons] using h.none_before j (Nat.lt_of_succ_lt_succ hj)

/-- What occurs first at two positions occurs first at one. -/
theorem FirstAt.unique {sep t : Text} {i j : Nat} (hi : FirstAt sep t i) (hj : FirstAt sep t j) :
    i = j := by
  rcases Nat.lt_trichotomy i j with hlt | heq | hgt
  · exact absurd hi.stands (hj.none_before i hlt)
  · exact heq
  · exact absurd hj.stands (hi.none_before j hgt)

theorem after?_eq_none_iff {start t : Text} : after? start t = none ↔ ¬ start <+: t := by
  rw [Option.eq_none_iff_forall_ne_some]
  constructor
  · rintro h ⟨rest, rfl⟩
    exact h rest (after?_eq_some_iff.2 rfl)
  · intro h rest hrest
    exact h ⟨rest, (after?_eq_some_iff.1 hrest).symm⟩

/-- **A cut is made at the first occurrence.** -/
theorem cut?_eq_some_iff_firstAt {sep t a b : Text} :
    cut? sep t = some (a, b) ↔ t = a ++ sep ++ b ∧ FirstAt sep t a.length := by
  induction t generalizing a with
  | nil =>
    by_cases hsep : sep = []
    · subst hsep
      simp only [cut?, if_true, Option.some.injEq, Prod.mk.injEq, List.append_nil]
      constructor
      · rintro ⟨rfl, rfl⟩
        exact ⟨rfl, firstAt_zero.2 List.nil_prefix⟩
      · rintro ⟨hab, -⟩
        obtain ⟨rfl, rfl⟩ := List.append_eq_nil_iff.1 hab.symm
        exact ⟨rfl, rfl⟩
    · simp only [cut?, if_neg hsep, List.nil_eq, List.append_eq_nil_iff]
      simp only [reduceCtorEq, false_iff]
      exact fun h => hsep h.1.1.2
  | cons c r ih =>
    cases hafter : after? sep (c :: r) with
    | some rest =>
      have hstart : c :: r = sep ++ rest := after?_eq_some_iff.1 hafter
      have hprefix : sep <+: c :: r := ⟨rest, hstart.symm⟩
      simp only [cut?, hafter, Option.some.injEq, Prod.mk.injEq]
      constructor
      · rintro ⟨rfl, rfl⟩
        exact ⟨hstart, firstAt_zero.2 hprefix⟩
      · rintro ⟨htext, hfirst⟩
        obtain rfl : a = [] :=
          List.length_eq_zero_iff.1 (hfirst.unique (firstAt_zero.2 hprefix))
        exact ⟨rfl, List.append_cancel_left (hstart.symm.trans htext)⟩
    | none =>
      have hnot : ¬ sep <+: c :: r := after?_eq_none_iff.1 hafter
      simp only [cut?, hafter, Option.map_eq_some_iff, Prod.exists, Prod.mk.injEq]
      constructor
      · rintro ⟨front, back, hcut, rfl, rfl⟩
        obtain ⟨htext, hfirst⟩ := ih.1 hcut
        exact ⟨congrArg (c :: ·) htext, firstAt_cons_succ.2 ⟨hnot, hfirst⟩⟩
      · rintro ⟨htext, hfirst⟩
        cases a with
        | nil => exact absurd (firstAt_zero.1 hfirst) hnot
        | cons d front =>
          obtain ⟨rfl, hr⟩ := List.cons.inj htext
          exact ⟨front, b, ih.2 ⟨hr, (firstAt_cons_succ.1 hfirst).2⟩, rfl, rfl⟩

/-- **No cut is made where the separator stands nowhere.** -/
theorem cut?_eq_none_iff_nowhere {sep t : Text} : cut? sep t = none ↔ ¬ sep <:+: t := by
  induction t with
  | nil => by_cases hsep : sep = [] <;> simp [cut?, hsep]
  | cons c r ih =>
    cases hafter : after? sep (c :: r) with
    | some rest =>
      have hprefix : sep <+: c :: r := ⟨rest, (after?_eq_some_iff.1 hafter).symm⟩
      simp only [cut?, hafter, reduceCtorEq, false_iff, Classical.not_not]
      exact hprefix.isInfix
    | none =>
      have hnot : ¬ sep <+: c :: r := after?_eq_none_iff.1 hafter
      simp only [cut?, hafter, Option.map_eq_none_iff, ih, List.infix_cons_iff, hnot, false_or]

/-! ### Cuts at a character -/

/-- A character occurs first where none of its kind stands in front. -/
theorem firstAt_singleton {sep : CodePoint} {a b : Text} :
    FirstAt [sep] (a ++ sep :: b) a.length ↔ sep ∉ a := by
  induction a with
  | nil => simp [firstAt_zero]
  | cons c a ih =>
    rw [List.cons_append, List.length_cons, firstAt_cons_succ, ih, List.mem_cons, not_or,
      List.cons_prefix_cons, and_iff_left List.nil_prefix]

/-- **Cutting at a character finds its first occurrence.** -/
theorem cut?_eq_some_iff {sep : CodePoint} {t a b : Text} :
    cut? [sep] t = some (a, b) ↔ t = a ++ sep :: b ∧ sep ∉ a := by
  rw [cut?_eq_some_iff_firstAt, List.append_assoc, List.singleton_append]
  refine and_congr_right fun h => ?_
  rw [h, firstAt_singleton]

theorem cut?_append {sep : CodePoint} {a : Text} (h : sep ∉ a) (b : Text) :
    cut? [sep] (a ++ sep :: b) = some (a, b) :=
  cut?_eq_some_iff.2 ⟨rfl, h⟩

theorem singleton_infix_iff {sep : CodePoint} {t : Text} : [sep] <:+: t ↔ sep ∈ t := by
  constructor
  · rintro ⟨a, b, rfl⟩
    exact List.mem_append_left b (List.mem_append_right a List.mem_cons_self)
  · intro h
    obtain ⟨a, b, rfl⟩ := List.mem_iff_append.1 h
    exact ⟨a, b, by rw [List.append_assoc, List.singleton_append]⟩

theorem cut?_eq_none_iff {sep : CodePoint} {t : Text} : cut? [sep] t = none ↔ sep ∉ t := by
  rw [cut?_eq_none_iff_nowhere, singleton_infix_iff]

end FarmLink.Text
