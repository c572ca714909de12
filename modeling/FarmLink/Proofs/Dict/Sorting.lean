import FarmLink.Proofs.Dict.Order
import Mathlib.Data.List.Sort

/-!
# Sorting - dicts in the order of their keys

`precedes` is a linear order of texts, so a dict whose keys do not repeat has one sorted form
whatever the order of its entries (`sorted_eq_of_perm`). Two such dicts have the same entries as
soon as every key has the same value in both (`perm_of_get?_eq`), so sorting gives one list for each
map (`sorted_eq_iff`).
-/

namespace FarmLink

namespace Text

/-! ### The order of texts -/

theorem precedes_total : ∀ s t : Text, precedes s t = true ∨ precedes t s = true
  | [], _ => .inl (by rw [precedes])
  | _ :: _, [] => .inr (by rw [precedes])
  | a :: s, b :: t => by
    by_cases h : a = b
    · subst h
      simpa only [precedes, if_true] using precedes_total s t
    · have hne : a.toNat ≠ b.toNat := mt CodePoint.ext h
      simp only [precedes, if_neg h, if_neg (Ne.symm h), decide_eq_true_eq]
      omega

theorem precedes_antisymm : ∀ {s t : Text}, precedes s t = true → precedes t s = true → s = t
  | [], [], _, _ => rfl
  | [], _ :: _, _, h => by simp only [precedes, Bool.false_eq_true] at h
  | _ :: _, [], h, _ => by simp only [precedes, Bool.false_eq_true] at h
  | a :: s, b :: t, hst, hts => by
    by_cases h : a = b
    · subst h
      simp only [precedes, if_true] at hst hts
      rw [precedes_antisymm hst hts]
    · simp only [precedes, if_neg h, if_neg (Ne.symm h), decide_eq_true_eq] at hst hts
      omega

theorem precedes_trans : ∀ {s t u : Text}, precedes s t = true → precedes t u = true →
    precedes s u = true
  | [], _, _, _, _ => by rw [precedes]
  | _ :: _, [], _, h, _ => by simp only [precedes, Bool.false_eq_true] at h
  | _ :: _, _ :: _, [], _, h => by simp only [precedes, Bool.false_eq_true] at h
  | a :: s, b :: t, c :: u, hst, htu => by
    by_cases hab : a = b
    · subst hab
      simp only [precedes, if_true] at hst
      by_cases hac : a = c
      · subst hac
        simp only [precedes, if_true] at htu ⊢
        exact precedes_trans hst htu
      · simpa only [precedes, if_neg hac] using htu
    · simp only [precedes, if_neg hab, decide_eq_true_eq] at hst
      by_cases hbc : b = c
      · subst hbc
        simpa only [precedes, if_neg hab, decide_eq_true_eq] using hst
      · have hac : a ≠ c := by
          rintro rfl
          simp only [precedes, if_neg hbc, decide_eq_true_eq] at htu
          omega
        simp only [precedes, if_neg hbc, if_neg hac, decide_eq_true_eq] at htu ⊢
        omega

end Text

namespace Dict

variable {α : Type}

/-! ### Entries and values -/

/-- Where keys do not repeat, each entry is the one that is found. -/
theorem mem_iff_get? {d : Dict α} (hd : d.keys.Nodup) {key : Text} {v : α} :
    (key, v) ∈ d ↔ d.get? key = some v := by
  refine ⟨fun h => ?_, mem_of_get?⟩
  cases hfound : d.get? key with
  | none => exact absurd (List.mem_map_of_mem h) (get?_eq_none_iff.1 hfound)
  | some w =>
    have hsame := List.inj_on_of_nodup_map hd h (mem_of_get? hfound) rfl
    rw [(Prod.mk.inj hsame).2]

/-- **Dicts that answer alike have the same entries.** -/
theorem perm_of_get?_eq {d e : Dict α} (hd : d.keys.Nodup) (he : e.keys.Nodup)
    (h : ∀ key, d.get? key = e.get? key) : d.Perm e := by
  refine (List.perm_ext_iff_of_nodup hd.of_map he.of_map).2 fun x => ?_
  obtain ⟨k, v⟩ := x
  rw [mem_iff_get? hd, mem_iff_get? he, h]

/-! ### Sorted entries -/

theorem sorted_perm (d : Dict α) : d.sorted.Perm d := List.mergeSort_perm _ _

theorem pairwise_sorted (d : Dict α) :
    d.sorted.Pairwise fun a b => Text.precedes a.1 b.1 = true := by
  unfold sorted
  refine List.pairwise_mergeSort ?_ ?_ d
  · intro a b c hab hbc
    exact Text.precedes_trans hab hbc
  · intro a b
    exact Bool.or_eq_true_iff.2 (Text.precedes_total a.1 b.1)

/-- **The order of entries does not show in the sorted dict.** -/
theorem sorted_eq_of_perm {d e : Dict α} (hd : d.keys.Nodup) (h : d.Perm e) :
    d.sorted = e.sorted := by
  refine (d.sorted_perm.trans (h.trans e.sorted_perm.symm)).eq_of_pairwise ?_ (pairwise_sorted d)
    (pairwise_sorted e)
  intro a b ha hb hab hba
  have hkeys : a.1 = b.1 := Text.precedes_antisymm hab hba
  exact List.inj_on_of_nodup_map hd (d.sorted_perm.mem_iff.1 ha)
    (h.mem_iff.2 (e.sorted_perm.mem_iff.1 hb)) hkeys

/-- **Sorted dicts are equal exactly if the dicts answer alike.** -/
theorem sorted_eq_iff {d e : Dict α} (hd : d.keys.Nodup) (he : e.keys.Nodup) :
    d.sorted = e.sorted ↔ ∀ key, d.get? key = e.get? key := by
  constructor
  · intro h key
    have hperm : d.Perm e := d.sorted_perm.symm.trans (h ▸ e.sorted_perm)
    refine Option.ext fun v => ?_
    rw [← mem_iff_get? hd, ← mem_iff_get? he, hperm.mem_iff]
  · exact fun h => sorted_eq_of_perm hd (perm_of_get?_eq hd he h)

end Dict

end FarmLink
