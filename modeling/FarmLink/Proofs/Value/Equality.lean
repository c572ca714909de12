import FarmLink.Proofs.Dict.Sorting
import FarmLink.Value.Equality

/-!
# Equality - values that are equal part by part

Lists are equal exactly if they are so in step, and dicts whose keys do not repeat exactly if every
key has equal values in both or in neither (`same_dict_iff`). So a comparison of two dicts comes
down to one of what they answer, and two dicts made from one list of keys, some of them left out,
are compared key by key (`same_present_iff`).
-/

namespace FarmLink

/-! ### Values that may be missing -/

section Missing

variable {α β : Type} {r : α → β → Prop} {a : Option α} {b : Option β}

theorem rel_some_iff {x : α} {y : β} : Option.Rel r (some x) (some y) ↔ r x y :=
  ⟨fun | .some h => h, .some⟩

theorem eq_none_iff_of_rel (h : Option.Rel r a b) : a = none ↔ b = none := by
  cases h with
  | none => exact ⟨fun _ => rfl, fun _ => rfl⟩
  | some _ => simp only [reduceCtorEq]

theorem exists_of_rel_some {x : α} (h : Option.Rel r (some x) b) : ∃ y, b = some y ∧ r x y :=
  match h with
  | .some hxy => ⟨_, rfl, hxy⟩

end Missing

namespace Value

/-! ### Lists -/

theorem sameItems_map_iff {α β : Type} {f : α → Value} {g : β → Value} {as : List α}
    {bs : List β} : sameItems (as.map f) (bs.map g) = true ↔
      List.Forall₂ (fun a b => (f a).same (g b) = true) as bs := by
  induction as generalizing bs with
  | nil =>
    cases bs with
    | nil => exact ⟨fun _ => .nil, fun _ => rfl⟩
    | cons b bs => exact ⟨fun h => Bool.noConfusion h, fun h => nomatch h⟩
  | cons a as ih =>
    cases bs with
    | nil => exact ⟨fun h => Bool.noConfusion h, fun h => nomatch h⟩
    | cons b bs =>
      rw [List.map_cons, List.map_cons, sameItems, List.forall₂_cons, ← ih, Bool.and_eq_true]

/-! ### Dicts -/

variable {d e : Dict Value}

theorem sameEntries_iff :
    sameEntries d e = true ↔ ∀ x ∈ d, ∃ w, e.get? x.1 = some w ∧ x.2.same w = true := by
  induction d with
  | nil => exact ⟨fun _ => List.forall_mem_nil _, fun _ => by rw [sameEntries]⟩
  | cons x d ih =>
    obtain ⟨k, v⟩ := x
    rw [List.forall_mem_cons, ← ih, sameEntries]
    cases e.get? k with
    | none => simp only [Bool.false_eq_true, reduceCtorEq, false_and, exists_false]
    | some w => simp only [Bool.and_eq_true, Option.some.injEq, exists_eq_left']

/-- **Dicts are equal if they answer alike**: each key has equal values in both, or none. -/
theorem same_dict_iff (hd : d.keys.Nodup) (he : e.keys.Nodup) :
    (dict d).same (dict e) = true ↔
      ∀ key, Option.Rel (fun v w => v.same w = true) (d.get? key) (e.get? key) := by
  have hlength : ∀ f : Dict Value, f.length = f.keys.length := fun f => List.length_map _ |>.symm
  rw [same_dict, Bool.and_eq_true, beq_iff_eq, sameEntries_iff, hlength d, hlength e]
  constructor
  · rintro ⟨hlen, hfound⟩ key
    have hsub : d.keys ⊆ e.keys := by
      intro k hk
      obtain ⟨x, hx, rfl⟩ := List.mem_map.1 hk
      obtain ⟨w, hw, -⟩ := hfound x hx
      exact List.mem_map.2 ⟨(x.1, w), Dict.mem_of_get? hw, rfl⟩
    -- as many keys, and those of one among those of the other: they are the same keys
    have hkeys : d.keys.Perm e.keys :=
      (List.subperm_of_subset hd hsub).perm_of_length_le hlen.ge
    cases hget : d.get? key with
    | none =>
      have hkey : key ∉ e.keys := fun h => Dict.get?_eq_none_iff.1 hget (hkeys.mem_iff.2 h)
      rw [Dict.get?_eq_none_iff.2 hkey]
      exact .none
    | some v =>
      obtain ⟨w, hw, hsame⟩ := hfound _ (Dict.mem_of_get? hget)
      rw [hw]
      exact .some hsame
  · intro hrel
    have hkeys : d.keys.Perm e.keys := by
      refine (List.perm_ext_iff_of_nodup hd he).2 fun key => ?_
      rw [← not_iff_not, ← Dict.get?_eq_none_iff, ← Dict.get?_eq_none_iff]
      exact eq_none_iff_of_rel (hrel key)
    refine ⟨hkeys.length_eq, fun x hx => ?_⟩
    have hkey := hrel x.1
    rw [(Dict.mem_iff_get? hd).1 hx] at hkey
    exact exists_of_rel_some hkey

end Value

/-! ### Dicts of what is there -/

namespace Dict

variable {α : Type}

/-- The entries of a dict whose value is there. -/
def present (slots : Dict (Option α)) : Dict α :=
  slots.filterMap fun slot => slot.2.map fun v => (slot.1, v)

theorem present_cons_none (k : Text) (slots : Dict (Option α)) :
    present ((k, none) :: slots) = present slots := rfl

theorem present_cons_some (k : Text) (v : α) (slots : Dict (Option α)) :
    present ((k, some v) :: slots) = (k, v) :: present slots := rfl

theorem present_append (s t : Dict (Option α)) : present (s ++ t) = present s ++ present t :=
  List.filterMap_append

theorem keys_present_sublist (slots : Dict (Option α)) : (present slots).keys.Sublist slots.keys := by
  induction slots with
  | nil => exact List.Sublist.refl []
  | cons slot slots ih =>
    obtain ⟨k, v⟩ := slot
    cases v with
    | none => exact ih.cons k
    | some v => exact ih.cons_cons k

theorem get?_present {slots : Dict (Option α)} (h : slots.keys.Nodup) (key : Text) :
    (present slots).get? key = (slots.get? key).join := by
  induction slots with
  | nil => rfl
  | cons slot slots ih =>
    obtain ⟨k, v⟩ := slot
    obtain ⟨hnot, hslots⟩ := List.nodup_cons.1 h
    cases v with
    | none =>
      rw [present_cons_none, ih hslots, get?]
      split
      · next hk =>
        rw [← hk, get?_eq_none_iff.2 hnot]
        rfl
      · rfl
    | some v =>
      rw [present_cons_some, get?, get?, ih hslots]
      split
      · rfl
      · rfl

end Dict

namespace Value

/-- **Dicts made from the same keys are equal if they are so key by key**, values that are left out
included. -/
theorem same_present_iff {s t : Dict (Option Value)} (hs : s.keys.Nodup) (hkeys : s.keys = t.keys) :
    (dict (Dict.present s)).same (dict (Dict.present t)) = true ↔
      List.Forall₂ (fun a b => Option.Rel (fun v w => v.same w = true) a.2 b.2) s t := by
  have ht : t.keys.Nodup := hkeys ▸ hs
  rw [same_dict_iff (hs.sublist (Dict.keys_present_sublist s))
    (ht.sublist (Dict.keys_present_sublist t))]
  simp only [Dict.get?_present hs, Dict.get?_present ht]
  induction s generalizing t with
  | nil =>
    cases t with
    | nil => exact ⟨fun _ => .nil, fun _ _ => .none⟩
    | cons b t => exact absurd hkeys (List.cons_ne_nil _ _).symm
  | cons a s ih =>
    cases t with
    | nil => exact absurd hkeys (List.cons_ne_nil _ _)
    | cons b t =>
      obtain ⟨k, v⟩ := a
      obtain ⟨l, w⟩ := b
      obtain ⟨hkl, hrest⟩ : k = l ∧ Dict.keys s = Dict.keys t := List.cons.inj hkeys
      subst hkl
      obtain ⟨hnot, hs⟩ := List.nodup_cons.1 hs
      obtain ⟨hnot', ht⟩ := List.nodup_cons.1 ht
      rw [List.forall₂_cons]
      refine Iff.trans ?_ (and_congr_right' (ih hs hrest ht))
      constructor
      · intro h
        have hhead := h k
        simp only [Dict.get?, if_true] at hhead
        refine ⟨hhead, fun key => ?_⟩
        by_cases hk : k = key
        · rw [← hk, Dict.get?_eq_none_iff.2 hnot, Dict.get?_eq_none_iff.2 hnot']
          exact .none
        · simpa only [Dict.get?, if_neg hk] using h key
      · rintro ⟨hvw, h⟩ key
        by_cases hk : k = key
        · simp only [Dict.get?, if_pos hk]
          exact hvw
        · simpa only [Dict.get?, if_neg hk] using h key

end Value

end FarmLink
