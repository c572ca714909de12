import FarmLink.Dict
import FarmLink.Proofs.Sequence
import Mathlib.Data.List.Induction

/-!
# Order - what a dict keeps of the entries put into it

Of entries that are put in turn a dict keeps each key at the place of its first entry
(`keys_ofEntries`) with the value of its last one (`get?_ofEntries`). Keys without repetitions and
their values are all there is to a dict (`ext_of_nodup`), so the dict of entries in two parts is
the dict of the first part updated by that of the second (`ofEntries_append`).
-/

namespace FarmLink.Dict

variable {α : Type}

/-! ### Values by key -/

theorem get?_append (d e : Dict α) (key : Text) :
    Dict.get? (d ++ e) key = (d.get? key).or (e.get? key) := by
  induction d with
  | nil => rfl
  | cons x d ih =>
    obtain ⟨k, v⟩ := x
    by_cases h : k = key
    · simp [get?, h]
    · simp only [List.cons_append, get?, if_neg h, ih]

theorem get?_eq_none_iff {d : Dict α} {key : Text} : d.get? key = none ↔ key ∉ d.keys := by
  induction d with
  | nil => simp [get?, keys]
  | cons x d ih =>
    obtain ⟨k, v⟩ := x
    by_cases h : k = key
    · simp [get?, keys, h]
    · have h2 : ¬ key = k := fun h2 => h h2.symm
      simp only [get?, if_neg h, ih, keys, List.map_cons, List.mem_cons, h2, false_or]

/-- What is found is in the dict. -/
theorem mem_of_get? {d : Dict α} {key : Text} {v : α} (h : d.get? key = some v) : (key, v) ∈ d := by
  induction d with
  | nil => cases h
  | cons e d ih =>
    obtain ⟨k, w⟩ := e
    by_cases hk : k = key
    · rw [get?, if_pos hk, Option.some.injEq] at h
      rw [hk, h]
      exact List.mem_cons_self
    · rw [get?, if_neg hk] at h
      exact List.mem_cons_of_mem _ (ih h)

/-- Values changed by their keys are found changed. -/
theorem get?_map {β : Type} (f : Text → α → β) (d : Dict α) (key : Text) :
    Dict.get? (d.map fun x => (x.1, f x.1 x.2)) key = (d.get? key).map (f key) := by
  induction d with
  | nil => rfl
  | cons x d ih =>
    obtain ⟨k, v⟩ := x
    by_cases h : k = key
    · subst h
      simp only [List.map_cons, get?, if_true, Option.map_some]
    · simp only [List.map_cons, get?, if_neg h, ih]

theorem get?_mapValues {β : Type} (f : α → β) (d : Dict α) (key : Text) :
    (d.mapValues f).get? key = (d.get? key).map f :=
  get?_map (fun _ => f) d key

/-- A key whose entries all stay is found as before. -/
theorem get?_filter_of_pos {p : Text × α → Bool} {d : Dict α} {key : Text}
    (h : ∀ v, p (key, v) = true) : Dict.get? (d.filter p) key = d.get? key := by
  induction d with
  | nil => rfl
  | cons x d ih =>
    obtain ⟨k, v⟩ := x
    by_cases hk : k = key
    · subst hk
      rw [List.filter_cons_of_pos (h v)]
      simp only [get?, if_true]
    · by_cases hp : p (k, v) = true
      · rw [List.filter_cons_of_pos hp]
        simp only [get?, if_neg hk, ih]
      · rw [List.filter_cons_of_neg hp]
        simp only [get?, if_neg hk, ih]

/-- **Keys in order and their values are all there is to a dict.** -/
theorem ext_of_nodup : ∀ {d e : Dict α}, d.keys.Nodup → d.keys = e.keys →
    (∀ key, d.get? key = e.get? key) → d = e
  | [], [], _, _, _ => rfl
  | [], _ :: _, _, hk, _ => by simp [keys] at hk
  | _ :: _, [], _, hk, _ => by simp [keys] at hk
  | (k, v) :: d, (l, w) :: e, hd, hk, hv => by
    simp only [keys, List.map_cons, List.cons.injEq] at hk
    obtain ⟨rfl, hk⟩ := hk
    obtain ⟨hnot, hd⟩ := List.nodup_cons.1 hd
    have hvw : v = w := by simpa [get?] using hv k
    have hrest : d = e := by
      apply ext_of_nodup hd hk
      intro key
      by_cases h : k = key
      · subst h
        rw [get?_eq_none_iff.2 hnot, get?_eq_none_iff.2 (by rw [keys, ← hk]; exact hnot)]
      · simpa only [get?, if_neg h] using hv key
    rw [hvw, hrest]

/-! ### Entries in turn -/

theorem ofEntries_concat (es : List (Text × α)) (e : Text × α) :
    ofEntries (es ++ [e]) = (ofEntries es).put e.1 e.2 := by
  unfold ofEntries
  rw [List.foldl_append, List.foldl_cons, List.foldl_nil]

/-- A key stands where it was first put. -/
theorem keys_ofEntries (es : List (Text × α)) :
    (ofEntries es).keys = keys (firsts Prod.fst es) := by
  induction es using List.reverseRecOn with
  | nil => rfl
  | append_singleton es e ih =>
    have hmem : e.1 ∈ keys (firsts Prod.fst es) ↔ e.1 ∈ es.map Prod.fst :=
      mem_keys_firsts Prod.fst
    rw [ofEntries_concat, keys_put, ih, firsts_concat]
    by_cases h : e.1 ∈ es.map Prod.fst
    · rw [if_pos h, if_pos (hmem.2 h)]
    · rw [if_neg h, if_neg (mt hmem.1 h)]
      simp only [keys, List.map_append, List.map_cons, List.map_nil]

theorem nodup_keys_put {d : Dict α} (h : d.keys.Nodup) (key : Text) (value : α) :
    (d.put key value).keys.Nodup := by
  rw [keys_put]
  split
  · exact h
  · next hkey =>
    have hone : [key].Nodup := List.nodup_cons.2 ⟨List.not_mem_nil, List.nodup_nil⟩
    refine List.nodup_append.2 ⟨h, hone, fun k hk l hl he => hkey ?_⟩
    rwa [← List.mem_singleton.1 hl, ← he]

theorem nodup_keys_ofEntries (es : List (Text × α)) : (ofEntries es).keys.Nodup := by
  rw [keys_ofEntries]
  exact nodup_keys_firsts Prod.fst es

/-- A key holds what was last put. -/
theorem get?_ofEntries (es : List (Text × α)) (key : Text) :
    (ofEntries es).get? key = Dict.get? es.reverse key := by
  induction es using List.reverseRecOn with
  | nil => rfl
  | append_singleton es e ih =>
    obtain ⟨k, v⟩ := e
    rw [ofEntries_concat, get?_put, ih, List.reverse_append, List.reverse_singleton,
      List.singleton_append, get?]

/-- A key holds the value of the last entry with it. -/
theorem get?_ofEntries_eq_getLast? (es : List (Text × α)) (key : Text) :
    (ofEntries es).get? key = ((es.filter fun e => e.1 = key).getLast?).map Prod.snd := by
  rw [get?_ofEntries, List.getLast?_filter]
  induction es.reverse with
  | nil => rfl
  | cons e rest ih =>
    obtain ⟨k, v⟩ := e
    by_cases h : k = key
    · rw [List.find?_cons_of_pos (by simpa only [decide_eq_true_eq] using h), get?, if_pos h]
      rfl
    · rw [List.find?_cons_of_neg (by simpa only [decide_eq_true_eq] using h), get?, if_neg h, ih]

/-- A new key comes behind all entries and changes none. -/
theorem put_of_not_mem {d : Dict α} {key : Text} (h : key ∉ d.keys) (value : α) :
    d.put key value = d ++ [(key, value)] := by
  induction d with
  | nil => rfl
  | cons x d ih =>
    obtain ⟨k, v⟩ := x
    rw [keys, List.map_cons, List.mem_cons, not_or] at h
    rw [put, if_neg (Ne.symm h.1), ih h.2, List.cons_append]

/-- Entries without repeated keys are a dict already. -/
theorem ofEntries_of_nodup {es : List (Text × α)} (h : (keys es).Nodup) : ofEntries es = es := by
  induction es using List.reverseRecOn with
  | nil => rfl
  | append_singleton es e ih =>
    rw [keys, List.map_append] at h
    obtain ⟨hfront, -, hnew⟩ := List.nodup_append.1 h
    have hkey : e.1 ∉ keys es := fun hmem => hnew _ hmem _ List.mem_cons_self rfl
    rw [ofEntries_concat, ih hfront, put_of_not_mem hkey]

/-- A dict after a put holds what was put and else what it held before. -/
theorem mem_of_mem_put {d : Dict α} {e : Text × α} {key : Text} {value : α}
    (h : e ∈ d.put key value) : e = (key, value) ∨ e ∈ d := by
  induction d with
  | nil => exact .inl (List.mem_singleton.1 h)
  | cons x d ih =>
    obtain ⟨k, v⟩ := x
    by_cases hk : k = key
    · rw [put, if_pos hk] at h
      rcases List.mem_cons.1 h with rfl | h
      · exact .inl (by rw [hk])
      · exact .inr (List.mem_cons_of_mem _ h)
    · rw [put, if_neg hk] at h
      rcases List.mem_cons.1 h with rfl | h
      · exact .inr List.mem_cons_self
      · exact (ih h).imp_right (List.mem_cons_of_mem _)

theorem mem_of_mem_ofEntries {es : List (Text × α)} {e : Text × α} (h : e ∈ ofEntries es) :
    e ∈ es := by
  induction es using List.reverseRecOn with
  | nil => exact h
  | append_singleton es x ih =>
    rw [ofEntries_concat] at h
    rcases mem_of_mem_put h with rfl | h
    · exact List.mem_append_right _ List.mem_cons_self
    · exact List.mem_append_left _ (ih h)

/-! ### Keys that have a value -/

theorem has_iff {d : Dict α} {key : Text} : d.has key = true ↔ key ∈ d.keys := by
  unfold has
  rw [Option.isSome_iff_ne_none, ne_eq, get?_eq_none_iff, not_not]

theorem has_put {d : Dict α} {key other : Text} {value : α} :
    (d.put key value).has other = true ↔ other = key ∨ d.has other = true := by
  unfold has
  rw [get?_put]
  by_cases h : key = other
  · simp only [h, if_true, Option.isSome_some, true_or]
  · rw [if_neg h]
    exact ⟨.inr, fun ho => ho.resolve_left fun ho => h ho.symm⟩

theorem keys_mapValues {β : Type} (f : α → β) (d : Dict α) : (d.mapValues f).keys = d.keys := by
  unfold keys mapValues
  rw [List.map_map]
  rfl

/-- Every key that was put has a value. -/
theorem has_ofEntries {es : List (Text × α)} {key : Text} :
    (ofEntries es).has key = true ↔ key ∈ es.map Prod.fst := by
  rw [has_iff, keys_ofEntries]
  exact mem_keys_firsts Prod.fst

/-! ### Updates -/

/-- A dict with the values of another one in place of its own, and the keys it lacks behind. -/
def update (d e : Dict α) : Dict α :=
  d.map (fun x => (x.1, (e.get? x.1).getD x.2)) ++ e.filter fun x => x.1 ∉ d.keys

theorem keys_update (d e : Dict α) :
    (d.update e).keys = d.keys ++ e.keys.filter fun k => k ∉ d.keys := by
  simp only [update, keys, List.map_append, List.map_map, List.filter_map, Function.comp_def]

/-- The values of the second dict win. -/
theorem get?_update (d e : Dict α) (key : Text) :
    (d.update e).get? key = (e.get? key).or (d.get? key) := by
  rw [update, get?_append, get?_map fun k v => (e.get? k).getD v]
  cases hd : d.get? key with
  | none =>
    have hkey : key ∉ d.keys := get?_eq_none_iff.1 hd
    rw [Option.map_none, Option.none_or, Option.or_none,
      get?_filter_of_pos fun _ => decide_eq_true hkey]
  | some v =>
    rw [Option.map_some, Option.some_or]
    cases e.get? key <;> rfl

/-- **Entries in two parts build what the second part makes of the first.** -/
theorem ofEntries_append (es fs : List (Text × α)) :
    ofEntries (es ++ fs) = (ofEntries es).update (ofEntries fs) := by
  apply ext_of_nodup (nodup_keys_ofEntries _)
  · rw [keys_update, keys_ofEntries, keys_ofEntries, keys_ofEntries, firsts_append]
    simp only [keys, List.map_append, List.filter_map, Function.comp_def]
    congr 2
    apply List.filter_congr
    intro x _
    exact decide_eq_decide.2 (not_congr (mem_keys_firsts Prod.fst).symm)
  · intro key
    rw [get?_ofEntries, List.reverse_append, get?_append, get?_update, get?_ofEntries,
      get?_ofEntries]

end FarmLink.Dict
