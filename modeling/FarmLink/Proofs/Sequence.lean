import Mathlib.Data.List.Forall2
import Mathlib.Data.List.Induction

/-!
# Sequence - items in a row

Batches, frames and entry lists are read item by item, and two things recur. A reading that may
fail gives one result per item, or the failure of the first bad item, since nothing behind that
one is looked at. And where keys repeat, `firsts` keeps the items whose key stands in no earlier
one: of two lists in a row, the second only adds what the first does not have (`firsts_append`).
-/

namespace FarmLink

variable {α β κ ε : Type}

/-! ### Readings that may fail -/

theorem bind_eq_ok {x : Except ε α} {f : α → Except ε β} {b : β} :
    (x >>= f) = .ok b ↔ ∃ a, x = .ok a ∧ f a = .ok b := by
  cases x with
  | error e => simp only [bind, Except.bind, reduceCtorEq, false_and, exists_false]
  | ok a => simp only [bind, Except.bind, Except.ok.injEq, exists_eq_left']

theorem map_eq_error {x : Except ε α} {f : α → β} {e : ε} : x.map f = .error e ↔ x = .error e := by
  cases x <;> simp [Except.map]

theorem mapM_eq_ok {f : α → Except ε β} {as : List α} {bs : List β}
    (h : List.Forall₂ (fun a b => f a = .ok b) as bs) : as.mapM f = .ok bs := by
  induction h with
  | nil => rfl
  | cons ha _ ih =>
    rw [List.mapM_cons, ha, ih]
    rfl

/-- A reading that goes through has one result per item. -/
theorem forall₂_of_mapM_eq_ok {f : α → Except ε β} :
    ∀ {as : List α} {bs : List β}, as.mapM f = .ok bs →
      List.Forall₂ (fun a b => f a = .ok b) as bs
  | [], bs, h => by
    cases h
    exact .nil
  | a :: as, bs, h => by
    rw [List.mapM_cons] at h
    obtain ⟨b, hb, h⟩ := bind_eq_ok.1 h
    obtain ⟨rest, hrest, h⟩ := bind_eq_ok.1 h
    cases h
    exact .cons hb (forall₂_of_mapM_eq_ok hrest)

theorem mapM_eq_ok_iff {f : α → Except ε β} {as : List α} {bs : List β} :
    as.mapM f = .ok bs ↔ List.Forall₂ (fun a b => f a = .ok b) as bs :=
  ⟨forall₂_of_mapM_eq_ok, mapM_eq_ok⟩

/-- Where one reading of each item is made from another one, so it is of all items, and both fail
alike. -/
theorem mapM_eq_map {γ : Type} {f : α → Except ε β} {g : α → Except ε γ} {h : β → γ}
    (hfg : ∀ a, g a = (f a).map h) (as : List α) :
    as.mapM g = (as.mapM f).map (List.map h) := by
  induction as with
  | nil => rfl
  | cons a as ih =>
    rw [List.mapM_cons, List.mapM_cons, hfg, ih]
    cases f a with
    | error e => rfl
    | ok b =>
      cases as.mapM f with
      | error e => rfl
      | ok bs => rfl

/-- Of two lists in step, each item of the first one has its counterpart in the second. -/
theorem exists_mem_of_forall₂ {R : α → β → Prop} {as : List α} {bs : List β}
    (h : List.Forall₂ R as bs) : ∀ a ∈ as, ∃ b ∈ bs, R a b := by
  induction h with
  | nil => exact List.forall_mem_nil _
  | cons hab _ ih =>
    intro x hx
    rcases List.mem_cons.1 hx with rfl | hx
    · exact ⟨_, List.mem_cons_self, hab⟩
    · obtain ⟨b, hb, hxb⟩ := ih x hx
      exact ⟨b, List.mem_cons_of_mem _ hb, hxb⟩

theorem exists_mapM_eq_ok {f : α → Except ε β} {as : List α} (h : ∀ a ∈ as, ∃ b, f a = .ok b) :
    ∃ bs, as.mapM f = .ok bs := by
  induction as with
  | nil => exact ⟨[], rfl⟩
  | cons a as ih =>
    obtain ⟨b, hb⟩ := h a List.mem_cons_self
    obtain ⟨bs, hbs⟩ := ih fun x hx => h x (List.mem_cons_of_mem _ hx)
    exact ⟨b :: bs, by rw [List.mapM_cons, hb, hbs]; rfl⟩

/-- The first item that cannot be read decides, whatever stands behind it. -/
theorem mapM_eq_error {f : α → Except ε β} {as : List α} {a : α} {e : ε} (rest : List α)
    (h : ∀ x ∈ as, ∃ b, f x = .ok b) (ha : f a = .error e) :
    (as ++ a :: rest).mapM f = .error e := by
  induction as with
  | nil =>
    rw [List.nil_append, List.mapM_cons, ha]
    rfl
  | cons x as ih =>
    obtain ⟨b, hb⟩ := h x List.mem_cons_self
    rw [List.cons_append, List.mapM_cons, hb, ih fun y hy => h y (List.mem_cons_of_mem _ hy)]
    rfl

/-- Where not all items pass there is a first one that does not. -/
theorem exists_first {p : α → Prop} : ∀ {as : List α}, (¬ ∀ a ∈ as, p a) →
    ∃ before a after, as = before ++ a :: after ∧ (∀ x ∈ before, p x) ∧ ¬ p a
  | [], h => absurd (List.forall_mem_nil _) h
  | a :: as, h => by
    by_cases ha : p a
    · have hrest : ¬ ∀ x ∈ as, p x := fun hall => h (List.forall_mem_cons.2 ⟨ha, hall⟩)
      obtain ⟨before, b, after, rfl, hbefore, hb⟩ := exists_first hrest
      exact ⟨a :: before, b, after, rfl, List.forall_mem_cons.2 ⟨ha, hbefore⟩, hb⟩
    · exact ⟨[], a, as, rfl, List.forall_mem_nil _, ha⟩

/-- A reading fails as its first item that cannot be read. -/
theorem mapM_eq_error_iff {f : α → Except ε β} {as : List α} {e : ε} :
    as.mapM f = .error e ↔ ∃ before a after, as = before ++ a :: after ∧
      (∀ x ∈ before, ∃ b, f x = .ok b) ∧ f a = .error e := by
  constructor
  · intro h
    have hnot : ¬ ∀ a ∈ as, ∃ b, f a = .ok b := by
      intro hall
      obtain ⟨bs, hbs⟩ := exists_mapM_eq_ok hall
      rw [hbs] at h
      cases h
    obtain ⟨before, a, after, rfl, hbefore, ha⟩ := exists_first hnot
    refine ⟨before, a, after, rfl, hbefore, ?_⟩
    cases hfa : f a with
    | ok b => exact absurd ⟨b, hfa⟩ ha
    | error e' =>
      rw [mapM_eq_error after hbefore hfa] at h
      rw [Except.error.inj h]
  · rintro ⟨before, a, after, rfl, hbefore, ha⟩
    exact mapM_eq_error after hbefore ha

/-- A loop fails at the first item that the result of the items before cannot take. -/
theorem foldlM_eq_error_iff {f : β → α → Except ε β} {as : List α} {b : β} {e : ε} :
    as.foldlM f b = .error e ↔ ∃ before a after c, as = before ++ a :: after ∧
      before.foldlM f b = .ok c ∧ f c a = .error e := by
  constructor
  · intro h
    induction as generalizing b with
    | nil => cases h
    | cons a as ih =>
      rw [List.foldlM_cons] at h
      cases ha : f b a with
      | error e' =>
        rw [ha] at h
        cases h
        exact ⟨[], a, as, b, rfl, rfl, ha⟩
      | ok c =>
        rw [ha] at h
        obtain ⟨before, x, after, d, rfl, hbefore, hx⟩ := ih h
        refine ⟨a :: before, x, after, d, rfl, ?_, hx⟩
        rw [List.foldlM_cons, ha]
        exact hbefore
  · rintro ⟨before, a, after, c, rfl, hbefore, ha⟩
    rw [List.foldlM_append, hbefore]
    change List.foldlM f c (a :: after) = .error e
    rw [List.foldlM_cons, ha]
    rfl

/-! ### First occurrences -/

section Firsts

variable [DecidableEq κ] (key : α → κ)

/-- The items whose key stands in no earlier item. -/
def firsts : List α → List α
  | [] => []
  | a :: as => a :: (firsts as).filter fun b => key b ≠ key a

theorem mem_of_mem_firsts {a : α} {as : List α} (h : a ∈ firsts key as) : a ∈ as := by
  induction as with
  | nil => exact h
  | cons b as ih =>
    rcases List.mem_cons.1 h with rfl | h
    · exact List.mem_cons_self
    · exact List.mem_cons_of_mem _ (ih (List.mem_filter.1 h).1)

/-- No key is lost. -/
theorem mem_keys_firsts {k : κ} {as : List α} :
    k ∈ (firsts key as).map key ↔ k ∈ as.map key := by
  induction as with
  | nil => rfl
  | cons a as ih =>
    have hstep : k ∈ ((firsts key as).filter fun b => key b ≠ key a).map key ↔
        k ∈ as.map key ∧ k ≠ key a := by
      rw [← ih]
      constructor
      · intro h
        obtain ⟨b, hb, rfl⟩ := List.mem_map.1 h
        obtain ⟨hb1, hb2⟩ := List.mem_filter.1 hb
        exact ⟨List.mem_map_of_mem hb1, of_decide_eq_true hb2⟩
      · rintro ⟨h, hk⟩
        obtain ⟨b, hb, rfl⟩ := List.mem_map.1 h
        exact List.mem_map_of_mem (List.mem_filter.2 ⟨hb, decide_eq_true hk⟩)
    rw [firsts, List.map_cons, List.mem_cons, hstep, List.map_cons, List.mem_cons]
    by_cases hk : k = key a
    · simp only [hk, true_or]
    · simp only [hk, false_or, not_false_eq_true, and_true, ne_eq]

/-- No key is left twice. -/
theorem nodup_keys_firsts (as : List α) : ((firsts key as).map key).Nodup := by
  induction as with
  | nil => exact List.nodup_nil
  | cons a as ih =>
    rw [firsts, List.map_cons, List.nodup_cons]
    refine ⟨?_, ih.sublist (List.filter_sublist.map key)⟩
    intro h
    obtain ⟨b, hb, hk⟩ := List.mem_map.1 h
    exact of_decide_eq_true (List.mem_filter.1 hb).2 hk

/-- **Behind other items only new keys count.** -/
theorem firsts_append (as bs : List α) :
    firsts key (as ++ bs) =
      firsts key as ++ (firsts key bs).filter fun b => key b ∉ as.map key := by
  induction as with
  | nil => simp [firsts]
  | cons a as ih =>
    rw [List.cons_append, firsts, ih, firsts, List.filter_append, List.filter_filter,
      List.cons_append]
    congr 2
    apply List.filter_congr
    intro b _
    simp only [List.map_cons, List.mem_cons, not_or, ne_eq, Bool.decide_and]

theorem firsts_concat (as : List α) (a : α) :
    firsts key (as ++ [a]) =
      if key a ∈ as.map key then firsts key as else firsts key as ++ [a] := by
  rw [firsts_append, show firsts key [a] = [a] from rfl]
  by_cases h : key a ∈ as.map key
  · rw [if_pos h, List.filter_cons_of_neg (by simpa only [decide_eq_true_eq, not_not] using h),
      List.filter_nil, List.append_nil]
  · rw [if_neg h, List.filter_cons_of_pos (by simpa only [decide_eq_true_eq] using h),
      List.filter_nil]

/-- The keys of the items kept are all keys without repetitions. -/
theorem map_firsts [BEq κ] [LawfulBEq κ] (as : List α) :
    (firsts key as).map key = (as.map key).eraseDups := by
  induction as using List.reverseRecOn with
  | nil => rfl
  | append_singleton as a ih =>
    rw [firsts_concat, List.map_append, List.map_singleton, List.eraseDups_append, ← ih]
    unfold List.removeAll
    by_cases h : key a ∈ as.map key
    · have hgone : [key a].filter (fun k => !(as.map key).elem k) = [] := by
        refine List.filter_cons_of_neg ?_
        rw [List.elem_eq_mem, decide_eq_true h]
        exact Bool.false_ne_true
      rw [if_pos h, hgone, List.eraseDups_nil, List.append_nil]
    · have hkept : [key a].filter (fun k => !(as.map key).elem k) = [key a] := by
        refine List.filter_cons_of_pos ?_
        rw [List.elem_eq_mem, decide_eq_false h]
        rfl
      rw [if_neg h, hkept, List.map_append, List.map_singleton]
      rfl

end Firsts

end FarmLink
