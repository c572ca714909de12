import FarmLink.Proofs.Dict.Sorting
import FarmLink.Proofs.Registration.Composition
import FarmLink.Registration.Digest

/-!
# Equality - when two registrations are the same

Registrations are compared part by part: bounds by their value, metadata as a map. A bound that is
not a number would differ even from itself, but no document has one, since the reader of numbers
gives only finite ones (`isFinite_of_mem_bounds`). So documents with the same fields and commands
and the same metadata in any order are the same, and are hashed by the same (`same_of_perm`).
-/

namespace FarmLink

namespace Double

theorem same_self_of_isFinite {x : Double} (h : x.isFinite = true) : x.same x = true := by
  have hnan : x.isNaN = false := by
    unfold isFinite at h
    unfold isNaN
    exact decide_eq_false (Nat.lt_asymm (of_decide_eq_true h))
  unfold same
  rw [hnan]
  simp only [Bool.not_false, beq_self_eq_true, Bool.and_self, Bool.or_true]

end Double

theorem Token.isFinite_of_number? {token : Text} {x : Double} (h : number? token = some x) :
    x.isFinite = true := by
  unfold number? at h
  split at h
  · cases h
  · split at h
    · next hfinite =>
      cases h
      exact hfinite
    · cases h

namespace Field

/-! ### Bounds of documents -/

/-- The bounds that a channel has. -/
def bounds : Field → List Double
  | continuous f => f.minValue.toList ++ f.maxValue.toList
  | enumerated _ => []

theorem isFinite_of_ofParts? {parts : List Text} {f : ContinuousField}
    (h : ContinuousField.ofParts? parts = some f) :
    ∀ x ∈ (continuous f).bounds, x.isFinite = true := by
  unfold ContinuousField.ofParts? at h
  simp only at h
  split at h
  · cases h
  · cases h
    intro x hx
    rcases List.mem_append.1 hx with hx | hx
    · exact Token.isFinite_of_number? (Option.mem_toList.1 hx)
    · exact Token.isFinite_of_number? (Option.mem_toList.1 hx)

/-- A segment declares channels with finite bounds only. -/
theorem isFinite_of_mem_fieldList {s : Text} {f : Field} (hf : f ∈ (Segment.ofText s).fieldList) :
    ∀ x ∈ f.bounds, x.isFinite = true := by
  obtain ⟨-, -, -, parts, -, ⟨g, hparts, rfl⟩ | ⟨g, -, rfl⟩⟩ :=
    Segment.exists_parts_of_mem_fieldList hf
  · exact isFinite_of_ofParts? hparts
  · exact fun x hx => absurd hx List.not_mem_nil

/-- **All bounds in a document are finite.** -/
theorem isFinite_of_mem_bounds {t : Text} {f : Field} (hf : f ∈ (Registration.ofText t).fields) :
    ∀ x ∈ f.bounds, x.isFinite = true := by
  rw [Registration.ofText_eq_declared] at hf
  obtain ⟨segment, hsegment, hf⟩ := List.mem_flatMap.1 (mem_of_mem_firsts Field.key hf)
  obtain ⟨s, -, rfl⟩ := List.mem_map.1 hsegment
  exact isFinite_of_mem_fieldList hf

/-! ### Channels that are the same -/

theorem sameBound_self {b : Option Double} (h : ∀ x ∈ b.toList, x.isFinite = true) :
    sameBound b b = true := by
  cases b with
  | none => rfl
  | some x => exact Double.same_self_of_isFinite (h x (Option.mem_toList.2 rfl))

theorem same_self {f : Field} (h : ∀ x ∈ f.bounds, x.isFinite = true) : f.same f = true := by
  cases f with
  | continuous f =>
    have hmin := sameBound_self fun x hx => h x (List.mem_append_left _ hx)
    have hmax := sameBound_self fun x hx => h x (List.mem_append_right _ hx)
    simp only [same, hmin, hmax, beq_self_eq_true, Bool.and_self]
  | enumerated f => simp only [same, beq_self_eq_true]

theorem sameAll_self {fs : List Field} (h : ∀ f ∈ fs, ∀ x ∈ f.bounds, x.isFinite = true) :
    sameAll fs fs = true := by
  induction fs with
  | nil => rfl
  | cons f fs ih =>
    rw [sameAll, same_self (h f List.mem_cons_self), ih fun g hg => h g (List.mem_cons_of_mem _ hg)]
    rfl

end Field

namespace Registration

/-! ### Registrations that are the same -/

/-- Metadata with the same entries are equal as maps. -/
theorem sameMetadata_of_perm {a b : Dict Text} (hb : b.keys.Nodup) (h : a.Perm b) :
    sameMetadata a b = true := by
  unfold sameMetadata
  rw [Bool.and_eq_true, beq_iff_eq, List.all_eq_true]
  refine ⟨h.length_eq, fun e he => ?_⟩
  rw [beq_iff_eq]
  exact (Dict.mem_iff_get? hb).1 (h.mem_iff.1 he)

/-- **Documents that differ in the order of their metadata at most are the same**, and what they
are hashed by is the same too. -/
theorem same_of_perm {t u : Text} (hfields : (ofText t).fields = (ofText u).fields)
    (hcommands : (ofText t).commands = (ofText u).commands)
    (hmetadata : (ofText t).metadata.Perm (ofText u).metadata) :
    (ofText t).same (ofText u) = true ∧ (ofText t).digest = (ofText u).digest := by
  have hkeys : ∀ v : Text, (ofText v).metadata.keys.Nodup := by
    intro v
    rw [ofText_eq_declared]
    exact Dict.nodup_keys_ofEntries _
  constructor
  · unfold same
    rw [← hfields, ← hcommands, Field.sameAll_self fun f hf => Field.isFinite_of_mem_bounds hf,
      sameMetadata_of_perm (hkeys u) hmetadata, beq_self_eq_true]
    rfl
  · unfold digest canonical
    rw [hfields, hcommands, Dict.sorted_eq_of_perm (hkeys t) hmetadata]

end Registration

end FarmLink
