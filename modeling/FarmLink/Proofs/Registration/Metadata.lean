import FarmLink.Proofs.Registration.Composition
import FarmLink.Proofs.Token.Pairs

/-!
# Metadata - the names that a document gives

Every assignment of a document whose name is none of the three groups is metadata, so the document
has metadata of a name exactly where one of its segments is that name, an equals sign, and a value.
-/

namespace FarmLink

namespace Segment

/-- The names of the groups, which no metadata has. -/
def groupNames : List Text := ["fields", "states", "cmds"]

theorem ofText_eq_metadata_iff {s name value : Text} :
    ofText s = .metadata name value ↔
      Token.assignment? s = some (name, value) ∧ name ∉ groupNames := by
  unfold ofText groupNames
  cases Token.assignment? s with
  | none => simp only [reduceCtorEq, false_and]
  | some pair =>
    obtain ⟨n, v⟩ := pair
    simp only [Option.some.injEq, Prod.mk.injEq, List.mem_cons, List.not_mem_nil, or_false, not_or]
    constructor
    · intro h
      split at h
      · cases h
      · split at h
        · cases h
        · split at h
          · cases h
          · next hfields hstates hcommands =>
            cases h
            exact ⟨⟨rfl, rfl⟩, hfields, hstates, hcommands⟩
    · rintro ⟨⟨rfl, rfl⟩, hfields, hstates, hcommands⟩
      rw [if_neg hfields, if_neg hstates, if_neg hcommands]

theorem mem_entryList_iff {s : Segment} {name value : Text} :
    (name, value) ∈ s.entryList ↔ s = .metadata name value := by
  cases s with
  | metadata n v =>
    simp only [entryList, List.mem_singleton, Prod.mk.injEq, metadata.injEq]
    exact ⟨fun h => ⟨h.1.symm, h.2.symm⟩, fun h => ⟨h.1.symm, h.2.symm⟩⟩
  | fields _ | commands _ | ignored => simp only [entryList, List.not_mem_nil, reduceCtorEq]

end Segment

namespace Registration

/-- **A document has metadata of the names that its segments assign.** -/
theorem has_metadata_ofText {t name : Text} :
    (ofText t).metadata.has name = true ↔
      ∃ value, name ++ ('=' : CodePoint) :: value ∈ Text.split '|' t ∧
        ('=' : CodePoint) ∉ name ∧ name ≠ [] ∧ name ∉ Segment.groupNames := by
  have hmetadata : (ofText t).metadata =
      Dict.ofEntries (((Text.split '|' t).map Segment.ofText).flatMap Segment.entryList) := by
    rw [ofText_eq_declared]
    rfl
  rw [hmetadata, Dict.has_ofEntries]
  constructor
  · intro h
    obtain ⟨⟨n, value⟩, hentry, rfl⟩ := List.mem_map.1 h
    obtain ⟨segment, hsegment, hentry⟩ := List.mem_flatMap.1 hentry
    obtain ⟨s, hs, rfl⟩ := List.mem_map.1 hsegment
    obtain ⟨hpair, hgroup⟩ := Segment.ofText_eq_metadata_iff.1 (Segment.mem_entryList_iff.1 hentry)
    obtain ⟨rfl, hequals, hname⟩ := Token.assignment?_eq_some_iff.1 hpair
    exact ⟨value, hs, hequals, hname, hgroup⟩
  · rintro ⟨value, hs, hequals, hname, hgroup⟩
    have hpair : Token.assignment? (name ++ ('=' : CodePoint) :: value) = some (name, value) :=
      Token.assignment?_eq_some_iff.2 ⟨rfl, hequals, hname⟩
    have hsegment := Segment.ofText_eq_metadata_iff.2 ⟨hpair, hgroup⟩
    have hentry := Segment.mem_entryList_iff.2 hsegment
    exact List.mem_map.2 ⟨(name, value),
      List.mem_flatMap.2 ⟨_, List.mem_map.2 ⟨_, hs, rfl⟩, hentry⟩, rfl⟩

end Registration

end FarmLink
