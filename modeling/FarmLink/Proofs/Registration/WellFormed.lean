import FarmLink.Proofs.Registration.Assembly
import FarmLink.Proofs.Registration.Metadata

/-!
# WellFormed - what holds of every registration that is read

A device may send any text, and nothing in it is refused; but what is read of it can be relied on.
Channels have keys of their own without separators in them, what has a text has one that is not
empty, and no metadata has the name of a group. Each segment declares proper parts only
(`Segment.isProper_ofText`), a registration of such segments is well formed
(`isWellFormed_declared`), and frames are read as the document that they hold together.
-/

namespace FarmLink

/-! ### Proper parts -/

/-- A channel as an entry can declare it. -/
def Field.IsProper : Field → Prop
  | continuous f =>
    (f.key ≠ [] ∧ f.key.Avoids "|,:") ∧ f.name ≠ [] ∧ f.unit ≠ some [] ∧ f.stateClass ≠ some []
  | enumerated f => (f.key ≠ [] ∧ f.key.Avoids "|,:") ∧ f.name ≠ [] ∧ f.values ≠ []

/-- A name and a text as a segment can declare them. -/
structure IsProperEntry (e : Text × Text) : Prop where
  name_ne_nil : e.1 ≠ []
  name_avoids : e.1.Avoids "|="
  name_free : e.1 ∉ Segment.groupNames
  text_avoids : e.2.Avoids "|"

/-- A registration whose parts are proper and whose keys and names do not repeat. -/
structure Registration.IsWellFormed (r : Registration) : Prop where
  keys_nodup : r.fieldKeys.Nodup
  fields : ∀ f ∈ r.fields, f.IsProper
  commands : ∀ c ∈ r.commands, c.key ≠ []
  names_nodup : r.metadata.keys.Nodup
  metadata : ∀ e ∈ r.metadata, IsProperEntry e

/-- A segment that declares proper parts. -/
structure Segment.IsProper (s : Segment) : Prop where
  fields : ∀ f ∈ s.fieldList, f.IsProper
  commands : ∀ c ∈ s.commandList, c.key ≠ []
  entries : ∀ e ∈ s.entryList, IsProperEntry e

/-! ### Entries -/

theorem Text.orElse_ne_nil {t other : Text} (h : other ≠ []) : t.orElse other ≠ [] := by
  unfold orElse
  split
  · exact h
  · next ht => exact ht

theorem Text.nonempty?_ne (t : Text) : t.nonempty? ≠ some [] := by
  unfold nonempty?
  split
  · exact Option.some_ne_none _ |>.symm
  · next ht => exact fun h => ht (Option.some.inj h)

/-- The parts of an entry hold none of the separators that it was found by. -/
theorem avoids_of_mem_entriesOf {value : Text} {parts : List Text} (hvalue : value.Avoids "|")
    (h : parts ∈ entriesOf value) : ∀ p ∈ parts, p.Avoids "|,:" := by
  obtain ⟨entry, hentry, rfl⟩ := List.mem_map.1 h
  intro p hp
  have hparts := Text.avoids_of_mem_split (Text.avoids_of_mem_split hvalue hentry) hp
  exact hparts.mono (by decide)

section Parts

variable {parts : List Text} (h : ∀ p ∈ parts, p.Avoids "|,:")

include h

theorem ContinuousField.isProper_of_ofParts? {f : ContinuousField} (hf : ofParts? parts = some f) :
    (Field.continuous f).IsProper := by
  unfold ofParts? at hf
  simp only at hf
  split at hf
  · cases hf
  · next hkey =>
    cases hf
    exact ⟨⟨hkey, Text.avoids_part h 0⟩, Text.orElse_ne_nil hkey, Text.nonempty?_ne _,
      Text.nonempty?_ne _⟩

theorem EnumeratedField.isProper_of_ofParts? {f : EnumeratedField} (hf : ofParts? parts = some f) :
    (Field.enumerated f).IsProper := by
  unfold ofParts? at hf
  simp only at hf
  split at hf
  · cases hf
  · next hkey =>
    cases hf
    refine ⟨⟨hkey, Text.avoids_part h 0⟩, Text.orElse_ne_nil hkey, ?_⟩
    -- states that are left out are the usual ones, and a text that is there has a part
    simp only
    split
    · exact List.cons_ne_nil _ _
    · exact Text.split_ne_nil _ _

end Parts

theorem CommandSpec.key_ne_nil_of_ofParts? {parts : List Text} {c : CommandSpec}
    (h : ofParts? parts = some c) : c.key ≠ [] := by
  unfold ofParts? at h
  simp only at h
  split at h
  · cases h
  · next hkey =>
    cases h
    exact hkey

/-! ### Segments -/

/-- The name and the text of a segment between pipes. -/
theorem Token.avoids_of_assignment? {s name value : Text} (hs : s.Avoids "|")
    (h : assignment? s = some (name, value)) : name.Avoids "|=" ∧ value.Avoids "|" := by
  obtain ⟨rfl, hequals, -⟩ := assignment?_eq_some_iff.1 h
  constructor
  · intro c hc hsep
    rcases List.mem_cons.1 hsep with rfl | hsep
    · exact hs _ (List.mem_append_left _ hc) (by decide)
    · rw [List.mem_singleton.1 hsep] at hc
      exact hequals hc
  · intro c hc
    exact hs c (List.mem_append_right _ (List.mem_cons_of_mem _ hc))

/-- **Segments declare proper parts**, whatever stands in them. -/
theorem Segment.isProper_ofText {s : Text} (hs : s.Avoids "|") : (ofText s).IsProper where
  fields f hf := by
    obtain ⟨name, value, hpair, parts, hparts, hread⟩ := exists_parts_of_mem_fieldList hf
    have havoid := avoids_of_mem_entriesOf (Token.avoids_of_assignment? hs hpair).2 hparts
    rcases hread with ⟨g, hg, rfl⟩ | ⟨g, hg, rfl⟩
    · exact ContinuousField.isProper_of_ofParts? havoid hg
    · exact EnumeratedField.isProper_of_ofParts? havoid hg
  commands c hc := by
    obtain ⟨-, -, parts, -, hread⟩ := mem_commandList_ofText_iff.1 hc
    exact CommandSpec.key_ne_nil_of_ofParts? hread
  entries e he := by
    obtain ⟨name, value⟩ := e
    obtain ⟨hpair, hfree⟩ := ofText_eq_metadata_iff.1 (mem_entryList_iff.1 he)
    obtain ⟨hname, hvalue⟩ := Token.avoids_of_assignment? hs hpair
    exact ⟨(Token.assignment?_eq_some_iff.1 hpair).2.2, hname, hfree, hvalue⟩

namespace Registration

/-! ### Documents -/

/-- Proper segments make a well-formed registration. -/
theorem isWellFormed_declared {segments : List Segment} (h : ∀ s ∈ segments, s.IsProper) :
    (declared segments).IsWellFormed where
  keys_nodup := nodup_keys_firsts Field.key _
  fields f hf := by
    obtain ⟨s, hs, hfs⟩ := List.mem_flatMap.1 (mem_of_mem_firsts Field.key hf)
    exact (h s hs).fields f hfs
  commands c hc := by
    obtain ⟨s, hs, hcs⟩ := List.mem_flatMap.1 hc
    exact (h s hs).commands c hcs
  names_nodup := Dict.nodup_keys_ofEntries _
  metadata e he := by
    obtain ⟨s, hs, hes⟩ := List.mem_flatMap.1 (Dict.mem_of_mem_ofEntries he)
    exact (h s hs).entries e hes

theorem isWellFormed_ofText (t : Text) : (ofText t).IsWellFormed := by
  rw [ofText_eq_declared]
  refine isWellFormed_declared fun segment hsegment => ?_
  obtain ⟨s, hs, rfl⟩ := List.mem_map.1 hsegment
  have hbar : ('|' : CodePoint) ∉ s := Text.not_mem_of_mem_split hs
  refine Segment.isProper_ofText fun c hc hsep => hbar ?_
  have hc' : c = ('|' : CodePoint) := List.mem_singleton.1 hsep
  rwa [← hc']

/-- Frames that are read hold some document. -/
theorem exists_document_of_assemble {sources : List FrameSource} {r : Registration}
    (h : assemble sources = .ok r) : ∃ t, r = ofText t := by
  obtain ⟨frames, -, hframes⟩ := bind_eq_ok.1 h
  exact ⟨documentOf frames, (Except.ok.inj hframes).symm⟩

/-- **Every registration that is read is well formed**, from a document of any text or from
frames. -/
theorem isWellFormed_of_document_or_frames :
    (∀ t : Text, (ofText t).IsWellFormed) ∧
    ∀ (sources : List FrameSource) (r : Registration), assemble sources = .ok r →
      r.IsWellFormed := by
  refine ⟨isWellFormed_ofText, fun sources r h => ?_⟩
  obtain ⟨t, rfl⟩ := exists_document_of_assemble h
  exact isWellFormed_ofText t

/-- Entries without a key, keys and names that repeat, empty parts and a value with an equals
sign. -/
theorem isWellFormed_of_document_or_frames_malformed :
    assemble [.text "reg:fields|fields=:x,t,u:::,t:again|states=u,v:::|x=1=2|=y",
        .payload (.bytes [0x72, 0x65, 0x67, 0x3A, 0x73, 0x79, 0x73, 0x7C])] =
      .ok {
        fields := [.continuous { key := "t", name := "t" }, .continuous { key := "u", name := "u" },
          .enumerated { key := "v", name := "v", values := ["off", "on"] }]
        metadata := [("x", "1=2")] } ∧
    IsWellFormed {
      fields := [.continuous { key := "t", name := "t" }, .continuous { key := "u", name := "u" },
        .enumerated { key := "v", name := "v", values := ["off", "on"] }]
      metadata := [("x", "1=2")] } := by
  have hread : assemble [.text "reg:fields|fields=:x,t,u:::,t:again|states=u,v:::|x=1=2|=y",
      .payload (.bytes [0x72, 0x65, 0x67, 0x3A, 0x73, 0x79, 0x73, 0x7C])] =
    .ok {
      fields := [.continuous { key := "t", name := "t" }, .continuous { key := "u", name := "u" },
        .enumerated { key := "v", name := "v", values := ["off", "on"] }]
      metadata := [("x", "1=2")] } := by
    decide +kernel
  exact ⟨hread, isWellFormed_of_document_or_frames.2 _ _ hread⟩

end Registration

end FarmLink
