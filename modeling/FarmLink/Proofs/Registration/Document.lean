import FarmLink.Proofs.Registration.Composition

/-!
# Document - registration documents as they are written

A writer joins the parts of an entry by colons, the entries of a group by commas, and the segments
of a document by pipes, and keeps the separators out of what it joins. Entries and segments carry
that as proofs, so whatever can be written can be read: each level of splitting finds what its
level of joining put together, and the registration is what the segments say (`ofText_document`).
-/

namespace FarmLink

/-! ### Entries -/

/-- An entry of a `fields` group as it is written. -/
structure FieldEntry where
  key : Text
  name : Text
  unit : Text
  minimum : Text
  maximum : Text
  stateClass : Text
  key_ne_nil : key ≠ []
  avoids : ∀ p ∈ [key, name, unit, minimum, maximum, stateClass], p.Avoids "|,:"

/-- An entry of a `states` group as it is written. -/
structure StatesEntry where
  key : Text
  name : Text
  states : List Text
  key_ne_nil : key ≠ []
  avoids : ∀ p ∈ [key, name], p.Avoids "|,:"
  states_avoid : ∀ s ∈ states, s.Avoids "|,:;"
  states_ne_nil : states ≠ []
  states_ne_empty : states ≠ [[]]

/-- An entry of a `cmds` group as it is written. -/
structure CommandEntry where
  key : Text
  port : Text
  key_ne_nil : key ≠ []
  avoids : ∀ p ∈ [key, port], p.Avoids "|,:"

namespace FieldEntry

def parts (e : FieldEntry) : List Text :=
  [e.key, e.name, e.unit, e.minimum, e.maximum, e.stateClass]

/-- The channel that an entry declares: the key stands in for an empty name, and an empty unit or
state class is none. -/
def field (e : FieldEntry) : Field := .continuous {
  key := e.key
  name := if e.name = [] then e.key else e.name
  unit := if e.unit = [] then none else some e.unit
  minValue := Token.number? e.minimum
  maxValue := Token.number? e.maximum
  stateClass := if e.stateClass = [] then none else some e.stateClass }

theorem ofParts?_parts (e : FieldEntry) :
    (ContinuousField.ofParts? e.parts).map Field.continuous = some e.field := by
  unfold ContinuousField.ofParts?
  rw [if_neg (show ¬ Text.part e.parts 0 = [] from e.key_ne_nil)]
  rfl

end FieldEntry

namespace StatesEntry

def parts (e : StatesEntry) : List Text := [e.key, e.name, Text.join ";" e.states]

/-- The channel that an entry declares. -/
def field (e : StatesEntry) : Field := .enumerated {
  key := e.key
  name := if e.name = [] then e.key else e.name
  values := e.states }

theorem split_states (e : StatesEntry) : Text.split ';' (Text.join ";" e.states) = e.states :=
  Text.split_join e.states_ne_nil fun s hs => (e.states_avoid s hs).not_mem (by decide)

/-- The states of an entry are not taken for states left out. -/
theorem join_states_ne_nil (e : StatesEntry) : Text.join ";" e.states ≠ [] := by
  intro h
  have hsplit := e.split_states
  rw [h] at hsplit
  exact e.states_ne_empty hsplit.symm

theorem parts_avoid (e : StatesEntry) : ∀ p ∈ e.parts, p.Avoids "|,:" := by
  intro p hp
  have hstates : (Text.join ";" e.states).Avoids "|,:" :=
    Text.avoids_join (by decide) fun s hs => (e.states_avoid s hs).mono (by decide)
  simp only [parts, List.mem_cons, List.not_mem_nil, or_false] at hp
  rcases hp with rfl | rfl | rfl
  · exact e.avoids _ (by simp)
  · exact e.avoids _ (by simp)
  · exact hstates

theorem ofParts?_parts (e : StatesEntry) :
    (EnumeratedField.ofParts? e.parts).map Field.enumerated = some e.field := by
  have hvalues : Text.split ';' (Text.part e.parts 2) = e.states := e.split_states
  unfold EnumeratedField.ofParts?
  simp only
  rw [if_neg (show ¬ Text.part e.parts 0 = [] from e.key_ne_nil),
    if_neg (show ¬ Text.part e.parts 2 = [] from e.join_states_ne_nil), hvalues]
  rfl

end StatesEntry

namespace CommandEntry

def parts (e : CommandEntry) : List Text := [e.key, e.port]

/-- The command that an entry declares. -/
def command (e : CommandEntry) : CommandSpec where
  key := e.key
  port := Token.integer e.port 0

theorem ofParts?_parts (e : CommandEntry) : CommandSpec.ofParts? e.parts = some e.command := by
  unfold CommandSpec.ofParts?
  simp only
  rw [if_neg (show ¬ Text.part e.parts 0 = [] from e.key_ne_nil)]
  rfl

end CommandEntry

/-! ### Groups of entries -/

/-- The text of a group whose entries have the given parts. -/
def groupText (entries : List (List Text)) : Text :=
  Text.join "," (entries.map (Text.join ":"))

section Groups

variable {α β : Type} {parts : α → List Text} (h : ∀ a, ∀ p ∈ parts a, p.Avoids "|,:")

include h

theorem join_parts_avoids (a : α) : (Text.join ":" (parts a)).Avoids "|," :=
  Text.avoids_join (by decide) fun p hp => (h a p hp).mono (by decide)

theorem groupText_avoids (as : List α) : (groupText (as.map parts)).Avoids "|" := by
  refine Text.avoids_join (by decide) fun t ht => ?_
  rw [List.map_map] at ht
  obtain ⟨a, -, rfl⟩ := List.mem_map.1 ht
  exact (join_parts_avoids h a).mono (by decide)

/-- The parts of a group are found again; a group without entries is read as one empty entry. -/
theorem entriesOf_groupText (hparts : ∀ a, parts a ≠ []) {as : List α} (hne : as ≠ []) :
    entriesOf (groupText (as.map parts)) = as.map parts := by
  have hcomma : ∀ t ∈ (as.map parts).map (Text.join ":"), (',' : CodePoint) ∉ t := by
    intro t ht
    rw [List.map_map] at ht
    obtain ⟨a, -, rfl⟩ := List.mem_map.1 ht
    exact (join_parts_avoids h a).not_mem (by decide)
  have hsplit : Text.split ',' (groupText (as.map parts)) = (as.map parts).map (Text.join ":") :=
    Text.split_join (by simpa using hne) hcomma
  unfold entriesOf
  rw [hsplit, List.map_map, List.map_map]
  apply List.map_congr_left
  intro a _
  exact Text.split_join (hparts a) fun p hp => (h a p hp).not_mem (by decide)

/-- A reader of entries that passes over the empty one reads a group entry by entry. -/
theorem filterMap_entriesOf (hparts : ∀ a, parts a ≠ []) {read : List Text → Option β}
    {value : α → β} (hempty : read [[]] = none) (hread : ∀ a, read (parts a) = some (value a))
    (as : List α) : (entriesOf (groupText (as.map parts))).filterMap read = as.map value := by
  cases as with
  | nil => simp [groupText, Text.join, entriesOf, Text.split, hempty]
  | cons a as =>
    have hfun : read ∘ parts = some ∘ value := funext hread
    rw [entriesOf_groupText h hparts (List.cons_ne_nil a as), List.filterMap_map, hfun,
      List.filterMap_eq_map]

end Groups

/-- A written assignment is taken apart at its first equals sign. -/
theorem Token.assignment?_append (name value : Text) (hne : name ≠ [])
    (h : ('=' : CodePoint) ∉ name) : Token.assignment? (name ++ "=" ++ value) = some (name, value) := by
  have hcut : Text.cut? ['='] (name ++ "=" ++ value) = some (name, value) := by
    rw [List.append_assoc]
    exact Text.cut?_append h value
  unfold Token.assignment?
  rw [hcut]
  simp only
  rw [if_neg hne]

/-! ### Segments -/

/-- A segment of a document as it is written. -/
inductive WrittenSegment
  | fields (entries : List FieldEntry)
  | states (entries : List StatesEntry)
  | commands (entries : List CommandEntry)
  | metadata (name value : Text) (name_ne_nil : name ≠ []) (name_avoids : name.Avoids "|=")
    (name_free : name ∉ (["fields", "states", "cmds"] : List Text))
    (value_avoids : value.Avoids "|")

namespace WrittenSegment

def text : WrittenSegment → Text
  | fields entries => "fields=" ++ groupText (entries.map FieldEntry.parts)
  | states entries => "states=" ++ groupText (entries.map StatesEntry.parts)
  | commands entries => "cmds=" ++ groupText (entries.map CommandEntry.parts)
  | metadata name value _ _ _ _ => name ++ "=" ++ value

/-- The channels that a segment declares. -/
def fieldList : WrittenSegment → List Field
  | fields entries => entries.map FieldEntry.field
  | states entries => entries.map StatesEntry.field
  | _ => []

/-- The commands that a segment declares. -/
def commandList : WrittenSegment → List CommandSpec
  | commands entries => entries.map CommandEntry.command
  | _ => []

/-- The metadata that a segment declares. -/
def entryList : WrittenSegment → List (Text × Text)
  | metadata name value _ _ _ _ => [(name, value)]
  | _ => []

theorem text_avoids (w : WrittenSegment) : w.text.Avoids "|" := by
  cases w with
  | fields entries =>
    exact Text.avoids_append (by decide) (groupText_avoids FieldEntry.avoids entries)
  | states entries =>
    exact Text.avoids_append (by decide) (groupText_avoids StatesEntry.parts_avoid entries)
  | commands entries =>
    exact Text.avoids_append (by decide) (groupText_avoids CommandEntry.avoids entries)
  | metadata name value _ hname _ hvalue =>
    exact Text.avoids_append (Text.avoids_append (hname.mono (by decide)) (by decide)) hvalue

theorem ofText_fields (entries : List FieldEntry) :
    Segment.ofText (fields entries).text = .fields (entries.map FieldEntry.field) := by
  have hassign : Token.assignment? (fields entries).text =
      some (Text.ofString "fields", groupText (entries.map FieldEntry.parts)) :=
    Token.assignment?_append "fields" _ (by decide) (by decide)
  have hgroup : (entriesOf (groupText (entries.map FieldEntry.parts))).filterMap
      (fun q => (ContinuousField.ofParts? q).map Field.continuous) =
        entries.map FieldEntry.field :=
    filterMap_entriesOf FieldEntry.avoids (fun _ => List.cons_ne_nil _ _) rfl
      FieldEntry.ofParts?_parts entries
  unfold Segment.ofText
  rw [hassign]
  simp only [if_true, List.map_filterMap, hgroup]

theorem ofText_states (entries : List StatesEntry) :
    Segment.ofText (states entries).text = .fields (entries.map StatesEntry.field) := by
  have hassign : Token.assignment? (states entries).text =
      some (Text.ofString "states", groupText (entries.map StatesEntry.parts)) :=
    Token.assignment?_append "states" _ (by decide) (by decide)
  have hgroup : (entriesOf (groupText (entries.map StatesEntry.parts))).filterMap
      (fun q => (EnumeratedField.ofParts? q).map Field.enumerated) =
        entries.map StatesEntry.field :=
    filterMap_entriesOf StatesEntry.parts_avoid (fun _ => List.cons_ne_nil _ _) rfl
      StatesEntry.ofParts?_parts entries
  have hname : ("states" : Text) ≠ "fields" := by decide
  unfold Segment.ofText
  rw [hassign]
  simp only [if_neg hname, if_true, List.map_filterMap, hgroup]

theorem ofText_commands (entries : List CommandEntry) :
    Segment.ofText (commands entries).text = .commands (entries.map CommandEntry.command) := by
  have hassign : Token.assignment? (commands entries).text =
      some (Text.ofString "cmds", groupText (entries.map CommandEntry.parts)) :=
    Token.assignment?_append "cmds" _ (by decide) (by decide)
  have hgroup : (entriesOf (groupText (entries.map CommandEntry.parts))).filterMap
      CommandSpec.ofParts? = entries.map CommandEntry.command :=
    filterMap_entriesOf CommandEntry.avoids (fun _ => List.cons_ne_nil _ _) rfl
      CommandEntry.ofParts?_parts entries
  have hfields : ("cmds" : Text) ≠ "fields" := by decide
  have hstates : ("cmds" : Text) ≠ "states" := by decide
  unfold Segment.ofText
  rw [hassign]
  simp only [if_neg hfields, if_neg hstates, if_true, hgroup]

/-- **A written segment is read as what it declares.** -/
theorem ofText_text (w : WrittenSegment) :
    (Segment.ofText w.text).fieldList = w.fieldList ∧
    (Segment.ofText w.text).commandList = w.commandList ∧
    (Segment.ofText w.text).entryList = w.entryList := by
  cases w with
  | fields entries =>
    rw [ofText_fields]
    exact ⟨rfl, rfl, rfl⟩
  | states entries =>
    rw [ofText_states]
    exact ⟨rfl, rfl, rfl⟩
  | commands entries =>
    rw [ofText_commands]
    exact ⟨rfl, rfl, rfl⟩
  | metadata name value hne hname hfree hvalue =>
    have hassign : Token.assignment? (name ++ "=" ++ value) = some (name, value) :=
      Token.assignment?_append name value hne (hname.not_mem (by decide))
    simp only [List.mem_cons, List.not_mem_nil, or_false, not_or] at hfree
    have hsegment : Segment.ofText (name ++ "=" ++ value) = .metadata name value := by
      unfold Segment.ofText
      rw [hassign]
      simp only [if_neg hfree.1, if_neg hfree.2.1, if_neg hfree.2.2]
    rw [text, hsegment]
    exact ⟨rfl, rfl, rfl⟩

end WrittenSegment

namespace Registration

/-- The document of segments without pipes holds what these declare; the empty document, which
is read as one empty segment, is no exception. -/
theorem ofText_join {segments : List Text} (h : ∀ s ∈ segments, ('|' : CodePoint) ∉ s) :
    ofText (Text.join "|" segments) = declared (segments.map Segment.ofText) := by
  cases segments with
  | nil => rfl
  | cons s segments =>
    have hsplit : Text.split '|' (Text.join "|" (s :: segments)) = s :: segments :=
      Text.split_join (List.cons_ne_nil s segments) h
    rw [ofText_eq_declared, hsplit]

/-- **A written document is read as it was meant.**  Its registration has the declared channels in
order, of each key the first; all commands in order; and the metadata names in the order in which
they came up, each with the text given last. -/
theorem ofText_document (document : List WrittenSegment) :
    (ofText (Text.join "|" (document.map WrittenSegment.text))).fields =
      firsts Field.key (document.flatMap WrittenSegment.fieldList) ∧
    (ofText (Text.join "|" (document.map WrittenSegment.text))).commands =
      document.flatMap WrittenSegment.commandList ∧
    (ofText (Text.join "|" (document.map WrittenSegment.text))).metadata.keys =
      Dict.keys (firsts Prod.fst (document.flatMap WrittenSegment.entryList)) ∧
    ∀ name, (ofText (Text.join "|" (document.map WrittenSegment.text))).metadata.get? name =
      Dict.get? (document.flatMap WrittenSegment.entryList).reverse name := by
  have hbar : ∀ s ∈ document.map WrittenSegment.text, ('|' : CodePoint) ∉ s := by
    intro s hs
    obtain ⟨w, -, rfl⟩ := List.mem_map.1 hs
    exact w.text_avoids.not_mem (by decide)
  rw [ofText_join hbar, List.map_map]
  unfold declared
  simp only [List.flatMap_map, Function.comp_apply, WrittenSegment.ofText_text]
  exact ⟨trivial, trivial, Dict.keys_ofEntries _, Dict.get?_ofEntries _⟩

/-- A document with segments of all kinds. Of its entries one leaves out all but the key, and one
declares a key a second time. -/
def valveDocument : List WrittenSegment :=
  [.fields [⟨"t", "Soil", "C", "-40", "8.5e1", "m", by decide, by decide⟩,
      ⟨"h", "", "", "", "dry", "", by decide, by decide⟩],
    .states [⟨"v", "Valve", ["open", "closed"], by decide, by decide, by decide, by decide,
        by decide⟩,
      ⟨"t", "", ["lo"], by decide, by decide, by decide, by decide, by decide⟩],
    .commands [⟨"v", "0x14", by decide, by decide⟩],
    .metadata "fw" "1" (by decide) (by decide) (by decide) (by decide),
    .metadata "fw" "2=3" (by decide) (by decide) (by decide) (by decide)]

theorem ofText_document_valve :
    Text.join "|" (valveDocument.map WrittenSegment.text) =
      Text.ofString "fields=t:Soil:C:-40:8.5e1:m,h::::dry:|states=v:Valve:open;closed,t::lo" ++
        "|cmds=v:0x14|fw=1|fw=2=3" ∧
    (ofText (Text.join "|" (valveDocument.map WrittenSegment.text))).fields =
      [.continuous ⟨"t", "Soil", some "C", some (.ofBits 0xC044000000000000),
          some (.ofBits 0x4055400000000000), some "m"⟩,
        .continuous ⟨"h", "h", none, none, none, none⟩,
        .enumerated ⟨"v", "Valve", ["open", "closed"]⟩] ∧
    (ofText (Text.join "|" (valveDocument.map WrittenSegment.text))).commands = [⟨"v", 20⟩] ∧
    (ofText (Text.join "|" (valveDocument.map WrittenSegment.text))).metadata.keys = ["fw"] ∧
    (ofText (Text.join "|" (valveDocument.map WrittenSegment.text))).metadata.get? "fw" =
      some "2=3" := by
  obtain ⟨hfields, hcommands, hkeys, hmetadata⟩ := ofText_document valveDocument
  rw [hfields, hcommands, hkeys, hmetadata]
  decide +kernel

end Registration

end FarmLink
