import FarmLink.Proofs.Dict.Order
import FarmLink.Proofs.Text.Joining
import FarmLink.Proofs.Text.Occurrence
import FarmLink.Registration.Parser

/-!
# Composition - registration documents in parts

The reader goes through a document segment by segment and carries the registration so far.
`declared` says at once what it ends with: of fields with one key the first, all commands in
order, and the metadata as a dict of their entries (`ofText_eq_declared`). Hence two documents
with a pipe between them read as the first merged with the second (`ofText_append`), and segments
that declare nothing can stand anywhere.
-/

namespace FarmLink

namespace Segment

/-- The fields that a segment declares. -/
def fieldList : Segment → List Field
  | fields group => group
  | _ => []

/-- The commands that a segment declares. -/
def commandList : Segment → List CommandSpec
  | commands group => group
  | _ => []

/-- The metadata that a segment declares. -/
def entryList : Segment → List (Text × Text)
  | metadata name value => [(name, value)]
  | _ => []

/-- A segment without a name declares nothing. -/
theorem ofText_eq_ignored {t : Text}
    (h : ('=' : CodePoint) ∉ t ∨ ∃ r, t = ('=' : CodePoint) :: r) : ofText t = ignored := by
  unfold ofText Token.assignment?
  rcases h with h | ⟨r, rfl⟩
  · rw [Text.cut?_eq_none_iff.2 h]
  · have hcut : Text.cut? ['='] (('=' : CodePoint) :: r) = some ([], r) :=
      Text.cut?_append List.not_mem_nil r
    rw [hcut]
    rfl

/-- A channel that a segment declares is read from the parts of one of its entries. -/
theorem exists_parts_of_mem_fieldList {s : Text} {f : Field} (h : f ∈ (ofText s).fieldList) :
    ∃ name value, Token.assignment? s = some (name, value) ∧ ∃ parts ∈ entriesOf value,
      (∃ g, ContinuousField.ofParts? parts = some g ∧ f = .continuous g) ∨
      ∃ g, EnumeratedField.ofParts? parts = some g ∧ f = .enumerated g := by
  unfold ofText at h
  cases hpair : Token.assignment? s with
  | none =>
    rw [hpair] at h
    exact absurd h List.not_mem_nil
  | some pair =>
    obtain ⟨name, value⟩ := pair
    rw [hpair] at h
    simp only at h
    refine ⟨name, value, rfl, ?_⟩
    split at h
    · obtain ⟨g, hg, rfl⟩ := List.mem_map.1 h
      obtain ⟨parts, hparts, hread⟩ := List.mem_filterMap.1 hg
      exact ⟨parts, hparts, .inl ⟨g, hread, rfl⟩⟩
    · split at h
      · obtain ⟨g, hg, rfl⟩ := List.mem_map.1 h
        obtain ⟨parts, hparts, hread⟩ := List.mem_filterMap.1 hg
        exact ⟨parts, hparts, .inr ⟨g, hread, rfl⟩⟩
      · split at h
        · exact absurd h List.not_mem_nil
        · exact absurd h List.not_mem_nil

/-- The commands of a segment come from the entries with a key of a group `cmds`. -/
theorem mem_commandList_ofText_iff {s : Text} {c : CommandSpec} :
    c ∈ (ofText s).commandList ↔
      ∃ value, Token.assignment? s = some (("cmds" : Text), value) ∧
        ∃ parts ∈ entriesOf value, CommandSpec.ofParts? parts = some c := by
  unfold ofText
  cases Token.assignment? s with
  | none => simp only [commandList, List.not_mem_nil, reduceCtorEq, false_and, exists_false]
  | some pair =>
    obtain ⟨name, value⟩ := pair
    simp only [Option.some.injEq, Prod.mk.injEq]
    by_cases hname : name = "cmds"
    · subst hname
      rw [if_neg (by decide), if_neg (by decide), if_pos rfl]
      simp only [commandList, List.mem_filterMap, true_and, exists_eq_left']
    · simp only [hname, false_and, exists_false, iff_false]
      split
      · exact List.not_mem_nil
      · split
        · exact List.not_mem_nil
        · exact List.not_mem_nil

end Segment

namespace Registration

/-! ### What segments declare together -/

/-- Of fields with one key the first, all commands, and metadata with the last text of a name. -/
def declared (segments : List Segment) : Registration where
  fields := firsts Field.key (segments.flatMap Segment.fieldList)
  commands := segments.flatMap Segment.commandList
  metadata := Dict.ofEntries (segments.flatMap Segment.entryList)

theorem addField_firsts (fs : List Field) (f : Field) :
    addField (firsts Field.key fs) f = firsts Field.key (fs ++ [f]) := by
  unfold addField
  rw [firsts_concat]
  by_cases h : f.key ∈ fs.map Field.key
  · rw [if_pos h, if_pos (List.contains_iff_mem.2 ((mem_keys_firsts Field.key).2 h))]
  · rw [if_neg h, if_neg fun hc => h ((mem_keys_firsts Field.key).1 (List.contains_iff_mem.1 hc))]

theorem foldl_addField_firsts (group fs : List Field) :
    group.foldl addField (firsts Field.key fs) = firsts Field.key (fs ++ group) := by
  induction group generalizing fs with
  | nil => rw [List.foldl_nil, List.append_nil]
  | cons f group ih =>
    rw [List.foldl_cons, addField_firsts, ih, List.append_assoc, List.singleton_append]

/-- One segment more. -/
theorem add_declared (segments : List Segment) (s : Segment) :
    (declared segments).add s = declared (segments ++ [s]) := by
  unfold declared
  simp only [List.flatMap_append, List.flatMap_cons, List.flatMap_nil, List.append_nil]
  cases s with
  | fields group =>
    simp only [add, Segment.fieldList, Segment.commandList, Segment.entryList, List.append_nil,
      foldl_addField_firsts]
  | commands group =>
    simp only [add, Segment.fieldList, Segment.commandList, Segment.entryList, List.append_nil]
  | metadata name value =>
    simp only [add, Segment.fieldList, Segment.commandList, Segment.entryList, List.append_nil,
      Dict.ofEntries_concat]
  | ignored =>
    simp only [add, Segment.fieldList, Segment.commandList, Segment.entryList, List.append_nil]

theorem foldl_add_declared (segments done : List Segment) :
    segments.foldl add (declared done) = declared (done ++ segments) := by
  induction segments generalizing done with
  | nil => rw [List.foldl_nil, List.append_nil]
  | cons s segments ih =>
    rw [List.foldl_cons, add_declared, ih, List.append_assoc, List.singleton_append]

/-- **A document holds what its segments declare.** -/
theorem ofText_eq_declared (t : Text) :
    ofText t = declared ((Text.split '|' t).map Segment.ofText) :=
  foldl_add_declared _ []

/-! ### Documents in two parts -/

/-- A registration with what another one adds to it. -/
def merge (r s : Registration) : Registration where
  fields := r.fields ++ s.fields.filter fun f => f.key ∉ r.fieldKeys
  commands := r.commands ++ s.commands
  metadata := r.metadata.update s.metadata

theorem empty_merge (r : Registration) : merge {} r = r := by
  simp [merge, Dict.update, fieldKeys, Dict.keys]

theorem merge_empty (r : Registration) : merge r {} = r := by
  simp [merge, Dict.update, Dict.get?]

theorem declared_append (a b : List Segment) :
    declared (a ++ b) = (declared a).merge (declared b) := by
  have hfields : firsts Field.key (a.flatMap Segment.fieldList ++ b.flatMap Segment.fieldList) =
      ((declared a).merge (declared b)).fields := by
    rw [firsts_append]
    refine congrArg (_ ++ ·) (List.filter_congr fun f _ => ?_)
    exact decide_eq_decide.2 (not_congr (mem_keys_firsts Field.key).symm)
  unfold declared
  rw [List.flatMap_append, List.flatMap_append, List.flatMap_append, hfields,
    Dict.ofEntries_append]
  rfl

/-- **A document behind a pipe is merged into what stands in front.** -/
theorem ofText_append (a b : Text) : ofText (a ++ "|" ++ b) = (ofText a).merge (ofText b) := by
  rw [ofText_eq_declared, ofText_eq_declared, ofText_eq_declared, ← declared_append,
    ← List.map_append, ← Text.split_append, List.append_assoc]
  rfl

/-- A single segment without a name is an empty document. -/
theorem ofText_of_unnamed {s : Text} (hs : ('|' : CodePoint) ∉ s)
    (h : ('=' : CodePoint) ∉ s ∨ ∃ r, s = ('=' : CodePoint) :: r) : ofText s = {} := by
  rw [ofText_eq_declared, Text.split_of_not_mem hs, List.map_singleton,
    Segment.ofText_eq_ignored h]
  rfl

/-- **Documents compose at pipes.**  Behind a document another one adds the fields whose keys are
still free, its commands, and its metadata, whose texts win. A segment without a name adds nothing,
be it in front, behind or between. -/
theorem ofText_pipe (a b : Text) :
    (ofText (a ++ "|" ++ b)).fields =
      (ofText a).fields ++ (ofText b).fields.filter (fun f => f.key ∉ (ofText a).fieldKeys) ∧
    (ofText (a ++ "|" ++ b)).commands = (ofText a).commands ++ (ofText b).commands ∧
    (ofText (a ++ "|" ++ b)).metadata = (ofText a).metadata.update (ofText b).metadata ∧
    ∀ s : Text, ('|' : CodePoint) ∉ s →
      (('=' : CodePoint) ∉ s ∨ ∃ r, s = ('=' : CodePoint) :: r) →
      ofText (s ++ "|" ++ a) = ofText a ∧ ofText (a ++ "|" ++ s) = ofText a ∧
      ofText (a ++ "|" ++ s ++ "|" ++ b) = ofText (a ++ "|" ++ b) := by
  rw [ofText_append]
  refine ⟨rfl, rfl, rfl, ?_⟩
  intro s hs h
  have hempty : ofText s = {} := ofText_of_unnamed hs h
  refine ⟨?_, ?_, ?_⟩
  · rw [ofText_append, hempty, empty_merge]
  · rw [ofText_append, hempty, merge_empty]
  · rw [ofText_append, ofText_append, hempty, merge_empty]

/-- A key declared twice, a name given twice, and a segment without a name. -/
theorem ofText_pipe_repeated :
    (ofText (("fields=t,u|x=1" : Text) ++ "|" ++ "states=u,v|x=2")).fieldKeys =
      (["t", "u", "v"] : List Text) ∧
    (ofText (("fields=t,u|x=1" : Text) ++ "|" ++ "states=u,v|x=2")).metadata =
      ([("x", "2")] : Dict Text) ∧
    ('|' : CodePoint) ∉ ("=junk" : Text) ∧ (∃ r : Text, "=junk" = ('=' : CodePoint) :: r) ∧
    ofText (("fields=t,u|x=1" : Text) ++ "|" ++ "=junk" ++ "|" ++ "states=u,v|x=2") =
      ofText (("fields=t,u|x=1" : Text) ++ "|" ++ "states=u,v|x=2") := by
  have hbar : ('|' : CodePoint) ∉ ("=junk" : Text) := by decide
  have hunnamed : ∃ r : Text, "=junk" = ('=' : CodePoint) :: r := ⟨"junk", rfl⟩
  obtain ⟨-, -, -, hjunk⟩ := ofText_pipe "fields=t,u|x=1" "states=u,v|x=2"
  exact ⟨by decide, by decide, hbar, hunnamed, (hjunk "=junk" hbar (.inr hunnamed)).2.2⟩

end Registration

end FarmLink
