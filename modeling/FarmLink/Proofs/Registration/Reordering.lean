import FarmLink.Proofs.Registration.Equality
import FarmLink.Proofs.Token.Pairs

/-!
# Reordering - where the order of segments matters

Segments that declare fields compete for keys, commands are listed in order, and of metadata with
one name the last counts; beyond that segments do not touch each other. So each segment belongs to
a group or to none (`group?`), and a document in which the segments of every group keep their order
is the same registration (`same_of_reordered`). The proof looks at each of the three parts alone:
what a part is made of comes from the segments of one group, the others add nothing to it.
-/

namespace FarmLink

namespace Segment

/-- Segments whose order among themselves matters: all that declare fields, all that declare
commands, and metadata of one name. -/
inductive Group
  | fields
  | commands
  | metadata (name : Text)
deriving DecidableEq

/-- The group of the segments with a name. -/
def Group.ofName (name : Text) : Group :=
  if name = "fields" ∨ name = "states" then fields
  else if name = "cmds" then commands
  else metadata name

/-- The group of a segment; one without a name is in none. -/
def group? (s : Text) : Option Group := (Token.assignment? s).map fun pair => .ofName pair.1

/-! ### What a segment declares for a group -/

section Declares

variable {s : Text}

theorem ofText_of_group?_eq_none (h : group? s = none) : ofText s = ignored := by
  unfold ofText
  rw [Option.map_eq_none_iff.1 h]

/-- The three forms of a segment with a name, each with its group. -/
theorem exists_ofText_of_group? {g : Group} (h : group? s = some g) :
    (g = .fields ∧ ∃ group, ofText s = fields group) ∨
    (g = .commands ∧ ∃ group, ofText s = commands group) ∨
    ∃ name value, g = .metadata name ∧ ofText s = metadata name value := by
  obtain ⟨⟨name, value⟩, hpair, rfl⟩ := Option.map_eq_some_iff.1 h
  unfold ofText Group.ofName
  rw [hpair]
  by_cases hfields : name = "fields"
  · exact .inl ⟨if_pos (.inl hfields), _, if_pos hfields⟩
  · by_cases hstates : name = "states"
    · exact .inl ⟨if_pos (.inr hstates), _, (if_neg hfields).trans (if_pos hstates)⟩
    · have hneither : ¬ (name = "fields" ∨ name = "states") := not_or.2 ⟨hfields, hstates⟩
      simp only [if_neg hneither, if_neg hfields, if_neg hstates]
      by_cases hcommands : name = "cmds"
      · exact .inr (.inl ⟨if_pos hcommands, _, if_pos hcommands⟩)
      · exact .inr (.inr ⟨name, value, if_neg hcommands, if_neg hcommands⟩)

theorem fieldList_eq_nil (h : group? s ≠ some .fields) : (ofText s).fieldList = [] := by
  cases hg : group? s with
  | none => simp only [ofText_of_group?_eq_none hg, fieldList]
  | some g =>
    rcases exists_ofText_of_group? hg with ⟨rfl, -⟩ | ⟨-, group, hs⟩ | ⟨name, value, -, hs⟩
    · exact absurd hg h
    · simp only [hs, fieldList]
    · simp only [hs, fieldList]

theorem commandList_eq_nil (h : group? s ≠ some .commands) : (ofText s).commandList = [] := by
  cases hg : group? s with
  | none => simp only [ofText_of_group?_eq_none hg, commandList]
  | some g =>
    rcases exists_ofText_of_group? hg with ⟨-, group, hs⟩ | ⟨rfl, -⟩ | ⟨name, value, -, hs⟩
    · simp only [hs, commandList]
    · exact absurd hg h
    · simp only [hs, commandList]

/-- The metadata of a name that a segment declares. -/
def entriesNamed (name : Text) (s : Segment) : List (Text × Text) :=
  s.entryList.filter fun e => e.1 = name

theorem entriesNamed_eq_nil {name : Text} (h : group? s ≠ some (.metadata name)) :
    (ofText s).entriesNamed name = [] := by
  unfold entriesNamed
  cases hg : group? s with
  | none => simp only [ofText_of_group?_eq_none hg, entryList, List.filter_nil]
  | some g =>
    rcases exists_ofText_of_group? hg with ⟨-, group, hs⟩ | ⟨-, group, hs⟩ | ⟨other, value, rfl, hs⟩
    · simp only [hs, entryList, List.filter_nil]
    · simp only [hs, entryList, List.filter_nil]
    · have hother : other ≠ name := by
        rintro rfl
        exact h hg
      rw [hs, entryList, List.filter_cons_of_neg (by simpa only [decide_eq_true_eq] using hother),
        List.filter_nil]

end Declares

end Segment

/-! ### Lists of segments -/

/-- The segments of a group, in order. -/
def segmentsOf (ss : List Text) (g : Segment.Group) : List Text :=
  ss.filter fun s => Segment.group? s = some g

/-- A reordering that leaves the segments of every group in their order. Segments without a group
may go anywhere. -/
structure Reordered (ss ss' : List Text) : Prop where
  perm : ss.Perm ss'
  order : ∀ g, segmentsOf ss g = segmentsOf ss' g

/-- What only the segments of a group add to comes from these. -/
theorem flatMap_segmentsOf {α : Type} {f : Text → List α} {g : Segment.Group}
    (h : ∀ s, Segment.group? s ≠ some g → f s = []) (ss : List Text) :
    (segmentsOf ss g).flatMap f = ss.flatMap f := by
  unfold segmentsOf
  induction ss with
  | nil => rfl
  | cons s ss ih =>
    by_cases hs : Segment.group? s = some g
    · rw [List.filter_cons_of_pos (by simpa only [decide_eq_true_eq] using hs), List.flatMap_cons,
        List.flatMap_cons, ih]
    · rw [List.filter_cons_of_neg (by simpa only [decide_eq_true_eq] using hs), List.flatMap_cons,
        h s hs, List.nil_append, ih]

/-- Only groups that occur need to be looked at. -/
theorem Reordered.of_occurring {ss ss' : List Text} (hperm : ss.Perm ss')
    (h : ∀ g ∈ ss.filterMap Segment.group?, segmentsOf ss g = segmentsOf ss' g) :
    Reordered ss ss' := by
  refine ⟨hperm, fun g => ?_⟩
  by_cases hg : g ∈ ss.filterMap Segment.group?
  · exact h g hg
  · have hnone : ∀ s ∈ ss, Segment.group? s ≠ some g := fun s hs he =>
      hg (List.mem_filterMap.2 ⟨s, hs, he⟩)
    have hempty : segmentsOf ss g = [] :=
      List.filter_eq_nil_iff.2 fun s hs => by simpa only [decide_eq_true_eq] using hnone s hs
    have hempty' : segmentsOf ss' g = [] :=
      List.filter_eq_nil_iff.2 fun s hs => by
        simpa only [decide_eq_true_eq] using hnone s (hperm.mem_iff.2 hs)
    rw [hempty, hempty']

namespace Registration

/-- The registration of joined segments, part by part. -/
theorem ofText_join_segments {ss : List Text} (hbar : ∀ s ∈ ss, ('|' : CodePoint) ∉ s) :
    ofText (Text.join "|" ss) = {
      fields := firsts Field.key (ss.flatMap fun s => (Segment.ofText s).fieldList)
      commands := ss.flatMap fun s => (Segment.ofText s).commandList
      metadata := Dict.ofEntries (ss.flatMap fun s => (Segment.ofText s).entryList) } := by
  rw [ofText_eq_declared]
  unfold declared
  rw [List.flatMap_map, List.flatMap_map, List.flatMap_map]
  congr 1
  · exact congrArg _ (Text.flatMap_split_join _ rfl hbar)
  · exact Text.flatMap_split_join _ rfl hbar
  · exact congrArg _ (Text.flatMap_split_join _ rfl hbar)

/-- The entries of a name come from the segments of that name. -/
theorem filter_flatMap_entryList (ss : List Text) (name : Text) :
    ((ss.flatMap fun s => (Segment.ofText s).entryList).filter fun e => e.1 = name) =
      (segmentsOf ss (.metadata name)).flatMap fun s => (Segment.ofText s).entriesNamed name := by
  rw [flatMap_segmentsOf fun s hs => Segment.entriesNamed_eq_nil hs, List.filter_flatMap]
  rfl

/-- **The order of segments matters within groups only.**  Segments joined by pipes in any order
that keeps those of each group in theirs make the same registration: the two are equal, and what
they are hashed by is equal. -/
theorem same_of_reordered {ss ss' : List Text} (hbar : ∀ s ∈ ss, ('|' : CodePoint) ∉ s)
    (h : Reordered ss ss') :
    (ofText (Text.join "|" ss)).same (ofText (Text.join "|" ss')) = true ∧
    (ofText (Text.join "|" ss)).digest = (ofText (Text.join "|" ss')).digest := by
  have hbar' : ∀ s ∈ ss', ('|' : CodePoint) ∉ s := fun s hs => hbar s (h.perm.mem_iff.2 hs)
  have hfields : (ss.flatMap fun s => (Segment.ofText s).fieldList) =
      ss'.flatMap fun s => (Segment.ofText s).fieldList := by
    rw [← flatMap_segmentsOf (fun s hs => Segment.fieldList_eq_nil hs) ss, h.order,
      flatMap_segmentsOf fun s hs => Segment.fieldList_eq_nil hs]
  have hcommands : (ss.flatMap fun s => (Segment.ofText s).commandList) =
      ss'.flatMap fun s => (Segment.ofText s).commandList := by
    rw [← flatMap_segmentsOf (fun s hs => Segment.commandList_eq_nil hs) ss, h.order,
      flatMap_segmentsOf fun s hs => Segment.commandList_eq_nil hs]
  apply same_of_perm
  · rw [ofText_join_segments hbar, ofText_join_segments hbar', hfields]
  · rw [ofText_join_segments hbar, ofText_join_segments hbar', hcommands]
  · rw [ofText_join_segments hbar, ofText_join_segments hbar']
    -- the two dicts list the names in different orders, so they are compared name by name
    refine Dict.perm_of_get?_eq (Dict.nodup_keys_ofEntries _) (Dict.nodup_keys_ofEntries _) ?_
    intro name
    rw [Dict.get?_ofEntries_eq_getLast?, Dict.get?_ofEntries_eq_getLast?,
      filter_flatMap_entryList, filter_flatMap_entryList, h.order]

/-- Two metadata names change places, and a field group and a segment without a name move behind
commands. -/
theorem same_of_reordered_mixed :
    (∀ s ∈ (["fields=t,u", "x=1", "junk", "y=2", "cmds=a:1", "states=u,v", "x=3"] : List Text),
      ('|' : CodePoint) ∉ s) ∧
    Reordered ["fields=t,u", "x=1", "junk", "y=2", "cmds=a:1", "states=u,v", "x=3"]
      ["y=2", "cmds=a:1", "x=1", "x=3", "fields=t,u", "states=u,v", "junk"] ∧
    (ofText "fields=t,u|x=1|junk|y=2|cmds=a:1|states=u,v|x=3").same
      (ofText "y=2|cmds=a:1|x=1|x=3|fields=t,u|states=u,v|junk") = true ∧
    (ofText "fields=t,u|x=1|junk|y=2|cmds=a:1|states=u,v|x=3").metadata ≠
      (ofText "y=2|cmds=a:1|x=1|x=3|fields=t,u|states=u,v|junk").metadata := by
  have hbar : ∀ s ∈
      (["fields=t,u", "x=1", "junk", "y=2", "cmds=a:1", "states=u,v", "x=3"] : List Text),
      ('|' : CodePoint) ∉ s := by decide
  have hreordered :
      Reordered ["fields=t,u", "x=1", "junk", "y=2", "cmds=a:1", "states=u,v", "x=3"]
        ["y=2", "cmds=a:1", "x=1", "x=3", "fields=t,u", "states=u,v", "junk"] :=
    .of_occurring (by decide) (by decide)
  exact ⟨hbar, hreordered, (same_of_reordered hbar hreordered).1, by decide⟩

end Registration

end FarmLink
