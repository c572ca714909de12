import FarmLink.Form
import FarmLink.Proofs.Registration.Equality
import FarmLink.Proofs.Registration.WellFormed
import FarmLink.Proofs.Value.Equality

/-!
# DictForm - registrations and their dicts

A registration is handed out as a dict in which metadata stand beside the lists of fields and
commands, and what a channel lacks is left out. Nothing is lost by that as long as the registration
is well formed: no metadata has the name of a list, and no unit or state class is empty, so what is
left out is what is not there. Then a channel is read back from its dict (`ofDict?_toDict`), and
two registrations are equal exactly if their dicts are (`same_toDict_iff`).
-/

namespace FarmLink

/-! ### Values of one kind -/

namespace Value

def text? : Value → Option Text
  | text t => some t
  | _ => none

def float? : Value → Option Double
  | float x => some x
  | _ => none

/-- The texts in a list of nothing but texts. -/
def texts? : Value → Option (List Text)
  | list items => items.mapM text?
  | _ => none

theorem texts?_map_text (ts : List Text) : texts? (list (ts.map text)) = some ts := by
  change (ts.map text).mapM text? = some ts
  induction ts with
  | nil => rfl
  | cons t ts ih =>
    rw [List.map_cons, List.mapM_cons, ih]
    rfl

theorem bind_text?_map (t : Option Text) : (t.map text).bind text? = t := by
  cases t <;> rfl

theorem bind_float?_map (x : Option Double) : (x.map float).bind float? = x := by
  cases x <;> rfl

theorem sameItems_map_text_iff {ss ts : List Text} :
    sameItems (ss.map text) (ts.map text) = true ↔ ss = ts := by
  simp only [sameItems_map_iff, same_text, beq_iff_eq, List.forall₂_eq_eq_eq]

/-- What may be missing is equal in the dicts if it is so itself. -/
theorem rel_map_iff {α : Type} {mk : α → Value} {R : Option α → Option α → Prop} {s t : Option α}
    (hnone : R none none) (hleft : ∀ a, ¬ R (some a) none) (hright : ∀ b, ¬ R none (some b))
    (hsome : ∀ a b, (mk a).same (mk b) = true ↔ R (some a) (some b)) :
    Option.Rel (fun v w => same v w = true) (s.map mk) (t.map mk) ↔ R s t := by
  cases s with
  | none =>
    cases t with
    | none => exact iff_of_true .none hnone
    | some b => exact iff_of_false nofun (hright b)
  | some a =>
    cases t with
    | none => exact iff_of_false nofun (hleft a)
    | some b =>
      rw [Option.map_some, Option.map_some, rel_some_iff]
      exact hsome a b

theorem rel_map_text_iff {s t : Option Text} :
    Option.Rel (fun v w => same v w = true) (s.map text) (t.map text) ↔ s = t := by
  refine rel_map_iff (R := fun s t => s = t) rfl nofun nofun fun a b => ?_
  rw [same_text, beq_iff_eq, Option.some.injEq]

theorem rel_map_float_iff {x y : Option Double} :
    Option.Rel (fun v w => same v w = true) (x.map float) (y.map float) ↔
      sameBound x y = true := by
  refine rel_map_iff (R := fun x y => sameBound x y = true) rfl nofun nofun fun a b => ?_
  rw [same_float]
  rfl

end Value

/-! ### Channels -/

namespace Field

/-- What the dict of a channel holds under each of the keys that such dicts have. -/
def slots : Field → Dict (Option Value)
  | continuous f =>
    [("k", some (.text f.key)), ("n", some (.text f.name)), ("c", some (.text "cont")),
      ("t", some (.text "num")), ("v", none), ("u", f.unit.map .text),
      ("min", f.minValue.map .float), ("max", f.maxValue.map .float),
      ("s", f.stateClass.map .text)]
  | enumerated f =>
    [("k", some (.text f.key)), ("n", some (.text f.name)), ("c", some (.text "state")),
      ("t", some (.text "enum")), ("v", some (.list (f.values.map .text))), ("u", none),
      ("min", none), ("max", none), ("s", none)]

theorem keys_slots (f g : Field) : f.slots.keys = g.slots.keys := by
  cases f <;> cases g <;> rfl

theorem nodup_keys_slots (f : Field) : f.slots.keys.Nodup := by
  rw [keys_slots f (enumerated ⟨[], [], []⟩)]
  decide

theorem optional_ofText? (key : Text) {t : Option Text} (h : t ≠ some []) :
    Form.optional key (.ofText? t) = Dict.present [(key, t.map .text)] := by
  cases t with
  | none => rfl
  | some t =>
    have hpresent : (Value.ofText? (some t)).isPresent = true := by
      cases t with
      | nil => exact absurd rfl h
      | cons c t => rfl
    exact if_pos hpresent

theorem optional_ofDouble? (key : Text) (x : Option Double) :
    Form.optional key (.ofDouble? x) = Dict.present [(key, x.map .float)] := by
  cases x <;> rfl

/-- **The dict of a channel holds what there is.**  Only an empty unit or state class would be left
out as well. -/
theorem present_slots {f : Field} (h : f.IsProper) : Dict.present f.slots = f.toDict := by
  cases f with
  | continuous f =>
    obtain ⟨-, -, hunit, hclass⟩ := h
    unfold slots toDict Form.continuousEntries
    simp only [Dict.present_cons_some, Dict.present_cons_none, optional_ofText? _ hunit,
      optional_ofText? _ hclass, optional_ofDouble?, List.cons_append, List.nil_append,
      ← Dict.present_append]
  | enumerated f => rfl

/-- Reads a channel from its dict. -/
def ofDict? (d : Dict Value) : Option Field := do
  let key ← (d.get? "k").bind Value.text?
  let name ← (d.get? "n").bind Value.text?
  let kind ← (d.get? "c").bind Value.text?
  if kind = "cont" then
    some (.continuous {
      key := key
      name := name
      unit := (d.get? "u").bind Value.text?
      minValue := (d.get? "min").bind Value.float?
      maxValue := (d.get? "max").bind Value.float?
      stateClass := (d.get? "s").bind Value.text? })
  else do
    let values ← (d.get? "v").bind Value.texts?
    some (.enumerated { key := key, name := name, values := values })

/-- **A channel is read back from its dict.** -/
theorem ofDict?_toDict {f : Field} (h : f.IsProper) : ofDict? f.toDict = some f := by
  rw [← present_slots h]
  unfold ofDict?
  simp only [Dict.get?_present (nodup_keys_slots f)]
  cases f with
  | continuous f =>
    change some (continuous {
      key := f.key
      name := f.name
      unit := (f.unit.map Value.text).bind Value.text?
      minValue := (f.minValue.map Value.float).bind Value.float?
      maxValue := (f.maxValue.map Value.float).bind Value.float?
      stateClass := (f.stateClass.map Value.text).bind Value.text? }) = _
    simp only [Value.bind_text?_map, Value.bind_float?_map]
  | enumerated f =>
    change (Value.texts? (.list (f.values.map .text)) >>= fun values =>
      some (enumerated { key := f.key, name := f.name, values := values })) = _
    rw [Value.texts?_map_text]
    rfl

/-- Channels are equal exactly if their dicts are. -/
theorem same_toDict {f g : Field} (hf : f.IsProper) (hg : g.IsProper) :
    (Value.dict f.toDict).same (.dict g.toDict) = f.same g := by
  rw [Bool.eq_iff_iff, ← present_slots hf, ← present_slots hg,
    Value.same_present_iff (nodup_keys_slots f) (keys_slots f g)]
  have hkinds : ("cont" : Text) ≠ "state" := by decide
  -- key by key, where the key `c` tells the two kinds apart
  cases f with
  | continuous f =>
    cases g with
    | continuous g =>
      simp only [slots, List.forall₂_cons, List.forall₂_nil_left_iff, rel_some_iff, Option.Rel.none,
        Value.same_text, Value.rel_map_text_iff, Value.rel_map_float_iff, same, Bool.and_eq_true,
        beq_iff_eq, true_and, and_true, and_assoc]
    | enumerated g =>
      simp only [slots, List.forall₂_cons, rel_some_iff, Value.same_text, same, beq_iff_eq]
      exact iff_of_false (fun h => hkinds h.2.2.1) Bool.false_ne_true
  | enumerated f =>
    cases g with
    | continuous g =>
      simp only [slots, List.forall₂_cons, rel_some_iff, Value.same_text, same, beq_iff_eq]
      exact iff_of_false (fun h => hkinds h.2.2.1.symm) Bool.false_ne_true
    | enumerated g =>
      obtain ⟨key, name, values⟩ := f
      obtain ⟨key', name', values'⟩ := g
      simp only [slots, List.forall₂_cons, List.forall₂_nil_left_iff, rel_some_iff, Option.Rel.none,
        Value.same_text, Value.same_list, Value.sameItems_map_text_iff, same, beq_iff_eq, true_and,
        and_true, EnumeratedField.mk.injEq]

/-- Lists of channels are equal exactly if those of their dicts are. -/
theorem sameItems_toDict : ∀ {fs gs : List Field}, (∀ f ∈ fs, f.IsProper) →
    (∀ g ∈ gs, g.IsProper) →
    Value.sameItems (fs.map fun f => .dict f.toDict) (gs.map fun g => .dict g.toDict) =
      sameAll fs gs
  | [], [], _, _ => rfl
  | [], _ :: _, _, _ => rfl
  | _ :: _, [], _, _ => rfl
  | f :: fs, g :: gs, hf, hg => by
    obtain ⟨hf, hfs⟩ := List.forall_mem_cons.1 hf
    obtain ⟨hg, hgs⟩ := List.forall_mem_cons.1 hg
    rw [List.map_cons, List.map_cons, Value.sameItems, sameAll, same_toDict hf hg,
      sameItems_toDict hfs hgs]

end Field

/-! ### Commands and metadata -/

namespace CommandSpec

/-- What the dict of a command holds under each of its keys. -/
def slots (c : CommandSpec) : Dict (Option Value) :=
  [("k", some (.text c.key)), ("port", some (.int c.port))]

theorem keys_slots (c d : CommandSpec) : c.slots.keys = d.slots.keys := rfl

theorem present_slots (c : CommandSpec) : Dict.present c.slots = c.toDict := rfl

theorem same_toDict_iff {c d : CommandSpec} :
    (Value.dict c.toDict).same (.dict d.toDict) = true ↔ c = d := by
  have hkeys : c.slots.keys.Nodup := by
    change (["k", "port"] : List Text).Nodup
    decide
  rw [← present_slots, ← present_slots, Value.same_present_iff hkeys (keys_slots c d)]
  obtain ⟨key, port⟩ := c
  obtain ⟨key', port'⟩ := d
  simp only [slots, List.forall₂_cons, List.forall₂_nil_left_iff, rel_some_iff, Value.same_text,
    Value.same_int, beq_iff_eq, and_true, mk.injEq]

theorem sameItems_toDict_iff {cs ds : List CommandSpec} :
    Value.sameItems (cs.map fun c => .dict c.toDict) (ds.map fun d => .dict d.toDict) = true ↔
      cs = ds := by
  simp only [Value.sameItems_map_iff, same_toDict_iff, List.forall₂_eq_eq_eq]

end CommandSpec

namespace Registration

/-- Metadata are equal exactly if they are so as dicts of values. -/
theorem same_mapValues_text (a b : Dict Text) :
    (Value.dict (a.mapValues .text)).same (.dict (b.mapValues .text)) = sameMetadata a b := by
  have hentries : ∀ a : Dict Text, Value.sameEntries (a.mapValues .text) (b.mapValues .text) =
      a.all fun e => b.get? e.1 == some e.2 := by
    intro a
    induction a with
    | nil => rfl
    | cons e a ih =>
      change Value.sameEntries ((e.1, .text e.2) :: Dict.mapValues .text a) _ = _
      rw [Value.sameEntries, Dict.get?_mapValues, List.all_cons, ← ih]
      cases b.get? e.1 with
      | none => rfl
      | some t =>
        have hflip : (e.2 == t) = (some t == some e.2) := BEq.comm
        rw [Option.map_some, ← hflip]
        simp only [Value.same_text]
  unfold sameMetadata
  rw [Value.same_dict, hentries]
  unfold Dict.mapValues
  rw [List.length_map, List.length_map]

/-! ### Registrations -/

section WellFormed

variable {r s : Registration}

/-- No metadata has the name of a group. -/
theorem IsWellFormed.not_mem_keys (h : r.IsWellFormed) {name : Text}
    (hname : name ∈ Segment.groupNames) : name ∉ r.metadata.keys := by
  intro hmem
  obtain ⟨e, he, rfl⟩ := List.mem_map.1 hmem
  exact (h.metadata e he).name_free hname

/-- **Metadata stand beside the lists.**  No name is that of a list, so none is overwritten. -/
theorem toDict_eq_append (h : r.IsWellFormed) :
    r.toDict = r.metadata.mapValues Value.text ++
      ([("fields", .list (r.fields.map fun f => .dict f.toDict)),
        ("cmds", .list (r.commands.map fun c => .dict c.toDict))] : Dict Value) := by
  have hfields : ("fields" : Text) ∉ (r.metadata.mapValues Value.text).keys := by
    rw [Dict.keys_mapValues]
    exact h.not_mem_keys (by decide)
  have hcommands : ("cmds" : Text) ∉
      ((r.metadata.mapValues Value.text).put "fields"
        (.list (r.fields.map fun f => .dict f.toDict))).keys := by
    rw [Dict.keys_put, if_neg hfields, Dict.keys_mapValues, List.mem_append, not_or]
    exact ⟨h.not_mem_keys (by decide), by decide⟩
  unfold toDict Form.registrationEntries
  rw [Dict.put_of_not_mem hcommands, Dict.put_of_not_mem hfields, List.append_assoc]
  rfl

theorem get?_toDict (r : Registration) (key : Text) :
    r.toDict.get? key =
      if "cmds" = key then some (.list (r.commands.map fun c => .dict c.toDict))
      else if "fields" = key then some (.list (r.fields.map fun f => .dict f.toDict))
      else (r.metadata.mapValues Value.text).get? key := by
  unfold toDict Form.registrationEntries
  rw [Dict.get?_put, Dict.get?_put]

theorem nodup_keys_mapValues (h : r.IsWellFormed) :
    (r.metadata.mapValues Value.text).keys.Nodup := by
  rw [Dict.keys_mapValues]
  exact h.names_nodup

theorem nodup_keys_toDict (h : r.IsWellFormed) : r.toDict.keys.Nodup :=
  Dict.nodup_keys_put (Dict.nodup_keys_put (nodup_keys_mapValues h) _ _) _ _

/-- Key by key, the dicts agree on the two lists and on the metadata, which lack the names of
lists. -/
theorem rel_get?_toDict_iff (hr : r.IsWellFormed) (hs : s.IsWellFormed) :
    (∀ key, Option.Rel (fun v w => Value.same v w = true) (r.toDict.get? key) (s.toDict.get? key)) ↔
      (Value.sameItems (r.fields.map fun f => .dict f.toDict)
          (s.fields.map fun f => .dict f.toDict) = true ∧
        Value.sameItems (r.commands.map fun c => .dict c.toDict)
          (s.commands.map fun c => .dict c.toDict) = true) ∧
      ∀ name, Option.Rel (fun v w => Value.same v w = true)
        ((r.metadata.mapValues Value.text).get? name)
        ((s.metadata.mapValues Value.text).get? name) := by
  simp only [get?_toDict]
  constructor
  · intro h
    refine ⟨⟨?_, ?_⟩, fun name => ?_⟩
    · have hfields := h "fields"
      rw [if_neg (by decide), if_pos rfl, if_neg (by decide), if_pos rfl, rel_some_iff,
        Value.same_list] at hfields
      exact hfields
    · have hcommands := h "cmds"
      rw [if_pos rfl, if_pos rfl, rel_some_iff, Value.same_list] at hcommands
      exact hcommands
    · by_cases hname : name ∈ Segment.groupNames
      · rw [Dict.get?_mapValues, Dict.get?_mapValues,
          Dict.get?_eq_none_iff.2 (hr.not_mem_keys hname),
          Dict.get?_eq_none_iff.2 (hs.not_mem_keys hname)]
        exact .none
      · have hmetadata := h name
        have hcommands : "cmds" ≠ name := by
          rintro rfl
          exact hname (by decide)
        have hfields : "fields" ≠ name := by
          rintro rfl
          exact hname (by decide)
        rw [if_neg hcommands, if_neg hfields, if_neg hcommands, if_neg hfields] at hmetadata
        exact hmetadata
  · rintro ⟨⟨hfields, hcommands⟩, hmetadata⟩ key
    split
    · rw [rel_some_iff, Value.same_list]
      exact hcommands
    · split
      · rw [rel_some_iff, Value.same_list]
        exact hfields
      · exact hmetadata key

/-- **Registrations are equal exactly if their dicts are.** -/
theorem same_toDict_iff (hr : r.IsWellFormed) (hs : s.IsWellFormed) :
    (Value.dict r.toDict).same (.dict s.toDict) = true ↔ r.same s = true := by
  have hmetadata : sameMetadata r.metadata s.metadata = true ↔
      ∀ name, Option.Rel (fun v w => Value.same v w = true)
        ((r.metadata.mapValues Value.text).get? name)
        ((s.metadata.mapValues Value.text).get? name) := by
    rw [← same_mapValues_text,
      Value.same_dict_iff (nodup_keys_mapValues hr) (nodup_keys_mapValues hs)]
  unfold same
  rw [Value.same_dict_iff (nodup_keys_toDict hr) (nodup_keys_toDict hs), rel_get?_toDict_iff hr hs,
    Bool.and_eq_true, Bool.and_eq_true, beq_iff_eq, ← Field.sameItems_toDict hr.fields hs.fields,
    ← CommandSpec.sameItems_toDict_iff, hmetadata]

end WellFormed

/-- **The dict of a document loses nothing.**  Two documents have equal dicts exactly if their
registrations are equal. The metadata stand in the dict as they are, in front of the two lists and
without a name of theirs, and every channel is read back from its own dict. -/
theorem toDict_loses_nothing (a b : Text) :
    ((Value.dict (ofText a).toDict).same (.dict (ofText b).toDict) = true ↔
      (ofText a).same (ofText b) = true) ∧
    (ofText a).toDict = (ofText a).metadata.mapValues Value.text ++
      ([("fields", .list ((ofText a).fields.map fun f => .dict f.toDict)),
        ("cmds", .list ((ofText a).commands.map fun c => .dict c.toDict))] : Dict Value) ∧
    (ofText a).metadata.has "fields" = false ∧ (ofText a).metadata.has "cmds" = false ∧
    ∀ f ∈ (ofText a).fields, Field.ofDict? f.toDict = some f := by
  have ha : (ofText a).IsWellFormed := isWellFormed_ofText a
  have hfree : ∀ name ∈ Segment.groupNames, (ofText a).metadata.has name = false := by
    intro name hname
    rw [Bool.eq_false_iff, ne_eq, Dict.has_iff]
    exact ha.not_mem_keys hname
  refine ⟨same_toDict_iff ha (isWellFormed_ofText b), toDict_eq_append ha, hfree _ (by decide),
    hfree _ (by decide), fun f hf => ?_⟩
  exact Field.ofDict?_toDict (ha.fields f hf)

/-- Metadata in another order and a zero with another sign make another dict, but an equal one. -/
theorem toDict_loses_nothing_reordered :
    (ofText "x=1|fields=t:::0:5|y=2|states=v").toDict ≠
      (ofText "y=2|fields=t:::-0:5|states=v|x=1").toDict ∧
    (Value.dict (ofText "x=1|fields=t:::0:5|y=2|states=v").toDict).same
      (.dict (ofText "y=2|fields=t:::-0:5|states=v|x=1").toDict) = true ∧
    Field.enumerated { key := "v", name := "v", values := ["off", "on"] } ∈
      (ofText "x=1|fields=t:::0:5|y=2|states=v").fields ∧
    Field.ofDict? (Field.toDict (.enumerated { key := "v", name := "v", values := ["off", "on"] })) =
      some (.enumerated { key := "v", name := "v", values := ["off", "on"] }) := by
  have hsame : (ofText "x=1|fields=t:::0:5|y=2|states=v").same
      (ofText "y=2|fields=t:::-0:5|states=v|x=1") = true := by
    decide +kernel
  have hmem : Field.enumerated { key := "v", name := "v", values := ["off", "on"] } ∈
      (ofText "x=1|fields=t:::0:5|y=2|states=v").fields := by
    decide +kernel
  obtain ⟨hiff, -, -, -, hread⟩ := toDict_loses_nothing "x=1|fields=t:::0:5|y=2|states=v"
    "y=2|fields=t:::-0:5|states=v|x=1"
  exact ⟨by decide +kernel, hiff.2 hsame, hmem, hread _ hmem⟩

end Registration

end FarmLink
