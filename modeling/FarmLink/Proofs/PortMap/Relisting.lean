import FarmLink.Proofs.Json.Reading
import FarmLink.Proofs.Json.RoundTrip
import FarmLink.Proofs.PortMap.Construction
import FarmLink.Proofs.Text.Latin

/-!
# Relisting - a port map from its own list

The definitions of a map, each as a dict, are a table again, and the map of that table is the map
itself (`ofTable_listing`): every dict gives the definition that it was made from, and the order is
already that of the ports. Written as a document the table is read back if no description has a
pair of surrogates (`ofDocument_listing`). A map of a file has none that has: no surrogate stands in
a file (`isPlain_of_ofUtf8?`), and its descriptions are texts of the document in it
(`hasUnpairedTexts_of_ofFile`).
-/

namespace FarmLink

/-! ### Texts of files -/

namespace Text

theorem isSurrogate_of_charFrom? {least n : Nat} {c : CodePoint} (h : charFrom? least n = some c) :
    c.isSurrogate = false := by
  unfold charFrom? at h
  split at h
  · next hchar =>
    cases h
    have hvalid : n < 0xD800 ∨ (0xDFFF < n ∧ n < 0x110000) := hchar.2
    rw [CodePoint.isSurrogate, CodePoint.toNat_ofNat (by omega), Bool.and_eq_false_iff,
      decide_eq_false_iff_not, decide_eq_false_iff_not]
    omega
  · cases h

theorem isSurrogate_of_utf8Char? {bs rest : Bytes} {c : CodePoint}
    (h : utf8Char? bs = some (c, rest)) : c.isSurrogate = false := by
  cases bs with
  | nil => cases h
  | cons a r =>
    unfold utf8Char? at h
    simp only at h
    -- by the number of bytes that the first of them announces
    split_ifs at h with hone hnone htwo hthree hfour
    · cases h
      rw [CodePoint.isSurrogate, toNat_ofByte, Bool.and_eq_false_iff, decide_eq_false_iff_not,
        decide_eq_false_iff_not]
      omega
    · split at h
      · obtain ⟨_, -, h⟩ := Option.bind_eq_some_iff.1 h
        obtain ⟨d, hd, h⟩ := Option.bind_eq_some_iff.1 h
        cases h
        exact isSurrogate_of_charFrom? hd
      · cases h
    · split at h
      · obtain ⟨_, -, h⟩ := Option.bind_eq_some_iff.1 h
        obtain ⟨_, -, h⟩ := Option.bind_eq_some_iff.1 h
        obtain ⟨d, hd, h⟩ := Option.bind_eq_some_iff.1 h
        cases h
        exact isSurrogate_of_charFrom? hd
      · cases h
    · split at h
      · obtain ⟨_, -, h⟩ := Option.bind_eq_some_iff.1 h
        obtain ⟨_, -, h⟩ := Option.bind_eq_some_iff.1 h
        obtain ⟨_, -, h⟩ := Option.bind_eq_some_iff.1 h
        obtain ⟨d, hd, h⟩ := Option.bind_eq_some_iff.1 h
        cases h
        exact isSurrogate_of_charFrom? hd
      · cases h

/-- **No surrogate stands in a file.** -/
theorem isPlain_of_ofUtf8? {bs : Bytes} {t : Text} (h : ofUtf8? bs = some t) : t.IsPlain := by
  unfold ofUtf8? at h
  generalize bs.length = fuel at h
  induction fuel generalizing bs t with
  | zero =>
    cases bs with
    | nil =>
      cases h
      exact List.forall_mem_nil _
    | cons b bs => cases h
  | succ fuel ih =>
    cases bs with
    | nil =>
      cases h
      exact List.forall_mem_nil _
    | cons b bs =>
      obtain ⟨⟨c, rest⟩, hchar, h⟩ := Option.bind_eq_some_iff.1 h
      obtain ⟨s, hs, h⟩ := Option.bind_eq_some_iff.1 h
      cases h
      exact List.forall_mem_cons.2 ⟨isSurrogate_of_utf8Char? hchar, ih hs⟩

end Text

/-! ### Definitions -/

/-- **The dict form of a definition gives the definition.** -/
theorem PortDef.gives_toDict (d : PortDef) : PortDef.Gives d.toDict d where
  port := ⟨.int d.port, rfl, rfl⟩
  decoder := rfl
  description := by
    intro t
    have hget : d.toDict.get? "description" = some (.ofText? d.description) := rfl
    rw [hget, Option.some.injEq]
    cases d.description with
    | none => simp only [Value.ofText?, reduceCtorEq]
    | some s => simp only [Value.ofText?, Option.some.injEq, Value.text.injEq]

namespace PortMap

/-! ### The list as a table -/

/-- The definitions of a map as a table. -/
def listing (m : PortMap) : Value := .list (m.defs.map fun d => .dict d.toDict)

theorem dictsOf_defs (ds : List PortDef) :
    dictsOf (ds.map fun d => .dict d.toDict) = ds.map PortDef.toDict := by
  induction ds with
  | nil => rfl
  | cons d ds ih => exact congrArg (d.toDict :: ·) ih

/-- **The table of a map has that map.** -/
theorem ofTable_listing (m : PortMap) : ofTable (tableOf m.listing) = .ok m := by
  have hgives : List.Forall₂ PortDef.Gives (m.defs.map PortDef.toDict) m.defs :=
    List.forall₂_map_left_iff.2 (List.forall₂_same.2 fun d _ => d.gives_toDict)
  refine ofItems_eq_ok_iff.2 ⟨m.defs, ?_, nodup_ports m, .refl _⟩
  rw [dictsOf_defs]
  exact hgives

/-! ### The list as a document -/

/-- No description of a map has a pair of surrogates. -/
def HasUnpairedTexts (m : PortMap) : Prop :=
  ∀ d ∈ m.defs, ∀ t, d.description = some t → t.Unpaired

theorem representable_listing {m : PortMap} (h : m.HasUnpairedTexts) :
    Json.Representable 2 m.listing := by
  refine .list fun v hv => ?_
  obtain ⟨d, hd, rfl⟩ := List.mem_map.1 hv
  have hkeys : d.toDict.keys = ["port", "decoder", "description"] := rfl
  have hname : d.decoder.name.IsPlain := by cases d.decoder <;> decide
  have hdescription : Json.Representable 0 (.ofText? d.description) := by
    cases ht : d.description with
    | none => exact .null 0
    | some t => exact .text 0 (h d hd t ht)
  refine Json.representable_entries (hkeys ▸ by decide) (hkeys ▸ by decide) ?_
  exact List.forall_mem_cons.2 ⟨.int 0 _, List.forall_mem_cons.2 ⟨.text 0 hname.unpaired,
    List.forall_mem_singleton.2 hdescription⟩⟩

/-- Ports are small numbers, so a list can always be written. -/
theorem isShowable_listing (m : PortMap) : m.listing.isShowable = true := by
  refine Value.isShowable_list_iff.2 (List.forall_mem_map.2 fun d _ => ?_)
  have hport : isShowable (d.port : Int) = true :=
    isShowable_of_lt (Nat.lt_of_le_of_lt d.port_mem.2 (by decide))
  have hdescription : (Value.ofText? d.description).isShowable = true := by
    cases d.description <;> rfl
  simp only [PortDef.toDict, Value.isShowable_dict_cons, Value.isShowable_int, hport,
    Value.isShowable_text, hdescription, Value.isShowable_dict_nil, Bool.and_self]

/-- **The document of a map's list has that map.** -/
theorem ofDocument_listing {m : PortMap} (h : m.HasUnpairedTexts) (layout : Json.Layout) :
    ofDocument (Json.write layout 0 m.listing ++ "\n") = .ok m := by
  have hrepresentable := (representable_listing h).mono (show 2 ≤ Json.depthLimit by decide)
  have hread := Json.read_write hrepresentable (isShowable_listing m) layout Json.ends_lineFeed rfl
  unfold ofDocument
  rw [hread]
  exact ofTable_listing m

/-! ### Descriptions in files -/

theorem standsIn_of_mem_dictsOf {table : Value} {items : List Value}
    (hitems : table.items = .ok items) {entry : Dict Value} (h : entry ∈ dictsOf items) :
    (Value.dict entry).StandsIn table := by
  obtain ⟨v, hv, hentry⟩ := List.mem_filterMap.1 h
  cases v with
  | dict d =>
    cases hentry
    cases table with
    | list vs =>
      cases hitems
      exact .item hv .self
    | text t =>
      -- the items of a text are texts again, and so are those of a dict
      cases hitems
      obtain ⟨c, -, hc⟩ := List.mem_map.1 hv
      cases hc
    | dict entries =>
      cases hitems
      obtain ⟨e, -, he⟩ := List.mem_map.1 hv
      cases he
    | null | bool _ | int _ | float _ => cases hitems
  | null | bool _ | int _ | float _ | text _ | list _ => cases hentry

/-- The table of a document stands in it, or is empty. -/
theorem tableOf_cases (v : Value) : (tableOf v).StandsIn v ∨ tableOf v = .list [] := by
  cases v with
  | list vs => exact .inl .self
  | dict entries =>
    have htable : tableOf (.dict entries) = (Dict.get? entries "entries").getD (.list []) := rfl
    rw [htable]
    cases hget : Dict.get? entries "entries" with
    | none => exact .inr rfl
    | some table => exact .inl (.entry (Dict.mem_of_get? hget) .self)
  | null | bool _ | int _ | float _ | text _ => exact .inr rfl

/-- The descriptions of a table's map stand in the table. -/
theorem standsIn_of_ofTable {table : Value} {m : PortMap} (h : ofTable table = .ok m)
    {d : PortDef} (hd : d ∈ m.defs) {t : Text} (ht : d.description = some t) :
    (Value.text t).StandsIn table := by
  unfold ofTable at h
  split at h
  · cases h
  · next items hitems =>
    obtain ⟨ds, hgives, -, hperm⟩ := ofItems_eq_ok_iff.1 h
    obtain ⟨entry, hentry, hd⟩ := exists_mem_of_forall₂ hgives.flip d (hperm.mem_iff.1 hd)
    have hget : entry.get? "description" = some (.text t) := (hd.description t).1 ht
    have htext : (Value.text t).StandsIn (.dict entry) := .entry (Dict.mem_of_get? hget) .self
    exact htext.trans (standsIn_of_mem_dictsOf hitems hentry)

/-- **Descriptions in a file have no pairs of surrogates.** -/
theorem hasUnpairedTexts_of_ofFile {bs : Bytes} {m : PortMap} (h : ofFile bs = .ok m) :
    m.HasUnpairedTexts := by
  unfold ofFile ofDocument at h
  split at h
  · cases h
  · next t htext =>
    have hplain := Text.isPlain_of_ofUtf8? htext
    split at h
    · cases h
    · next v hread =>
      intro d hd t ht
      have htable := standsIn_of_ofTable h hd ht
      rcases tableOf_cases v with hstands | hempty
      · exact Json.hasUnpairedTexts_of_read hplain hread t (htable.trans hstands)
      · rw [hempty] at htable
        cases htable with
        | item hv _ => cases hv

end PortMap

end FarmLink
