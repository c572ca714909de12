import FarmLink.Proofs.Json.RoundTrip
import FarmLink.Proofs.Registration.DictForm
import FarmLink.Proofs.Telemetry.Readings
import FarmLink.Proofs.Text.Ascii
import FarmLink.Proofs.Uplink.Handover

/-!
# Documents - decoded frames as documents

The characters of a frame are numbered below 256, so no text in decoded data has a surrogate; the
reader of numbers gives finite ones only; and no dict that a decoder makes repeats a key, since keys
that a device chooses are put one after the other. So what every decoder and both routers hand out
is a value that documents can hold (`Decoder.representable_run`, `Uplink.representable_route`).
-/

namespace FarmLink

/-! ### Texts of a frame -/

namespace Text

theorem isPlain_ofBytes (bs : Bytes) : (ofBytes bs).IsPlain := by
  intro c hc
  obtain ⟨b, -, rfl⟩ := List.mem_map.1 hc
  have hlt : (ofByte b).toNat < 256 := b.toNat_lt
  simp only [CodePoint.isSurrogate, Bool.and_eq_false_iff, decide_eq_false_iff_not]
  omega

theorem isPlain_part {parts : List Text} (h : ∀ p ∈ parts, p.IsPlain) (i : Nat) :
    (part parts i).IsPlain := by
  unfold part
  rw [List.getD_eq_getElem?_getD]
  cases hp : parts[i]? with
  | none => exact fun c hc => absurd hc List.not_mem_nil
  | some p => exact h p (List.mem_of_getElem? hp)

theorem isPlain_split {t : Text} (h : t.IsPlain) (sep : CodePoint) :
    ∀ p ∈ split sep t, p.IsPlain := fun _ hp => h.subset (subset_of_mem_split hp)

theorem isPlain_orElse {t other : Text} (ht : t.IsPlain) (hother : other.IsPlain) :
    (t.orElse other).IsPlain := by
  unfold orElse
  split
  · exact hother
  · exact ht

/-- A text that may be missing. -/
theorem isPlain_of_nonempty? {s t : Text} (h : t.IsPlain) (hs : t.nonempty? = some s) :
    s.IsPlain := by
  unfold nonempty? at hs
  split at hs
  · cases hs
  · cases hs
    exact h

end Text

/-! ### Entries of a dict -/

namespace Json

/-- Entries that documents can hold, with values to a depth. -/
def Entries (depth : Nat) (d : Dict Value) : Prop :=
  ∀ e ∈ d, e.1.Unpaired ∧ Representable depth e.2

theorem Entries.representable {depth : Nat} {d : Dict Value} (h : Entries depth d)
    (hnodup : d.keys.Nodup) : Representable (depth + 1) (.dict d) :=
  .dict hnodup (fun e he => (h e he).1) fun e he => (h e he).2

theorem Entries.put {depth : Nat} {d : Dict Value} {key : Text} {v : Value} (h : Entries depth d)
    (hkey : key.Unpaired) (hv : Representable depth v) : Entries depth (d.put key v) := by
  intro e he
  rcases Dict.mem_of_mem_put he with rfl | he
  · exact ⟨hkey, hv⟩
  · exact h e he

theorem representable_texts {depth : Nat} {ts : List Text} (h : ∀ t ∈ ts, t.IsPlain) :
    Representable (depth + 1) (.list (ts.map .text)) := by
  refine .list fun v hv => ?_
  obtain ⟨t, ht, rfl⟩ := List.mem_map.1 hv
  exact .text _ (h t ht).unpaired

/-- A dict of what there is under keys of the program's own. -/
theorem representable_present {depth : Nat} {slots : Dict (Option Value)}
    (hnodup : slots.keys.Nodup) (hkeys : ∀ k ∈ slots.keys, k.IsPlain)
    (hvalues : ∀ e ∈ slots, ∀ v ∈ e.2, Representable depth v) :
    Representable (depth + 1) (.dict (Dict.present slots)) := by
  have hsub := Dict.keys_present_sublist slots
  refine representable_entries (hnodup.sublist hsub) (fun k hk => hkeys k (hsub.subset hk)) ?_
  intro e he
  obtain ⟨slot, hslot, he⟩ := List.mem_filterMap.1 he
  obtain ⟨v, hv, rfl⟩ := Option.map_eq_some_iff.1 he
  exact hvalues slot hslot v hv

end Json

/-! ### Registrations -/

/-- A channel whose texts have no surrogates. -/
def Field.HasPlainTexts : Field → Prop
  | continuous f => f.key.IsPlain ∧ f.name.IsPlain ∧ (∀ t ∈ f.unit, t.IsPlain) ∧
      ∀ t ∈ f.stateClass, t.IsPlain
  | enumerated f => f.key.IsPlain ∧ f.name.IsPlain ∧ ∀ t ∈ f.values, t.IsPlain

section Parts

variable {parts : List Text} (h : ∀ p ∈ parts, p.IsPlain)

include h

theorem ContinuousField.hasPlainTexts_of_ofParts? {f : ContinuousField}
    (hf : ofParts? parts = some f) : (Field.continuous f).HasPlainTexts := by
  unfold ofParts? at hf
  simp only at hf
  split at hf
  · cases hf
  · cases hf
    exact ⟨Text.isPlain_part h 0,
      Text.isPlain_orElse (Text.isPlain_part h 1) (Text.isPlain_part h 0),
      fun t ht => Text.isPlain_of_nonempty? (Text.isPlain_part h 2) ht,
      fun t ht => Text.isPlain_of_nonempty? (Text.isPlain_part h 5) ht⟩

theorem EnumeratedField.hasPlainTexts_of_ofParts? {f : EnumeratedField}
    (hf : ofParts? parts = some f) : (Field.enumerated f).HasPlainTexts := by
  unfold ofParts? at hf
  simp only at hf
  split at hf
  · cases hf
  · cases hf
    refine ⟨Text.isPlain_part h 0,
      Text.isPlain_orElse (Text.isPlain_part h 1) (Text.isPlain_part h 0), ?_⟩
    simp only
    split
    · decide
    · exact Text.isPlain_split (Text.isPlain_part h 2) ';'

end Parts

namespace Field

/-- A segment declares channels with texts of the document. -/
theorem hasPlainTexts_of_mem_fieldList {s : Text} (hs : s.IsPlain) {f : Field}
    (hf : f ∈ (Segment.ofText s).fieldList) : f.HasPlainTexts := by
  obtain ⟨name, value, hpair, parts, hparts, hread⟩ := Segment.exists_parts_of_mem_fieldList hf
  obtain ⟨rfl, -, -⟩ := Token.assignment?_eq_some_iff.1 hpair
  have hvalue : Text.IsPlain value := hs.subset fun c hc =>
    List.mem_append_right _ (List.mem_cons_of_mem _ hc)
  obtain ⟨entry, hentry, rfl⟩ := List.mem_map.1 hparts
  have hparts := Text.isPlain_split (Text.isPlain_split hvalue ',' entry hentry) ':'
  rcases hread with ⟨g, hg, rfl⟩ | ⟨g, hg, rfl⟩
  · exact ContinuousField.hasPlainTexts_of_ofParts? hparts hg
  · exact EnumeratedField.hasPlainTexts_of_ofParts? hparts hg

/-- What the dict of a channel may hold, key by key. -/
theorem representable_slots {f : Field} (htexts : f.HasPlainTexts)
    (hbounds : ∀ x ∈ f.bounds, x.isFinite = true) :
    ∀ e ∈ f.slots, ∀ v ∈ e.2, Json.Representable 1 v := by
  have htext {t : Text} (h : t.IsPlain) : Json.Representable 1 (.text t) := .text 1 h.unpaired
  have htext? {t : Option Text} (h : ∀ s ∈ t, s.IsPlain) :
      ∀ v ∈ t.map Value.text, Json.Representable 1 v := by
    intro v hv
    obtain ⟨s, hs, rfl⟩ := Option.map_eq_some_iff.1 hv
    exact htext (h s hs)
  have hfloat? {x : Option Double} (h : ∀ y ∈ x.toList, y.isFinite = true) :
      ∀ v ∈ x.map Value.float, Json.Representable 1 v := by
    intro v hv
    obtain ⟨y, hy, rfl⟩ := Option.map_eq_some_iff.1 hv
    exact .float 1 (h y (Option.mem_toList.2 hy))
  have hnone : ∀ v ∈ (none : Option Value), Json.Representable 1 v := fun v hv =>
    absurd hv (Option.not_mem_none v)
  cases f with
  | continuous f =>
    obtain ⟨hkey, hname, hunit, hclass⟩ := htexts
    obtain ⟨hmin, hmax⟩ := List.forall_mem_append.1 hbounds
    simp only [slots, List.forall_mem_cons, Option.mem_some_iff, forall_eq']
    exact ⟨htext hkey, htext hname, htext (by decide), htext (by decide), hnone, htext? hunit,
      hfloat? hmin, hfloat? hmax, htext? hclass, List.forall_mem_nil _⟩
  | enumerated f =>
    obtain ⟨hkey, hname, hvalues⟩ := htexts
    simp only [slots, List.forall_mem_cons, Option.mem_some_iff, forall_eq']
    exact ⟨htext hkey, htext hname, htext (by decide), htext (by decide),
      Json.representable_texts hvalues, hnone, hnone, hnone, hnone, List.forall_mem_nil _⟩

theorem representable_toDict {f : Field} (hproper : f.IsProper) (htexts : f.HasPlainTexts)
    (hbounds : ∀ x ∈ f.bounds, x.isFinite = true) : Json.Representable 2 (.dict f.toDict) := by
  have hkeys : ∀ k ∈ f.slots.keys, Text.IsPlain k := by
    rw [keys_slots f (enumerated ⟨[], [], []⟩)]
    decide
  rw [← present_slots hproper]
  exact Json.representable_present (nodup_keys_slots f) hkeys (representable_slots htexts hbounds)

end Field

theorem CommandSpec.representable_toDict {c : CommandSpec} (hkey : c.key.IsPlain) :
    Json.Representable 2 (.dict c.toDict) := by
  refine Json.representable_entries (show (["k", "port"] : List Text).Nodup by decide)
    (show ∀ k ∈ (["k", "port"] : List Text), k.IsPlain by decide) ?_
  exact List.forall_mem_cons.2 ⟨.text 1 hkey.unpaired,
    List.forall_mem_cons.2 ⟨.int 1 c.port, List.forall_mem_nil _⟩⟩

namespace Segment

variable {s : Text} (hs : s.IsPlain)

include hs

theorem isPlain_of_mem_commandList {c : CommandSpec} (hc : c ∈ (ofText s).commandList) :
    c.key.IsPlain := by
  obtain ⟨value, hpair, parts, hparts, hread⟩ := mem_commandList_ofText_iff.1 hc
  obtain ⟨rfl, -, -⟩ := Token.assignment?_eq_some_iff.1 hpair
  have hvalue : Text.IsPlain value := hs.subset fun c hc =>
    List.mem_append_right _ (List.mem_cons_of_mem _ hc)
  obtain ⟨entry, hentry, rfl⟩ := List.mem_map.1 hparts
  have hparts := Text.isPlain_split (Text.isPlain_split hvalue ',' entry hentry) ':'
  unfold CommandSpec.ofParts? at hread
  simp only at hread
  split at hread
  · cases hread
  · cases hread
    exact Text.isPlain_part hparts 0

theorem isPlain_of_mem_entryList {e : Text × Text} (he : e ∈ (ofText s).entryList) :
    e.1.IsPlain ∧ e.2.IsPlain := by
  obtain ⟨name, value⟩ := e
  obtain ⟨hpair, -⟩ := ofText_eq_metadata_iff.1 (mem_entryList_iff.1 he)
  obtain ⟨rfl, -, -⟩ := Token.assignment?_eq_some_iff.1 hpair
  exact ⟨hs.subset (List.subset_append_left _ _),
    hs.subset fun c hc => List.mem_append_right _ (List.mem_cons_of_mem _ hc)⟩

end Segment

/-- **A registration document is handed out as a document.** -/
theorem Registration.representable_toDict {t : Text} (ht : t.IsPlain) :
    Json.Representable 4 (.dict (ofText t).toDict) := by
  have hproper := isWellFormed_ofText t
  -- what a document declares stands in a segment, whose texts are texts of the document
  have hsegment {α : Type} {declares : Segment → List α} {a : α}
      (ha : a ∈ ((Text.split '|' t).map Segment.ofText).flatMap declares) :
      ∃ s : Text, s.IsPlain ∧ a ∈ declares (Segment.ofText s) := by
    obtain ⟨segment, hmem, ha⟩ := List.mem_flatMap.1 ha
    obtain ⟨s, hs, rfl⟩ := List.mem_map.1 hmem
    exact ⟨s, Text.isPlain_split ht '|' s hs, ha⟩
  have hfields : ∀ f ∈ (ofText t).fields, f.HasPlainTexts := by
    rw [ofText_eq_declared]
    intro f hf
    obtain ⟨s, hs, hf⟩ := hsegment (mem_of_mem_firsts Field.key hf)
    exact Field.hasPlainTexts_of_mem_fieldList hs hf
  have hcommands : ∀ c ∈ (ofText t).commands, c.key.IsPlain := by
    rw [ofText_eq_declared]
    intro c hc
    obtain ⟨s, hs, hc⟩ := hsegment hc
    exact Segment.isPlain_of_mem_commandList hs hc
  have hmetadata : ∀ e ∈ (ofText t).metadata, e.1.IsPlain ∧ e.2.IsPlain := by
    rw [ofText_eq_declared]
    intro e he
    obtain ⟨s, hs, he⟩ := hsegment (Dict.mem_of_mem_ofEntries he)
    exact Segment.isPlain_of_mem_entryList hs he
  have htexts : Json.Entries 3 ((ofText t).metadata.mapValues Value.text) := by
    intro e he
    obtain ⟨x, hx, rfl⟩ := List.mem_map.1 he
    exact ⟨(hmetadata x hx).1.unpaired, .text 3 (hmetadata x hx).2.unpaired⟩
  refine Json.Entries.representable ?_ (nodup_keys_toDict hproper)
  refine (htexts.put (Text.IsPlain.unpaired (by decide)) (.list ?_)).put
    (Text.IsPlain.unpaired (by decide)) (.list ?_)
  · refine List.forall_mem_map.2 fun f hf => ?_
    exact Field.representable_toDict (hproper.fields f hf) (hfields f hf)
      (Field.isFinite_of_mem_bounds hf)
  · exact List.forall_mem_map.2 fun c hc => CommandSpec.representable_toDict (hcommands c hc)

/-! ### The other frames -/

/-- **Readings are handed out as a document**: the keys once each, the numbers finite. -/
theorem Telemetry.representable_toDict {t : Text} (ht : t.IsPlain) (keepText : List Text) :
    Json.Representable 1 (.dict (Telemetry.toDict (ofText keepText t))) := by
  have hnodup : (Telemetry.toDict (ofText keepText t)).keys.Nodup := by
    unfold toDict
    rw [Dict.keys_mapValues, ofText_eq_ofEntries]
    exact Dict.nodup_keys_ofEntries _
  refine Json.Entries.representable (fun e he => ?_) hnodup
  rw [ofText_eq_ofEntries] at he
  obtain ⟨⟨key, reading⟩, hentry, rfl⟩ := List.mem_map.1 he
  obtain ⟨token, htoken, hentry⟩ := List.mem_filterMap.1 (Dict.mem_of_mem_ofEntries hentry)
  obtain ⟨value, rfl, -, -, rfl⟩ := entryOf_eq_some_iff.1 hentry
  have htoken := Text.isPlain_split ht ',' _ htoken
  have hkey : Text.IsPlain key := htoken.subset (List.subset_append_left _ _)
  have hvalue : Text.IsPlain value := htoken.subset fun c hc =>
    List.mem_append_right _ (List.mem_cons_of_mem _ hc)
  refine ⟨hkey.unpaired, ?_⟩
  unfold readingOf
  split
  · exact .text 0 hvalue.unpaired
  · unfold Reading.ofToken
    split
    · next hnumber => exact .float 0 (Token.isFinite_of_number? hnumber)
    · exact .text 0 hvalue.unpaired

theorem Acknowledgment.representable_toDict {t : Text} (ht : t.IsPlain) :
    Json.Representable 1 (.dict (ofText t).toDict) := by
  have hstatus : (ofText t).status.IsPlain :=
    Text.isPlain_orElse (Text.isPlain_part (Text.isPlain_split ht ':') 1) (by decide)
  refine Json.representable_entries
    (show (["port", "status", "success"] : List Text).Nodup by decide)
    (show ∀ k ∈ (["port", "status", "success"] : List Text), k.IsPlain by decide) ?_
  simp only [toDict, Form.ackEntries, List.forall_mem_cons]
  exact ⟨.int 0 _, .text 0 hstatus.unpaired, .bool 0 _, List.forall_mem_nil _⟩

theorem StateChange.representable_toDict (r : StateChange) :
    Json.Representable 1 (.dict r.toDraft.toDict) := by
  have hsource : (r.toDraft.source.name).IsPlain := by
    cases r.toDraft.source <;> decide
  refine Json.representable_entries (show (["control_idx", "new_state", "old_state", "source",
      "source_id", "rule_id", "device_ms", "seq"] : List Text).Nodup by decide)
    (show ∀ k ∈ (["control_idx", "new_state", "old_state", "source", "source_id", "rule_id",
      "device_ms", "seq"] : List Text), k.IsPlain by decide) ?_
  simp only [StateChangeDraft.toDict, List.forall_mem_cons]
  exact ⟨.int 0 _, .int 0 _, .int 0 _, .text 0 hsource.unpaired, .int 0 _, .int 0 _, .int 0 _,
    .int 0 _, List.forall_mem_nil _⟩

theorem StateChange.isPlain_lengthError (bs : Bytes) : (lengthError bs).message.IsPlain := by
  have hfront : Text.IsAscii "Invalid state change length: " := by decide
  have hmiddle : Text.IsAscii " (must be a positive multiple of " := by decide
  have hend : Text.IsAscii ")" := by decide
  have hlength := Text.isAscii_append hfront (Text.isAscii_ofInt bs.length)
  have hsize := Text.isAscii_append (Text.isAscii_append hlength hmiddle)
    (Text.isAscii_ofInt recordSize)
  exact (Text.isAscii_append hsize hend).isSurrogate_eq_false

theorem StateChange.representable_dictOfBytes (bs : Bytes) :
    Json.Representable 3 (.dict (dictOfBytes bs)) := by
  unfold dictOfBytes
  split
  · refine Json.representable_entries (show (["stateChanges"] : List Text).Nodup by decide)
      (show ∀ k ∈ (["stateChanges"] : List Text), k.IsPlain by decide) ?_
    refine List.forall_mem_singleton.2 (.list (List.forall_mem_map.2 fun r _ => ?_))
    exact representable_toDict r
  · refine Json.representable_entries (show (["error", "detail"] : List Text).Nodup by decide)
      (show ∀ k ∈ (["error", "detail"] : List Text), k.IsPlain by decide) ?_
    simp only [List.forall_mem_cons]
    exact ⟨.text 2 (Text.IsPlain.unpaired (by decide)),
      .text 2 (isPlain_lengthError bs).unpaired, List.forall_mem_nil _⟩

theorem OtaProgress.representable_dictOfBytes (bs : Bytes) :
    Json.Representable 2 (.dict (dictOfBytes bs)) := by
  unfold dictOfBytes
  split
  · refine Json.representable_entries (show (["status", "chunkIndex"] : List Text).Nodup by decide)
      (show ∀ k ∈ (["status", "chunkIndex"] : List Text), k.IsPlain by decide) ?_
    simp only [toDict, Form.otaEntries, List.forall_mem_cons]
    exact ⟨.int 1 _, .int 1 _, List.forall_mem_nil _⟩
  · refine Json.representable_entries (show (["raw", "error"] : List Text).Nodup by decide)
      (show ∀ k ∈ (["raw", "error"] : List Text), k.IsPlain by decide) ?_
    simp only [List.forall_mem_cons]
    exact ⟨.list (List.forall_mem_map.2 fun b _ => .int 0 _),
      .text 1 (Text.IsPlain.unpaired (by decide)), List.forall_mem_nil _⟩

/-! ### Decoders and routers -/

/-- A frame that a decoder reads has bytes, and is read as these. -/
theorem Decoder.exists_toBytes_of_run {d : Decoder} {p : Payload} {data : Dict Value}
    (h : d.run p = .ok data) : ∃ bs, p.toBytes = .ok bs ∧ d.run (.bytes bs) = .ok data := by
  cases hp : p.toBytes with
  | ok bs => exact ⟨bs, rfl, by rw [← Payload.run_eq_of_toBytes hp, h]⟩
  | error m =>
    have htext := Payload.toText_of_toBytes_error hp
    cases d with
    | registration | telemetry | commandAck | diagnostics =>
      obtain ⟨t, ht, -⟩ := bind_eq_ok.1 h
      rw [htext] at ht
      cases ht
    | stateChange | otaProgress =>
      obtain ⟨bs, hbs, -⟩ := bind_eq_ok.1 h
      rw [hp] at hbs
      cases hbs

/-- **Every decoder hands out a document.** -/
theorem Decoder.representable_run {d : Decoder} {p : Payload} {data : Dict Value}
    (h : d.run p = .ok data) : Json.Representable 4 (.dict data) := by
  obtain ⟨bs, -, h⟩ := exists_toBytes_of_run h
  have hplain := Text.isPlain_ofBytes bs
  cases d with
  | registration =>
    cases h
    exact Registration.representable_toDict hplain
  | telemetry =>
    cases h
    exact (Telemetry.representable_toDict hplain _).mono (by decide)
  | stateChange =>
    cases h
    exact (StateChange.representable_dictOfBytes bs).mono (by decide)
  | commandAck =>
    cases h
    exact (Acknowledgment.representable_toDict hplain).mono (by decide)
  | diagnostics =>
    cases h
    exact (Telemetry.representable_toDict hplain _).mono (by decide)
  | otaProgress =>
    cases h
    exact (OtaProgress.representable_dictOfBytes bs).mono (by decide)

namespace Uplink

theorem representable_data {data : Dict Value} (h : Json.Representable 4 (.dict data)) :
    Json.Representable 5 (.dict [("data", .dict data)]) :=
  Json.representable_entries (show (["data"] : List Text).Nodup by decide)
    (show ∀ k ∈ (["data"] : List Text), k.IsPlain by decide) (List.forall_mem_singleton.2 h)

/-- What is told beside the data is one of them. -/
theorem representable_report {data : Dict Value} (h : Json.Representable 4 (.dict data)) :
    Json.Representable 5 (.dict (report data)) := by
  unfold report
  cases herror : errorIn data with
  | none => exact representable_data h
  | some error =>
    have hvalues : ∀ e ∈ data, Json.Representable 3 e.2 := by
      cases h with
      | dict _ _ hvalues => exact hvalues
    have herror : Json.Representable 3 error := by
      obtain ⟨v, hv, rfl⟩ := Option.map_eq_some_iff.1 herror
      unfold Value.orElse Dict.value
      split
      · cases hdetail : data.get? "detail" with
        | none => exact .null 3
        | some detail => exact hvalues _ (Dict.mem_of_get? hdetail)
      · exact hvalues _ (Dict.mem_of_get? hv)
    refine Json.representable_entries (show (["data", "errors"] : List Text).Nodup by decide)
      (show ∀ k ∈ (["data", "errors"] : List Text), k.IsPlain by decide) ?_
    simp only [List.forall_mem_cons]
    exact ⟨h, .list (List.forall_mem_singleton.2 herror), List.forall_mem_nil _⟩

theorem representable_decode {p : Payload} {port : Value} {result : Dict Value}
    (h : decode p port = .ok result) : Json.Representable 5 (.dict result) := by
  unfold decode at h
  split at h
  · obtain ⟨data, hdata, h⟩ := bind_eq_ok.1 h
    cases h
    exact representable_data (Decoder.representable_run hdata)
  · obtain ⟨data, hdata, h⟩ := bind_eq_ok.1 h
    cases h
    exact representable_data (Decoder.representable_run hdata)

/-- The frame of a port without a decoder: its text, and a warning. -/
def rawReport (t : Text) (port : Value) : Dict Value :=
  [("data", .dict [("raw", .text t)]),
    ("warnings", .list [.text (CodecError.unknownPort port).message])]

/-- **What the port map routes** is reported by a decoder, or handed out as raw text. -/
theorem route_cases {m : PortMap} {p : Payload} {port : Value} {result : Dict Value}
    (h : route m p port = .ok result) :
    (∃ (d : Decoder) (data : Dict Value), d.run p = .ok data ∧ result = report data) ∨
      ∃ t, p.toText = .ok t ∧ result = rawReport t port := by
  obtain ⟨found, -, h⟩ := bind_eq_ok.1 h
  cases found with
  | some d =>
    obtain ⟨data, hdata, h⟩ := bind_eq_ok.1 h
    cases h
    exact .inl ⟨d.decoder, data, hdata, rfl⟩
  | none =>
    simp only at h
    split at h
    · obtain ⟨t, ht, h⟩ := bind_eq_ok.1 h
      cases h
      exact .inr ⟨t, ht, rfl⟩
    · cases h

/-- The text of a frame is that of bytes, however it is handed over. -/
theorem isPlain_toText {p : Payload} {t : Text} (h : p.toText = .ok t) : t.IsPlain := by
  rw [Payload.toText_eq_map] at h
  cases hp : p.toBytes with
  | error m =>
    rw [hp] at h
    cases h
  | ok bs =>
    rw [hp] at h
    cases h
    exact Text.isPlain_ofBytes bs

theorem representable_rawReport {t : Text} (ht : t.IsPlain) (port : Int) :
    Json.Representable 5 (.dict (rawReport t (.int port))) := by
  have hprefix : Text.IsAscii "Unknown fPort: " := by decide
  have hmessage : (CodecError.unknownPort (.int port)).message.IsPlain :=
    (Text.isAscii_append hprefix (Text.isAscii_ofInt port)).isSurrogate_eq_false
  have hdata : Json.Representable 4 (.dict [("raw", .text t)]) :=
    Json.representable_entries (show (["raw"] : List Text).Nodup by decide)
      (show ∀ k ∈ (["raw"] : List Text), k.IsPlain by decide)
      (List.forall_mem_singleton.2 (.text 3 ht.unpaired))
  refine Json.representable_entries (show (["data", "warnings"] : List Text).Nodup by decide)
    (show ∀ k ∈ (["data", "warnings"] : List Text), k.IsPlain by decide) ?_
  simp only [rawReport, List.forall_mem_cons]
  exact ⟨hdata, .list (List.forall_mem_singleton.2 (.text 3 hmessage.unpaired)),
    List.forall_mem_nil _⟩

/-- **Every routed frame is handed out as a document.** -/
theorem representable_route {m : PortMap} {p : Payload} {port : Int} {result : Dict Value}
    (h : route m p (.int port) = .ok result) : Json.Representable 5 (.dict result) := by
  rcases route_cases h with ⟨d, data, hdata, rfl⟩ | ⟨t, ht, rfl⟩
  · exact representable_report (Decoder.representable_run hdata)
  · exact representable_rawReport (isPlain_toText ht) port

end Uplink

end FarmLink
