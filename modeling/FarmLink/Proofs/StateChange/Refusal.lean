import FarmLink.Proofs.StateChange.RoundTrip
import FarmLink.Proofs.Value.Showable

/-!
# Refusal - batches that cannot be packed

A batch is packed if every part of every record is a number within the bits of its place, and then
its frame is the records one behind the other, 11 bytes each. Otherwise it is refused as a whole,
and the refusal names the first part that does not fit (`Misfits`), of the first record with such a
part (`packAll_outcome`). A part fails exactly where it does not fit (`packPart_of_not_isWord`), a
record as its first such part (`pack_eq_error_iff`).
-/

namespace FarmLink

theorem byteRange_eq (width : Nat) : byteRange width = Nat.pow 2 (8 * width) :=
  (Nat.pow_mul 2 8 width).symm

namespace StateChangeDraft

/-- The parts of a draft in the order of the layout, each with its name and its bits. -/
def layout (d : StateChangeDraft) : List (Text × Nat × Value) :=
  [("control_idx", 8, d.controlIdx), ("new_state", 8, d.newState), ("old_state", 8, d.oldState),
    ("source_id", 8, d.sourceId), ("rule_id", 8, d.ruleId), ("device_ms", 32, d.deviceMs),
    ("seq", 16, d.seq)]

/-- The first part of a draft that is no number within its bits. -/
def Misfits (d : StateChangeDraft) (name : Text) (bits : Nat) (v : Value) : Prop :=
  ∃ before after, d.layout = before ++ (name, bits, v) :: after ∧
    (∀ part ∈ before, part.2.2.IsWord part.2.1) ∧ ¬ v.IsWord bits

/-- The refusal of a part. -/
def refusal (name : Text) (bits : Nat) (v : Value) : Failure :=
  (CodecError.encode (.outOfRange name bits v)).failure

/-! ### Parts -/

section Parts

variable {name : Text} {width : Nat} {v : Value}

/-- A part is packed by the number that it counts as, if there is one and it is in range. -/
theorem packPart_eq (name : Text) (width : Nat) (v : Value) :
    packPart name width v = match v.number? with
      | some n => if 0 ≤ n ∧ n.toNat < byteRange width then .ok (littleEndian width n.toNat)
        else .error (refusal name (8 * width) v)
      | none => .error (refusal name (8 * width) v) := by
  cases v <;> rfl

theorem packPart_of_isWord (h : v.IsWord (8 * width)) :
    ∃ cell, packPart name width v = .ok cell := by
  obtain ⟨n, hn, hlt⟩ := h
  rw [← byteRange_eq] at hlt
  exact ⟨_, packPart_of_number? name hn hlt⟩

theorem packPart_of_not_isWord (h : ¬ v.IsWord (8 * width)) :
    packPart name width v = .error (refusal name (8 * width) v) := by
  rw [packPart_eq]
  cases hv : v.number? with
  | none => rfl
  | some n =>
    refine if_neg fun hrange => h ⟨n.toNat, ?_, ?_⟩
    · rw [hv, Int.toNat_of_nonneg hrange.1]
    · rw [← byteRange_eq]
      exact hrange.2

end Parts

/-! ### Records -/

section Records

variable {d : StateChangeDraft} {f : Failure}

theorem fits_iff : d.Fits ↔ ∀ part ∈ d.layout, part.2.2.IsWord part.2.1 := by
  simp only [layout, List.forall_mem_cons]
  constructor
  · intro h
    exact ⟨h.controlIdx, h.newState, h.oldState, h.sourceId, h.ruleId, h.deviceMs, h.seq,
      List.forall_mem_nil _⟩
  · rintro ⟨hcontrol, hnew, hold, hsource, hrule, hclock, hseq, -⟩
    exact ⟨hcontrol, hnew, hold, hsource, hrule, hclock, hseq⟩

/-- A draft that does not fit has a first part that does not. -/
theorem exists_misfits (h : ¬ d.Fits) : ∃ name bits v, d.Misfits name bits v := by
  rw [fits_iff] at h
  obtain ⟨before, ⟨name, bits, v⟩, after, hlayout, hbefore, hv⟩ := exists_first h
  exact ⟨name, bits, v, before, after, hlayout, hbefore, hv⟩

theorem Misfits.not_fits {name : Text} {bits : Nat} {v : Value} (h : d.Misfits name bits v) :
    ¬ d.Fits := by
  obtain ⟨before, after, hlayout, -, hv⟩ := h
  rw [fits_iff, hlayout]
  exact fun hall => hv (hall _ (List.mem_append_right _ List.mem_cons_self))

/-- A part of the layout in its bytes. -/
def packCell (part : Text × Nat × Value) : Except Failure Bytes :=
  packPart part.1 (part.2.1 / 8) part.2.2

theorem pack_eq (d : StateChangeDraft) :
    pack d = (do
      let cells ← d.layout.mapM packCell
      return cells.flatten : Except Failure Bytes) := by
  have hcells : d.parts.zip widths =
      d.layout.map fun part => ((part.1, part.2.2), part.2.1 / 8) := by
    simp [parts, widths, layout]
  unfold pack
  rw [hcells, List.mapM_map]
  rfl

/-- Every part has whole bytes. -/
theorem bits_eq {part : Text × Nat × Value} (h : part ∈ d.layout) :
    8 * (part.2.1 / 8) = part.2.1 := by
  revert part
  simp [layout]

theorem packCell_of_isWord {part : Text × Nat × Value} (hpart : part ∈ d.layout)
    (h : part.2.2.IsWord part.2.1) : ∃ cell, packCell part = .ok cell := by
  rw [← bits_eq hpart] at h
  exact packPart_of_isWord h

theorem packCell_of_not_isWord {part : Text × Nat × Value} (hpart : part ∈ d.layout)
    (h : ¬ part.2.2.IsWord part.2.1) :
    packCell part = .error (refusal part.1 part.2.1 part.2.2) := by
  rw [← bits_eq hpart] at h
  have hpack : packCell part = .error (refusal part.1 (8 * (part.2.1 / 8)) part.2.2) :=
    packPart_of_not_isWord h
  rw [bits_eq hpart] at hpack
  exact hpack

/-- **The first part that does not fit fails a record.** -/
theorem pack_of_misfits {name : Text} {bits : Nat} {v : Value} (h : d.Misfits name bits v) :
    pack d = .error (refusal name bits v) := by
  obtain ⟨before, after, hlayout, hbefore, hv⟩ := h
  have hmem : ∀ part ∈ before ++ (name, bits, v) :: after, part ∈ d.layout := by
    rw [hlayout]
    exact fun _ h => h
  -- the parts in front are packed, and what stands behind the misfit is not looked at
  have hcell := packCell_of_not_isWord (hmem _ (List.mem_append_right _ List.mem_cons_self)) hv
  have hcells : ∀ part ∈ before, ∃ cell, packCell part = .ok cell := fun part hpart =>
    packCell_of_isWord (hmem _ (List.mem_append_left _ hpart)) (hbefore part hpart)
  rw [pack_eq, hlayout, mapM_eq_error after hcells hcell]
  rfl

/-- A record that fits has 11 bytes. -/
theorem exists_pack_of_fits (h : d.Fits) : ∃ cell, pack d = .ok cell ∧ cell.length = 11 := by
  obtain ⟨r, hr⟩ := h.exists_agrees
  exact ⟨r.toBytes, pack_of_agrees hr, StateChange.length_toBytes r⟩

theorem pack_eq_error_iff :
    pack d = .error f ↔ ∃ name bits v, d.Misfits name bits v ∧ f = refusal name bits v := by
  constructor
  · intro h
    have hnot : ¬ d.Fits := by
      intro hfits
      obtain ⟨cell, hcell, -⟩ := exists_pack_of_fits hfits
      rw [hcell] at h
      cases h
    obtain ⟨name, bits, v, hmisfit⟩ := exists_misfits hnot
    rw [pack_of_misfits hmisfit] at h
    exact ⟨name, bits, v, hmisfit, (Except.error.inj h).symm⟩
  · rintro ⟨name, bits, v, hmisfit, rfl⟩
    exact pack_of_misfits hmisfit

theorem exists_pack_iff : (∃ cell, pack d = .ok cell) ↔ d.Fits := by
  constructor
  · rintro ⟨cell, hcell⟩
    by_contra hnot
    obtain ⟨name, bits, v, hmisfit⟩ := exists_misfits hnot
    rw [pack_of_misfits hmisfit] at hcell
    cases hcell
  · intro h
    obtain ⟨cell, hcell, -⟩ := exists_pack_of_fits h
    exact ⟨cell, hcell⟩

end Records

/-! ### Batches -/

section Batches

variable {ds : List StateChangeDraft} {f : Failure}

/-- The first part that does not fit of the first record that does not, as an error. -/
def Culprit (ds : List StateChangeDraft) (fault : EncodeFault) : Prop :=
  ∃ before d after name bits v, ds = before ++ d :: after ∧ (∀ e ∈ before, e.Fits) ∧
    d.Misfits name bits v ∧ fault = .outOfRange name bits v

/-- What can be shown of a record can be shown in its refusal. -/
theorem Misfits.refusal_eq {d : StateChangeDraft} {name : Text} {bits : Nat} {v : Value}
    (h : d.Misfits name bits v) (hshow : (Value.dict d.parts).isShowable = true) :
    refusal name bits v = .codec (.encode (.outOfRange name bits v)) := by
  obtain ⟨before, after, hlayout, -, -⟩ := h
  have hparts : d.parts = d.layout.map fun part => (part.1, part.2.2) := rfl
  have hmem : (name, v) ∈ d.parts := by
    rw [hparts, hlayout]
    exact List.mem_map_of_mem (List.mem_append_right _ List.mem_cons_self)
  exact if_pos (Value.isShowable_dict_iff.1 hshow _ hmem)

theorem packAll_eq_error_iff :
    packAll ds = .error f ↔ ∃ before d after, ds = before ++ d :: after ∧
      (∀ e ∈ before, e.Fits) ∧ pack d = .error f := by
  have hcells : packAll ds = (ds.mapM pack).map List.flatten := rfl
  rw [hcells, map_eq_error, mapM_eq_error_iff]
  simp only [exists_pack_iff]

/-- A batch fails as its first part that does not fit. -/
theorem packAll_eq_error_iff_culprit
    (hshow : ∀ d ∈ ds, (Value.dict d.parts).isShowable = true) :
    packAll ds = .error f ↔ ∃ fault, Culprit ds fault ∧ f = .codec (.encode fault) := by
  rw [packAll_eq_error_iff]
  constructor
  · rintro ⟨before, d, after, rfl, hbefore, hd⟩
    obtain ⟨name, bits, v, hmisfit, rfl⟩ := pack_eq_error_iff.1 hd
    have hd := hshow d (List.mem_append_right _ List.mem_cons_self)
    exact ⟨_, ⟨before, d, after, name, bits, v, rfl, hbefore, hmisfit, rfl⟩,
      hmisfit.refusal_eq hd⟩
  · rintro ⟨_, ⟨before, d, after, name, bits, v, rfl, hbefore, hmisfit, rfl⟩, rfl⟩
    have hd := hshow d (List.mem_append_right _ List.mem_cons_self)
    refine ⟨before, d, after, rfl, hbefore, ?_⟩
    rw [pack_of_misfits hmisfit, hmisfit.refusal_eq hd]

/-- A batch with a record that does not fit has a culprit, and no other batch has one. -/
theorem exists_culprit_iff : (∃ fault, Culprit ds fault) ↔ ∃ d ∈ ds, ¬ d.Fits := by
  constructor
  · rintro ⟨_, before, d, after, name, bits, v, rfl, -, hmisfit, -⟩
    exact ⟨d, List.mem_append_right _ List.mem_cons_self, hmisfit.not_fits⟩
  · rintro ⟨d, hd, hnot⟩
    obtain ⟨before, e, after, rfl, hbefore, he⟩ := exists_first fun hall => hnot (hall d hd)
    obtain ⟨name, bits, v, hmisfit⟩ := exists_misfits he
    exact ⟨_, before, e, after, name, bits, v, rfl, hbefore, hmisfit, rfl⟩

theorem packAll_singleton {d : StateChangeDraft} {cell : Bytes} (h : pack d = .ok cell) :
    packAll [d] = .ok cell := by
  unfold packAll
  rw [List.mapM_cons, h]
  exact congrArg Except.ok (List.append_nil cell)

/-- Records that fit are packed one behind the other, each as it is packed alone. -/
theorem exists_cells (h : ∀ d ∈ ds, d.Fits) :
    ∃ cells, List.Forall₂ (fun d cell => packAll [d] = .ok cell ∧ cell.length = 11) ds cells ∧
      packAll ds = .ok cells.flatten ∧ cells.flatten.length = 11 * ds.length := by
  obtain ⟨rs, hrs⟩ := exists_forall₂_agrees h
  refine ⟨rs.map StateChange.toBytes, ?_, ?_, ?_⟩
  · rw [List.forall₂_map_right_iff]
    exact hrs.imp fun d r hd =>
      ⟨packAll_singleton (pack_of_agrees hd), StateChange.length_toBytes r⟩
  · rw [← List.flatMap_def]
    exact packAll_of_agrees hrs
  · rw [← List.flatMap_def, StateChange.length_flatMap_toBytes, hrs.length_eq]

/-- **Exactly the batches that do not fit are refused, and the first culprit is named.**  A batch
in which all parts fit has 11 bytes per record, and they are those of its records alone. -/
theorem packAll_outcome (hshow : ∀ d ∈ ds, (Value.dict d.parts).isShowable = true) :
    ((∃ fault, packAll ds = .error (.codec (.encode fault))) ↔ ∃ d ∈ ds, ¬ d.Fits) ∧
    (∀ f, packAll ds = .error f ↔ ∃ fault, Culprit ds fault ∧ f = .codec (.encode fault)) ∧
    ((∀ d ∈ ds, d.Fits) →
      ∃ cells, List.Forall₂ (fun d cell => packAll [d] = .ok cell ∧ cell.length = 11) ds cells ∧
        packAll ds = .ok cells.flatten ∧ cells.flatten.length = 11 * ds.length) := by
  have herror := fun f => packAll_eq_error_iff_culprit (f := f) hshow
  refine ⟨?_, herror, exists_cells⟩
  rw [← exists_culprit_iff]
  constructor
  · rintro ⟨fault, hfault⟩
    obtain ⟨culprit, hculprit, -⟩ := (herror _).1 hfault
    exact ⟨culprit, hculprit⟩
  · rintro ⟨fault, hfault⟩
    exact ⟨fault, (herror _).2 ⟨fault, hfault, rfl⟩⟩

/-- A draft with a state of nine bits, and with a text for the sequence number. -/
def wideDraft : StateChangeDraft :=
  { StateChange.extremeDraft with newState := .int 256, seq := .text "x" }

/-- The wide state is told: not the sequence number behind it, nor the control missing in the next
record.  The record in front of it is packed alone. -/
theorem packAll_outcome_wide :
    (∀ d ∈ [StateChange.extremeDraft, wideDraft, { wideDraft with controlIdx := .null }],
      (Value.dict d.parts).isShowable = true) ∧
    packAll [StateChange.extremeDraft, wideDraft, { wideDraft with controlIdx := .null }] =
      .error (.codec (.encode (.outOfRange "new_state" 8 (.int 256)))) ∧
    (∀ d ∈ [StateChange.extremeDraft], (Value.dict d.parts).isShowable = true) ∧
    (∀ d ∈ [StateChange.extremeDraft], d.Fits) ∧
    ∃ cell, packAll [StateChange.extremeDraft] = .ok cell ∧ cell.length = 11 := by
  have hextreme : StateChange.extremeDraft.Fits :=
    exists_pack_iff.1 ⟨[1, 0, 255, 77, 3, 255, 255, 255, 255, 255, 255], rfl⟩
  have hwide : wideDraft.Misfits "new_state" 8 (.int 256) := by
    refine ⟨[("control_idx", 8, .bool true)], _, rfl, ?_, ?_⟩
    · intro part hpart
      rw [List.mem_singleton.1 hpart]
      exact ⟨1, rfl, by decide⟩
    · rintro ⟨n, hn, hlt⟩
      cases hn
      exact absurd hlt (by decide)
  have hculprit : Culprit [StateChange.extremeDraft, wideDraft,
      { wideDraft with controlIdx := .null }] (.outOfRange "new_state" 8 (.int 256)) :=
    ⟨[StateChange.extremeDraft], wideDraft, _, _, _, _, rfl,
      List.forall_mem_singleton.2 hextreme, hwide, rfl⟩
  have hshow : ∀ d ∈ [StateChange.extremeDraft, wideDraft, { wideDraft with controlIdx := .null }],
      (Value.dict d.parts).isShowable = true := by
    decide +kernel
  have hfits : ∀ d ∈ [StateChange.extremeDraft], d.Fits := List.forall_mem_singleton.2 hextreme
  have halone : ∀ d ∈ [StateChange.extremeDraft], (Value.dict d.parts).isShowable = true :=
    List.forall_mem_singleton.2 (hshow _ List.mem_cons_self)
  obtain ⟨cells, hcells, -, -⟩ := (packAll_outcome halone).2.2 hfits
  obtain ⟨cell, -, hcell⟩ := exists_mem_of_forall₂ hcells _ List.mem_cons_self
  exact ⟨hshow, ((packAll_outcome hshow).2.1 _).2 ⟨_, hculprit, rfl⟩, halone, hfits, cell, hcell⟩

end Batches

end StateChangeDraft

end FarmLink
