import FarmLink.PortMap.Table
import FarmLink.Proofs.Registration.Metadata
import FarmLink.Proofs.StateChange.RoundTrip
import FarmLink.Proofs.Telemetry.Readings
import FarmLink.Uplink.Route

/-!
# Rejection - errors beside the data of a frame

The router tells a rejected frame by an entry `error` in its data. Two decoders put it there: for a
batch of a wrong length and for progress in too few bytes. But registrations, telemetry and
diagnostics hold keys that the device chose, and a device may choose that one, so `has_errors_iff`
has two cases on its right: the frame is rejected, or it imitates a rejection. Each decoder has one
lemma that says when its data hold the entry.
-/

namespace FarmLink

/-! ### Frames that are rejected, and frames that look so -/

namespace Decoder

/-- A frame that its decoder rejects. -/
def Rejects : Decoder → Bytes → Prop
  | stateChange, bs => bs.length = 0 ∨ bs.length % 11 ≠ 0
  | otaProgress, bs => bs.length < 3
  | _, _ => False

/-- A frame in which the device itself names something `error`: metadata or a reading. -/
def Imitates : Decoder → Bytes → Prop
  | registration, bs =>
    ∃ value, "error" ++ ('=' : CodePoint) :: value ∈ Text.split '|' (Text.ofBytes bs)
  | telemetry, bs =>
    ∃ value, "error" ++ (':' : CodePoint) :: value ∈ Text.split ',' (Text.ofBytes bs) ∧
      (':' : CodePoint) ∉ value
  | diagnostics, bs =>
    ∃ value, "error" ++ (':' : CodePoint) :: value ∈ Text.split ',' (Text.ofBytes bs) ∧
      (':' : CodePoint) ∉ value
  | _, _ => False

end Decoder

/-! ### The entry `error` in decoded data -/

theorem Registration.has_error_toDict {t : Text} :
    (ofText t).toDict.has "error" = true ↔
      ∃ value, "error" ++ ('=' : CodePoint) :: value ∈ Text.split '|' t := by
  have hmetadata : (ofText t).toDict.has "error" = true ↔
      (ofText t).metadata.has "error" = true := by
    unfold toDict Form.registrationEntries
    rw [Dict.has_put, Dict.has_put, Dict.has_iff, Dict.keys_mapValues, ← Dict.has_iff]
    constructor
    · rintro (h | h | h)
      · exact absurd h (by decide)
      · exact absurd h (by decide)
      · exact h
    · exact fun h => .inr (.inr h)
  rw [hmetadata, has_metadata_ofText]
  constructor
  · rintro ⟨value, hs, -⟩
    exact ⟨value, hs⟩
  · rintro ⟨value, hs⟩
    exact ⟨value, hs, by decide, by decide, by decide⟩

theorem Telemetry.has_error_toDict {keepText : List Text} {t : Text} :
    (Telemetry.toDict (ofText keepText t)).has "error" = true ↔
      ∃ value, "error" ++ (':' : CodePoint) :: value ∈ Text.split ',' t ∧
        (':' : CodePoint) ∉ value := by
  unfold toDict
  rw [Dict.has_iff, Dict.keys_mapValues, ← Dict.has_iff, has_ofText]
  constructor
  · rintro ⟨value, htoken, -, hvalue⟩
    exact ⟨value, htoken, hvalue⟩
  · rintro ⟨value, htoken, hvalue⟩
    exact ⟨value, htoken, by decide, hvalue⟩

theorem StateChange.has_error_dictOfBytes {bs : Bytes} :
    (dictOfBytes bs).has "error" = true ↔ bs.length = 0 ∨ bs.length % 11 ≠ 0 := by
  unfold dictOfBytes
  by_cases h : isBatch bs = true
  · rw [if_pos h]
    have hbatch := isBatch_iff.1 h
    constructor
    · intro herror
      cases herror
    · intro hlength
      omega
  · rw [if_neg h]
    have hbatch := mt isBatch_iff.2 h
    refine ⟨fun _ => ?_, fun _ => rfl⟩
    omega

theorem OtaProgress.has_error_dictOfBytes {bs : Bytes} :
    (dictOfBytes bs).has "error" = true ↔ bs.length < 3 := by
  match bs with
  | [] | [_] | [_, _] =>
    refine ⟨fun _ => ?_, fun _ => rfl⟩
    simp only [List.length_cons, List.length_nil]
    omega
  | _ :: _ :: _ :: rest =>
    constructor
    · intro herror
      cases herror
    · intro hlength
      simp only [List.length_cons] at hlength
      omega

theorem Acknowledgment.has_error_toDict (ack : Acknowledgment) :
    ack.toDict.has "error" = false := rfl

namespace Decoder

/-- **When the data of a frame hold an error.**  Every decoder reads every frame of bytes; an
entry `error` is there where the frame is rejected or the device named it. -/
theorem exists_run_bytes (d : Decoder) (bs : Bytes) :
    ∃ data, d.run (.bytes bs) = .ok data ∧
      (data.has "error" = true ↔ d.Rejects bs ∨ d.Imitates bs) := by
  cases d with
  | registration =>
    refine ⟨_, rfl, ?_⟩
    rw [Registration.has_error_toDict]
    simp only [Rejects, Imitates, false_or]
  | telemetry =>
    refine ⟨_, rfl, ?_⟩
    rw [Telemetry.has_error_toDict]
    simp only [Rejects, Imitates, false_or]
  | stateChange =>
    refine ⟨_, rfl, ?_⟩
    rw [StateChange.has_error_dictOfBytes]
    simp only [Rejects, Imitates, or_false]
  | commandAck =>
    refine ⟨_, rfl, ?_⟩
    rw [Acknowledgment.has_error_toDict]
    simp only [Rejects, Imitates, Bool.false_eq_true, or_false]
  | diagnostics =>
    refine ⟨_, rfl, ?_⟩
    rw [Telemetry.has_error_toDict]
    simp only [Rejects, Imitates, false_or]
  | otaProgress =>
    refine ⟨_, rfl, ?_⟩
    rw [OtaProgress.has_error_dictOfBytes]
    simp only [Rejects, Imitates, or_false]

end Decoder

/-! ### The report of the router -/

namespace Uplink

theorem errorIn_isSome {data : Dict Value} : (errorIn data).isSome = data.has "error" := by
  unfold errorIn Dict.has
  rw [Option.isSome_map]

/-- A report has errors where the data hold one. -/
theorem has_errors_report {data : Dict Value} :
    (report data).has "errors" = true ↔ data.has "error" = true := by
  rw [← errorIn_isSome]
  unfold report
  cases errorIn data with
  | none =>
    constructor
    · intro h
      cases h
    · intro h
      cases h
  | some error => exact ⟨fun _ => rfl, fun _ => rfl⟩

theorem route_of_lookupKey {m : PortMap} {port : Value} {d : PortDef} {bs : Bytes}
    {data : Dict Value} (hport : m.lookupKey port = .ok (some d))
    (hrun : d.decoder.run (.bytes bs) = .ok data) :
    route m (.bytes bs) port = .ok (report data) := by
  unfold route
  rw [hport]
  change (d.decoder.run (.bytes bs) >>= fun data => pure (report data)) = _
  rw [hrun]
  rfl

/-- **When the router reports errors.**  On a port of the map, a frame of bytes comes back with
errors exactly where its decoder rejects it or the device itself named an `error` in it. -/
theorem has_errors_iff {m : PortMap} {port : Value} {d : PortDef}
    (hport : m.lookupKey port = .ok (some d)) (bs : Bytes) :
    ∃ result, route m (.bytes bs) port = .ok result ∧
      (result.has "errors" = true ↔ d.decoder.Rejects bs ∨ d.decoder.Imitates bs) := by
  obtain ⟨data, hrun, herror⟩ := d.decoder.exists_run_bytes bs
  exact ⟨report data, route_of_lookupKey hport hrun, has_errors_report.trans herror⟩

/-- The frame `error:1`, a reading like any other. -/
def errorReading : Bytes := [0x65, 0x72, 0x72, 0x6F, 0x72, 0x3A, 0x31]

/-- The standard map reads port 2 as telemetry. -/
theorem exists_readingsPort :
    ∃ d, PortMap.standard.lookupKey (.int 2) = .ok (some d) ∧ d.decoder = .telemetry :=
  ⟨_, rfl, rfl⟩

theorem has_errors_iff_errorReading :
    ∃ d, PortMap.standard.lookupKey (.int 2) = .ok (some d) ∧
      ∃ result, route .standard (.bytes errorReading) (.int 2) = .ok result ∧
        (result.has "errors" = true ↔
          d.decoder.Rejects errorReading ∨ d.decoder.Imitates errorReading) := by
  obtain ⟨d, hport, -⟩ := exists_readingsPort
  exact ⟨d, hport, has_errors_iff hport errorReading⟩

/-- **Errors are reported for frames that no decoder rejects.** -/
theorem errors_without_rejection :
    ¬ ∀ (m : PortMap) (port : Value) (d : PortDef) (bs : Bytes) (result : Dict Value),
      m.lookupKey port = .ok (some d) → route m (.bytes bs) port = .ok result →
      (result.has "errors" = true ↔ d.decoder.Rejects bs) := by
  intro hall
  obtain ⟨d, hport, hdecoder⟩ := exists_readingsPort
  have hroute : route .standard (.bytes errorReading) (.int 2) =
      .ok [("data", .dict [("error", .float (.ofBits 0x3FF0000000000000))]),
        ("errors", .list [.float (.ofBits 0x3FF0000000000000)])] := by
    decide +kernel
  have hrejects : d.decoder.Rejects errorReading := (hall _ _ _ _ _ hport hroute).1 rfl
  rw [hdecoder] at hrejects
  exact hrejects

end Uplink

end FarmLink
