import FarmLink.Proofs.PortMap.Views
import FarmLink.Proofs.Text.Latin
import FarmLink.Proofs.Uplink.Rejection
import FarmLink.Proofs.Value.Showable

/-!
# Routing - every frame of bytes comes back

No content of a frame stops the router. On a port of the map the data are what the decoder of that
port says, on any other port they are the raw text of the frame, which gives its bytes back, with
one warning. The warning names the port, so there the port must be short enough to be shown; and a
list or a dict is no port at all.
-/

namespace FarmLink.Uplink

/-! ### Ports of the map -/

theorem get?_data_report (data : Dict Value) : (report data).get? "data" = some (.dict data) := by
  unfold report
  cases errorIn data with
  | none => rfl
  | some error => rfl

/-- A report never warns. -/
theorem has_warnings_report (data : Dict Value) : (report data).has "warnings" = false := by
  unfold report
  cases errorIn data with
  | none => rfl
  | some error => rfl

section Ports

variable {m : PortMap} {port : Value} (hport : ¬ port.IsContainer) (bs : Bytes)
include hport

theorem route_of_equals {d : PortDef} (hd : d ∈ m.defs) (h : port.equals d.port = true) :
    ∃ data, d.decoder.run (.bytes bs) = .ok data ∧
      route m (.bytes bs) port = .ok (report data) := by
  obtain ⟨data, hrun, -⟩ := d.decoder.exists_run_bytes bs
  exact ⟨data, hrun, route_of_lookupKey (PortMap.lookupKey_of_equals hport hd h) hrun⟩

/-! ### Other ports -/

theorem route_of_unlisted (h : ¬ m.Lists port) (hshow : port.isShowable = true) :
    route m (.bytes bs) port = .ok [("data", .dict [("raw", .text (Text.ofBytes bs))]),
      ("warnings", .list [.text (CodecError.unknownPort port).message])] := by
  unfold route
  rw [PortMap.lookupKey_of_unlisted hport h]
  change (if port.isShowable then unrouted (.bytes bs) port else .error .tooLong) = _
  rw [if_pos hshow]
  rfl

end Ports

/-! ### The two-way rule -/

/-- The decoder by the two-way rule. -/
def twoWay (port : Value) : Decoder := if port.equals 1 then .registration else .telemetry

theorem decode_eq (p : Payload) (port : Value) :
    decode p port = (do
      let data ← (twoWay port).run p
      return [("data", .dict data)] : Except Mismatch (Dict Value)) := by
  unfold decode twoWay
  split <;> rfl

theorem decode_bytes (bs : Bytes) (port : Value) :
    ∃ data, (twoWay port).run (.bytes bs) = .ok data ∧
      decode (.bytes bs) port = .ok [("data", .dict data)] := by
  obtain ⟨data, hrun, -⟩ := (twoWay port).exists_run_bytes bs
  refine ⟨data, hrun, ?_⟩
  rw [decode_eq, hrun]
  rfl

/-- **Every frame of bytes comes back, read as its port says.**  On a port of the map the data are
those of its decoder, without a warning; on another port that can be shown they are the text of the
frame, with one warning and nothing else. The two-way rule reads every frame on every port. -/
theorem routes_every_frame (m : PortMap) (bs : Bytes) :
    (∀ port : Value, ¬ port.IsContainer →
      (∀ d ∈ m.defs, port.equals d.port = true →
        m.decoderFor port = .ok (some d.decoder) ∧
        ∃ data result, d.decoder.run (.bytes bs) = .ok data ∧
          route m (.bytes bs) port = .ok result ∧
          result.get? "data" = some (.dict data) ∧ result.has "warnings" = false) ∧
      (¬ m.Lists port → port.isShowable = true →
        ∃ t, Text.toBytes? t = some bs ∧
          route m (.bytes bs) port = .ok [("data", .dict [("raw", .text t)]),
            ("warnings", .list [.text (CodecError.unknownPort port).message])])) ∧
    ∀ port : Value, ∃ data, (twoWay port).run (.bytes bs) = .ok data ∧
      decode (.bytes bs) port = .ok [("data", .dict data)] := by
  refine ⟨?_, decode_bytes bs⟩
  intro port hport
  constructor
  · intro d hd h
    have hlookup := PortMap.lookup_of_lookupKey (PortMap.lookupKey_of_equals hport hd h)
    obtain ⟨data, hrun, hroute⟩ := route_of_equals hport bs hd h
    exact ⟨PortMap.decoderFor_of_lookup hlookup, data, report data, hrun, hroute,
      get?_data_report data, has_warnings_report data⟩
  · intro h hshow
    exact ⟨Text.ofBytes bs, Text.toBytes?_ofBytes bs, route_of_unlisted hport bs h hshow⟩

/-- Two bytes, too few for state changes. -/
theorem routes_every_frame_short :
    (∃ d ∈ PortMap.standard.defs, (Value.int 3).equals d.port = true ∧
      PortMap.standard.decoderFor (.int 3) = .ok (some d.decoder) ∧
      ∃ data result, d.decoder.run (.bytes [0x00, 0xFF]) = .ok data ∧
        route .standard (.bytes [0x00, 0xFF]) (.int 3) = .ok result ∧
        result.get? "data" = some (.dict data) ∧ result.has "warnings" = false) ∧
    ∃ t, Text.toBytes? t = some [0x00, 0xFF] ∧
      route .standard (.bytes [0x00, 0xFF]) (.int 99) = .ok [("data", .dict [("raw", .text t)]),
        ("warnings", .list [.text (CodecError.unknownPort (.int 99)).message])] := by
  obtain ⟨hroute, -⟩ := routes_every_frame .standard [0x00, 0xFF]
  have hports : ∀ d ∈ PortMap.standard.defs, (Value.int 99).equals d.port = false := by decide
  have hlisted : ∃ d ∈ PortMap.standard.defs, (Value.int 3).equals d.port = true := by decide
  refine ⟨?_, (hroute (.int 99) id).2 ?_ ?_⟩
  · obtain ⟨d, hd, h⟩ := hlisted
    exact ⟨d, hd, h, (hroute (.int 3) id).1 d hd h⟩
  · rintro ⟨d, hd, h⟩
    rw [hports d hd] at h
    cases h
  · rw [Value.isShowable_int]
    exact isShowable_of_lt (n := 99) (by decide)

end FarmLink.Uplink
