import FarmLink.Registration.Parser
import FarmLink.Form
import FarmLink.StateChange.Batch
import FarmLink.Telemetry
import FarmLink.Uplink.Acknowledgment
import FarmLink.Uplink.OtaProgress

/-!
# Decoder - what reads a frame

Each kind of frame has its decoder, named in port tables, which gives the dict form of what the
frame says. No content of a frame makes a decoder fail: it fails only if the frame is not handed
over as bytes or byte numbers.
-/

namespace FarmLink

/-- The decoders by the kinds of frames. -/
inductive Decoder
  | registration
  | telemetry
  | stateChange
  | commandAck
  | diagnostics
  | otaProgress
deriving DecidableEq, Repr

namespace Decoder

/-- All decoders. -/
def all : List Decoder :=
  [registration, telemetry, stateChange, commandAck, diagnostics, otaProgress]

/-- The name of a decoder in port tables. -/
def name : Decoder → Text
  | registration => "registration"
  | telemetry => "telemetry"
  | stateChange => "state_change"
  | commandAck => "command_ack"
  | diagnostics => "diagnostics"
  | otaProgress => "ota_progress"

/-- The decoder with a name. -/
def ofName? (t : Text) : Option Decoder := all.find? fun d => d.name == t

/-- The dict form of a frame given as text. -/
def readText (read : Text → Dict Value) (p : Payload) : Except Mismatch (Dict Value) := do
  let t ← p.toText
  return read t

/-- The dict form of a frame given as bytes. -/
def readBytes (read : Bytes → Dict Value) (p : Payload) : Except Mismatch (Dict Value) := do
  let bs ← p.toBytes
  return read bs

/-- The dict form of a frame. -/
def run : Decoder → Payload → Except Mismatch (Dict Value)
  | registration => readText fun t => (Registration.ofText t).toDict
  | telemetry => readText fun t => (Telemetry.ofText [] t).toDict
  | stateChange => readBytes StateChange.dictOfBytes
  | commandAck => readText fun t => (Acknowledgment.ofText t).toDict
  | diagnostics => readText fun t => (Telemetry.ofText Telemetry.firmwareKeys t).toDict
  | otaProgress => readBytes OtaProgress.dictOfBytes

end Decoder

end FarmLink
