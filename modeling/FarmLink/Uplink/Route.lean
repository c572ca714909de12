import FarmLink.PortMap.Basic

/-!
# Route - frames from devices by their port

`Uplink.route` reads a frame by the decoder that a port map gives for its port. A frame of an
unknown port comes back as raw text with a warning; a frame that its decoder rejects, which it
tells by an entry `error`, comes back with that error beside the data. `Uplink.decode` knows two
kinds of frames only, registrations on port 1 and telemetry on all others.
-/

namespace FarmLink.Uplink

/-- Reads a frame by the two-way rule. -/
def decode (p : Payload) (port : Value) : Except Mismatch (Dict Value) := do
  let data ← if port.equals 1 then Decoder.registration.run p else Decoder.telemetry.run p
  return [("data", .dict data)]

/-- The error that decoded data tell of: the details where there are some. -/
def errorIn (data : Dict Value) : Option Value :=
  (data.get? "error").map fun error => (data.value "detail").orElse error

/-- Decoded data with the error that they tell of. -/
def report (data : Dict Value) : Dict Value :=
  match errorIn data with
  | none => [("data", .dict data)]
  | some error => [("data", .dict data), ("errors", .list [error])]

/-- A frame of a port without a decoder. -/
def unrouted (p : Payload) (port : Value) : Except Mismatch (Dict Value) := do
  let t ← p.toText
  return [("data", .dict [("raw", .text t)]),
    ("warnings", .list [.text (CodecError.unknownPort port).message])]

/-- Reads a frame by a port map. -/
def route (m : PortMap) (p : Payload) (port : Value) : Except Mismatch (Dict Value) := do
  match ← m.lookupKey port with
  | some d =>
    let data ← d.decoder.run p
    return report data
  | none => if port.isShowable then unrouted p port else .error .tooLong

end FarmLink.Uplink
