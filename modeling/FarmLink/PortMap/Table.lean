import FarmLink.Json.Reader
import FarmLink.PortMap.Basic
import FarmLink.Text.Utf8

/-!
# Table - port maps from data

A port table is a list of entries, each a dict with a port, the name of a decoder and perhaps a
description, or a dict that holds such a list under `entries`. Items that are no dicts are passed
over; a dict that is no proper entry, or defines a port a second time, refuses the table.
-/

namespace FarmLink

namespace PortDef

/-- Whether a value is a number of an application port, doubles by their value. Other kinds cannot
be compared with numbers. -/
def inRange : Value → Except Mismatch Bool
  | .bool b => .ok b
  | .int n => .ok (firstPort ≤ n && n ≤ lastPort)
  | .float x =>
    .ok (!x.negative && x.isFinite && firstPort * Double.unitsPerOne ≤ x.units
      && x.units ≤ lastPort * Double.unitsPerOne)
  | _ => .error .wrongKind

/-- The dict form of a definition by positional arguments: port, decoder, and perhaps a
description. Only the port is checked. -/
def describe (arguments : List Value) : Except Failure (Dict Value) :=
  let build (port decoder description : Value) : Except Failure (Dict Value) :=
    match inRange port with
    | .error m => .error (.mismatch m)
    | .ok false => .error (TableFault.portRange port).failure
    | .ok true => .ok [("port", port), ("decoder", decoder), ("description", description)]
  match arguments with
  | [port, decoder] => build port decoder .null
  | [port, decoder, description] => build port decoder description
  | _ => .error (.mismatch .wrongKind)

/-- The port of an entry as a whole number. A port of the wrong kind is an error of the entry, one
that is no number fails as such. -/
def portOf (entry : Dict Value) : Except Failure Int :=
  match entry.get? "port" with
  | none => .error (TableFault.missing "port" (.dict entry)).failure
  | some v =>
    match v.toInt with
    | .ok n => .ok n
    | .error .wrongKind => .error (TableFault.portKind (.dict entry)).failure
    | .error m => .error (.mismatch m)

/-- The decoder of an entry. A list or a dict cannot be looked up among the names. -/
def decoderOf (entry : Dict Value) (port : Int) : Except Failure Decoder :=
  match entry.get? "decoder" with
  | none => .error (TableFault.missing "decoder" (.dict entry)).failure
  | some v =>
    match v.key with
    | .error m => .error (.mismatch m)
    | .ok _ =>
      let found := match v with
        | .text name => Decoder.ofName? name
        | _ => none
      match found with
      | some decoder => .ok decoder
      | none => .error (TableFault.unknownDecoder v port).failure

/-- The description of an entry, if it is a text. -/
def descriptionOf (entry : Dict Value) : Option Text :=
  match entry.get? "description" with
  | some (.text t) => some t
  | _ => none

/-- The definition that an entry gives. -/
def ofEntry (entry : Dict Value) : Except Failure PortDef := do
  let port ← portOf entry
  let decoder ← decoderOf entry port
  if h : firstPort ≤ port ∧ port ≤ lastPort then
    return {
      port := port.toNat, decoder, description := descriptionOf entry
      port_mem := by omega }
  else .error (TableFault.portRange (.int port)).failure

end PortDef

namespace PortMap

/-- A map with the definition of one more item of a table. -/
def addItem (m : PortMap) : Value → Except Failure PortMap
  | .dict entry => do
    let d ← PortDef.ofEntry entry
    if new : m.find? d.port = none then return m.insert d new
    else .error (TableFault.duplicate d.port).failure
  | _ => .ok m

/-- The map of a table's items. -/
def ofItems (items : List Value) : Except Failure PortMap := items.foldlM addItem {}

/-- The map of a table given as a value. -/
def ofTable (table : Value) : Except Failure PortMap :=
  match table.items with
  | .error m => .error (.mismatch m)
  | .ok items => ofItems items

/-- The table in a document: the document itself if it is a list, else what a dict holds under
`entries`, else an empty one. -/
def tableOf : Value → Value
  | .list items => .list items
  | .dict entries => (Dict.get? entries "entries").getD (.list [])
  | _ => .list []

/-- The map of a document, read where the stack leaves room for a depth. -/
def ofDocument (t : Text) (depth : Nat := Json.depthLimit) : Except Failure PortMap :=
  match Json.read t depth with
  | .error flaw => .error flaw.failure
  | .ok v => ofTable (tableOf v)

/-- The map of a file. -/
def ofFile (bs : Bytes) (depth : Nat := Json.depthLimit) : Except Failure PortMap :=
  match Text.ofUtf8? bs with
  | none => .error .malformedFile
  | some t => ofDocument t depth

/-- The map of the ports that devices use unless told otherwise. -/
def standard : PortMap where
  defs := [
    { port := 1, decoder := .registration
      description := some "Device registration (schema, states, commands)" },
    { port := 2, decoder := .telemetry, description := some "Periodic sensor readings" },
    { port := 3, decoder := .stateChange, description := some "Control state changes, 11-byte records" },
    { port := 4, decoder := .commandAck, description := some "Downlink command acknowledgment" },
    { port := 6, decoder := .diagnostics, description := some "Device status and diagnostics" },
    { port := 8, decoder := .otaProgress, description := some "OTA transfer progress" }]

/-- The map of a table that a caller gives in place of the standard one; nothing leaves that. -/
def ofOverride : Value → Except Failure PortMap
  | .null => .ok standard
  | table => ofTable table

end PortMap

end FarmLink
