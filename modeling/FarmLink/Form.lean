import FarmLink.Registration.Basic
import FarmLink.Value.Convert

/-!
# Form - the dicts in which results are handed out

Each result has one dict form with fixed keys in a fixed order. The forms are written over values
of any shape, since a caller may also describe an object by its arguments, whose kinds nobody
checks; the typed results fill them with their own values. An optional entry is left out where it
is nothing or the empty text.
-/

namespace FarmLink

/-- What a caller can describe by named arguments. -/
inductive Form
  | continuousField
  | enumeratedField
  | systemField
  | commandSpec
  | commandAck
  | otaProgress
  | registration
deriving DecidableEq, Repr

namespace Form

/-- An entry that is left out where it says nothing. -/
def optional (key : Text) (value : Value) : Dict Value :=
  if value.isPresent then [(key, value)] else []

def continuousEntries (key name unit minValue maxValue stateClass : Value) : Dict Value :=
  ([("k", key), ("n", name), ("c", .text "cont"), ("t", .text "num")] : Dict Value)
    ++ optional "u" unit ++ optional "min" minValue ++ optional "max" maxValue ++ optional "s" stateClass

def enumeratedEntries (key name : Value) (values : List Value) : Dict Value :=
  [("k", key), ("n", name), ("c", .text "state"), ("t", .text "enum"), ("v", .list values)]

def systemEntries (key name unit minValue maxValue writable stateClass : Value) : Dict Value :=
  ([("k", key), ("n", name), ("c", .text "sys"), ("t", .text "num")] : Dict Value)
    ++ optional "u" unit ++ optional "min" minValue ++ optional "max" maxValue
    ++ ([("rw", writable)] : Dict Value) ++ optional "s" stateClass

def commandEntries (key port : Value) : Dict Value := [("k", key), ("port", port)]

def ackEntries (port status : Value) : Dict Value :=
  let success := match status with
    | .text t => t == "ok"
    | _ => false
  [("port", port), ("status", status), ("success", .bool success)]

def otaEntries (status chunkIndex : Value) : Dict Value :=
  [("status", status), ("chunkIndex", chunkIndex)]

/-- Metadata with the fields and commands, which take the place of metadata of their names. -/
def registrationEntries (metadata : Dict Value) (fields commands : List Value) : Dict Value :=
  (metadata.put "fields" (.list fields)).put "cmds" (.list commands)

/-- One item of a sequence that lists the entries of a dict: a key and a value. -/
def entryOfItem (item : Value) : Except Mismatch (Text × Value) := do
  match ← item.items with
  | [.text key, value] => .ok (key, value)
  | [_, _] => .error .wrongKind
  | _ => .error .malformed

/-- The entries that a value gives for a dict: its own, or those that its items list. -/
def dictEntries : Value → Except Mismatch (Dict Value)
  | .dict entries => .ok entries
  | v => do
    let items ← v.items
    let entries ← items.mapM entryOfItem
    return Dict.ofEntries entries

/-- The names of the arguments in order, with the defaults of those that can be left out. -/
def parameters : Form → List (Text × Option Value)
  | continuousField =>
    [("key", none), ("name", none), ("unit", some .null), ("min_value", some .null),
      ("max_value", some .null), ("state_class", some .null)]
  | enumeratedField =>
    [("key", none), ("name", none), ("values", some (.list (defaultStates.map .text)))]
  | systemField =>
    [("key", none), ("name", none), ("unit", some .null), ("min_value", some .null),
      ("max_value", some .null), ("writable", some (.bool false)), ("state_class", some .null)]
  | commandSpec => [("key", none), ("port", none)]
  | commandAck => [("port", none), ("status", none)]
  | otaProgress => [("status", none), ("chunk_index", none)]
  | registration => [("metadata", some (.dict []))]

/-- The form filled with one value per parameter. -/
def fill : Form → List Value → Except Mismatch (Dict Value)
  | continuousField, [key, name, unit, minValue, maxValue, stateClass] =>
    .ok (continuousEntries key name unit minValue maxValue stateClass)
  | enumeratedField, [key, name, values] => do
    let values ← values.items
    return enumeratedEntries key name values
  | systemField, [key, name, unit, minValue, maxValue, writable, stateClass] =>
    .ok (systemEntries key name unit minValue maxValue writable stateClass)
  | commandSpec, [key, port] => .ok (commandEntries key port)
  | commandAck, [port, status] => .ok (ackEntries port status)
  | otaProgress, [status, chunkIndex] => .ok (otaEntries status chunkIndex)
  | registration, [metadata] => do
    let entries ← dictEntries metadata
    return registrationEntries entries [] []
  | _, _ => .error .wrongKind

/-- The value of a parameter: the argument of its name, else its default. -/
def argument (arguments : Dict Value) (parameter : Text × Option Value) : Except Mismatch Value :=
  match arguments.get? parameter.1, parameter.2 with
  | some v, _ => .ok v
  | none, some v => .ok v
  | none, none => .error .wrongKind

/-- The dict form of an object described by named arguments. Unknown names are refused, and so are
descriptions that leave out an argument without a default. -/
def describe (form : Form) (arguments : Dict Value) : Except Mismatch (Dict Value) := do
  let names := form.parameters.map Prod.fst
  if arguments.keys.all names.contains then
    let values ← form.parameters.mapM (argument arguments)
    fill form values
  else .error .wrongKind

end Form

namespace Value

/-- A text, or nothing. -/
def ofText? : Option Text → Value
  | none => null
  | some t => text t

/-- A double, or nothing. -/
def ofDouble? : Option Double → Value
  | none => null
  | some x => float x

end Value

namespace Field

/-- The dict form of a channel. -/
def toDict : Field → Dict Value
  | continuous f =>
    Form.continuousEntries (.text f.key) (.text f.name) (.ofText? f.unit) (.ofDouble? f.minValue)
      (.ofDouble? f.maxValue) (.ofText? f.stateClass)
  | enumerated f => Form.enumeratedEntries (.text f.key) (.text f.name) (f.values.map .text)

end Field

/-- The dict form of a parameter of the device itself. -/
def SystemField.toDict (f : SystemField) : Dict Value :=
  Form.systemEntries (.text f.key) (.text f.name) (.ofText? f.unit) (.ofDouble? f.minValue)
    (.ofDouble? f.maxValue) (.bool f.writable) (.ofText? f.stateClass)

/-- The dict form of a command. -/
def CommandSpec.toDict (c : CommandSpec) : Dict Value :=
  Form.commandEntries (.text c.key) (.int c.port)

/-- The dict form of a registration. -/
def Registration.toDict (r : Registration) : Dict Value :=
  Form.registrationEntries (r.metadata.mapValues .text) (r.fields.map fun f => .dict f.toDict)
    (r.commands.map fun c => .dict c.toDict)

end FarmLink
