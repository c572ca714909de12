import FarmLink.Downlink.Rule

/-!
# Downlink - commands from the server to a device

The port decides what a command is: five ports have a layout of their own, any other one passes
the bytes of the command through.
-/

namespace FarmLink

/-- A frame for a device and the port that carries it. -/
structure Downlink where
  bytes : Bytes
  port : Value
deriving DecidableEq

namespace Downlink

/-- The reporting interval in seconds, four bytes, highest first; nothing where none is given. -/
def interval (data : Dict Value) : Except Failure Bytes :=
  if (data.value "interval").isTruthy then do
    let seconds ← natural data "interval" 4 0
    return bigEndian 4 seconds
  else .ok []

/-- The seconds after which the display turns off, two bytes, highest first. -/
def displayTimeout (data : Dict Value) : Except Failure Bytes := do
  let seconds ← natural data "timeout_sec" 2 0
  return bigEndian 2 seconds

/-- A control set by hand: control, state, whether it stays manual, and for how many seconds, four
bytes, lowest first. -/
def directControl (data : Dict Value) : Except Failure Bytes := do
  let control ← natural data "control_idx" 1 0
  let state ← natural data "state_idx" 1 0
  let seconds ← natural data "timeout_sec" 4 0
  let manual := if (data.value "is_manual").isTruthy then 1 else 0
  return littleEndian 1 control ++ littleEndian 1 state ++ littleEndian 1 manual
    ++ littleEndian 4 seconds

/-- A command that manages rules. -/
def ruleUpdate (data : Dict Value) : Except Failure Bytes := do
  let command ← RuleCommand.ofDict data
  return command.toBytes

/-- Numbers as bytes, if all of them are byte numbers. -/
def bytesOfInts? (ns : List Int) : Option Bytes :=
  ns.mapM fun n => if 0 ≤ n ∧ n ≤ 0xFF then some (UInt8.ofNat n.toNat) else none

/-- The bytes that a command gives itself. A number too large to be a whole one fails as such, any
other wrong kind as an error of the command. -/
def passThrough (data : Dict Value) : Except Failure Bytes :=
  let raw := (data.value "bytes").orElse (.list [])
  let ints := do
    let items ← raw.items
    items.mapM Value.toInt
  match ints with
  | .error .tooLarge => .error (.mismatch .tooLarge)
  | .error _ => refuse (.passThroughKind raw)
  | .ok ns =>
    match bytesOfInts? ns with
    | none => refuse (.passThroughRange raw)
    | some bs => .ok bs

/-- The bytes of a command for a port. -/
def payload (data : Dict Value) (port : Option Int) : Except Failure Bytes :=
  match port with
  | some 5 => .ok [0x01]
  | some 11 => interval data
  | some 16 => displayTimeout data
  | some 20 => directControl data
  | some 30 => ruleUpdate data
  | _ => passThrough data

/-- Encodes a command for a port, which may also stand in the command. -/
def encode (data : Dict Value) (port : Value) : Except Failure Downlink :=
  let port := port.orElse (data.value "fPort")
  if port.isNull then refuse .noPort
  else
    match port.key with
    | .error m => .error (.mismatch m)
    | .ok key => do
      let bytes ← payload data key
      return { bytes, port }

/-- The dict form of an encoded command. -/
def toDict (d : Downlink) : Dict Value :=
  [("bytes", .list (d.bytes.map fun b => .int b.toNat)), ("fPort", d.port)]

end Downlink

end FarmLink
