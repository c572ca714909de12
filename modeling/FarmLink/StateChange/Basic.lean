import FarmLink.Value.Basic

/-!
# StateChange - one change of a control's state

A device reports each change with the states before and after, what triggered it, the rule if one
did, the device's clock and a sequence number. Trigger numbers without a meaning are kept as they
are and named unknown.
-/

namespace FarmLink

/-- What made a control change its state. -/
inductive TriggerSource
  | unknown
  | boot
  | rule
  | manual
  | downlink
deriving DecidableEq, Repr

namespace TriggerSource

/-- The meaning of a trigger number. -/
def ofNumber? : Option Int → TriggerSource
  | some 0 => boot
  | some 1 => rule
  | some 2 => manual
  | some 3 => downlink
  | _ => unknown

def name : TriggerSource → Text
  | unknown => "UNKNOWN"
  | boot => "BOOT"
  | rule => "RULE"
  | manual => "MANUAL"
  | downlink => "DOWNLINK"

end TriggerSource

/-- One change of a control's state. -/
structure StateChange where
  controlIdx : UInt8
  newState : UInt8
  oldState : UInt8
  sourceId : UInt8
  ruleId : UInt8
  deviceMs : UInt32
  seq : UInt16
deriving DecidableEq, Repr

/-- A change whose parts may be values of any shape. -/
structure StateChangeDraft where
  controlIdx : Value
  newState : Value
  oldState : Value
  sourceId : Value
  ruleId : Value
  deviceMs : Value
  seq : Value
deriving DecidableEq

namespace StateChangeDraft

/-- A draft from its parts in the order of the layout. -/
def ofParts? : List Value → Option StateChangeDraft
  | [controlIdx, newState, oldState, sourceId, ruleId, deviceMs, seq] =>
    some ⟨controlIdx, newState, oldState, sourceId, ruleId, deviceMs, seq⟩
  | _ => none

/-- The parts of a draft by name. -/
def parts (d : StateChangeDraft) : Dict Value :=
  [("control_idx", d.controlIdx), ("new_state", d.newState), ("old_state", d.oldState),
    ("source_id", d.sourceId), ("rule_id", d.ruleId), ("device_ms", d.deviceMs), ("seq", d.seq)]

/-- What triggered the change. -/
def source (d : StateChangeDraft) : TriggerSource := .ofNumber? d.sourceId.whole?

/-- The dict form of a draft: its parts, and the name of the trigger before its number. -/
def toDict (d : StateChangeDraft) : Dict Value :=
  [("control_idx", d.controlIdx), ("new_state", d.newState), ("old_state", d.oldState),
    ("source", .text d.source.name), ("source_id", d.sourceId), ("rule_id", d.ruleId),
    ("device_ms", d.deviceMs), ("seq", d.seq)]

end StateChangeDraft

namespace StateChange

/-- A change as a draft. -/
def toDraft (r : StateChange) : StateChangeDraft where
  controlIdx := .int r.controlIdx.toNat
  newState := .int r.newState.toNat
  oldState := .int r.oldState.toNat
  sourceId := .int r.sourceId.toNat
  ruleId := .int r.ruleId.toNat
  deviceMs := .int r.deviceMs.toNat
  seq := .int r.seq.toNat

end StateChange

end FarmLink
