import FarmLink.Binary.Single
import FarmLink.Binary.Words
import FarmLink.Failure
import FarmLink.Text.Latin

/-!
# Rule - commands that manage a device's rules

A command clears all rules, deletes one, or adds or changes one. The three forms take 2, 2 and 12
bytes. Commands come as dicts in which anything may be missing or of the wrong kind, so each part
is checked when its turn comes in the layout.
-/

namespace FarmLink

namespace Downlink

/-- The error about a command. -/
def refuse {α : Type} (fault : EncodeFault) : Except Failure α :=
  .error (CodecError.encode fault).failure

/-- A whole number of a command that fits a number of bytes; a truth value is none. Where the
command holds nothing, the default is taken. -/
def natural (data : Dict Value) (name : Text) (width default : Nat) : Except Failure Nat :=
  match data.value name with
  | .null => .ok default
  | .int n =>
    if 0 ≤ n ∧ n.toNat < byteRange width then .ok n.toNat
    else refuse (.outOfRange name (8 * width) (.int n))
  | v => refuse (.notInteger name v)

end Downlink

/-- A comparison of a rule. -/
inductive RuleOperator
  | less
  | greater
  | lessEqual
  | greaterEqual
  | equal
  | notEqual
deriving DecidableEq, Repr

namespace RuleOperator

/-- The comparison that a text names. -/
def ofText? (t : Text) : Option RuleOperator :=
  if t = "<" then some less
  else if t = ">" then some greater
  else if t = "<=" then some lessEqual
  else if t = ">=" then some greaterEqual
  else if t = "==" then some equal
  else if t = "!=" then some notEqual
  else none

/-- The comparison with a number. -/
def ofCode? : Nat → Option RuleOperator
  | 0 => some less
  | 1 => some greater
  | 2 => some lessEqual
  | 3 => some greaterEqual
  | 4 => some equal
  | 5 => some notEqual
  | _ => none

/-- The number of a comparison in a rule. -/
def code : RuleOperator → Nat
  | less => 0
  | greater => 1
  | lessEqual => 2
  | greaterEqual => 3
  | equal => 4
  | notEqual => 5

end RuleOperator

/-- A rule as a device keeps it; the threshold by its single precision bits. -/
structure Rule where
  ruleId : Nat
  enabled : Bool
  operator : RuleOperator
  fieldIdx : Nat
  threshold : Nat
  controlIdx : Nat
  actionState : Nat
  cooldownSec : Nat
  priority : Nat
deriving DecidableEq, Repr

/-- A command that manages rules. -/
inductive RuleCommand
  | clearAll
  | delete (ruleId : Nat)
  | update (rule : Rule)
deriving DecidableEq, Repr

namespace Rule

/-- The seconds between two actions of a rule that names none. -/
def defaultCooldown : Nat := 300

/-- The priority of a rule that names none. -/
def defaultPriority : Nat := 128

/-- A number, or another one in place of zero. -/
def orElse (n other : Nat) : Nat := if n = 0 then other else n

/-- The comparison of a command: the first one where none or an unknown one is named. -/
def operatorOf (data : Dict Value) : Except Failure RuleOperator :=
  match (data.value "operator").orElse (.text "<") with
  | .text t => .ok ((RuleOperator.ofText? t).getD .less)
  | v => Downlink.refuse (.operatorKind v)

/-- The single precision bits of the threshold of a command, zero where it says nothing. -/
def thresholdOf (data : Dict Value) : Except Failure Nat :=
  let v := (data.value "threshold").orElse (.int 0)
  match v.toDouble with
  | .error _ => Downlink.refuse (.threshold v)
  | .ok x =>
    match x.toSingleBits? with
    | none => Downlink.refuse (.threshold v)
    | some bits => .ok bits

/-- Whether the rule of a command is enabled: it is unless the command says false. -/
def enabledOf (data : Dict Value) : Bool :=
  match data.value "enabled" with
  | .bool false => false
  | _ => true

/-- The rule of a command. -/
def ofDict (data : Dict Value) : Except Failure Rule := do
  let operator ← operatorOf data
  let threshold ← thresholdOf data
  let ruleId ← Downlink.natural data "rule_id" 1 0
  let fieldIdx ← Downlink.natural data "field_idx" 1 0
  let controlIdx ← Downlink.natural data "control_idx" 1 0
  let actionState ← Downlink.natural data "action_state" 1 0
  let cooldown ← Downlink.natural data "cooldown_sec" 2 defaultCooldown
  let priority ← Downlink.natural data "priority" 1 defaultPriority
  return {
    ruleId, enabled := enabledOf data, operator, fieldIdx, threshold, controlIdx, actionState
    cooldownSec := orElse cooldown defaultCooldown
    priority := orElse priority defaultPriority }

/-- The second byte of a rule: whether it is enabled, the comparison in three bits, and four bits
that are zero. -/
def flags (r : Rule) : Nat := (if r.enabled then 128 else 0) + 16 * r.operator.code

/-- The 12 bytes of a rule. -/
def toBytes (r : Rule) : Bytes :=
  littleEndian 1 r.ruleId ++ littleEndian 1 r.flags ++ littleEndian 1 r.fieldIdx
    ++ littleEndian 4 r.threshold ++ littleEndian 1 r.controlIdx ++ littleEndian 1 r.actionState
    ++ littleEndian 2 r.cooldownSec ++ littleEndian 1 r.priority

/-- The rule in 12 bytes, if they name a comparison. -/
def ofBytes? : Bytes → Option Rule
  | [ruleId, flags, fieldIdx, t0, t1, t2, t3, controlIdx, actionState, c0, c1, priority] => do
    let operator ← RuleOperator.ofCode? (flags.toNat / 16 % 8)
    return {
      ruleId := ruleId.toNat, enabled := 128 ≤ flags.toNat, operator, fieldIdx := fieldIdx.toNat
      threshold := ofLittleEndian [t0, t1, t2, t3], controlIdx := controlIdx.toNat
      actionState := actionState.toNat, cooldownSec := ofLittleEndian [c0, c1]
      priority := priority.toNat }
  | _ => none

end Rule

namespace RuleCommand

/-- The command that a dict describes: clearing goes before deleting, deleting before the rest. -/
def ofDict (data : Dict Value) : Except Failure RuleCommand :=
  if (data.value "clear_all").isTruthy then .ok clearAll
  else if (data.value "delete_rule").isNull then do
    let rule ← Rule.ofDict data
    return update rule
  else do
    let ruleId ← Downlink.natural data "delete_rule" 1 0
    return delete ruleId

/-- The bytes of a command. -/
def toBytes : RuleCommand → Bytes
  | clearAll => [0xFF, 0x00]
  | delete ruleId => littleEndian 1 ruleId ++ [0x80]
  | update rule => rule.toBytes

/-- The command in a frame, told by its length and, of two bytes, by the second. -/
def ofBytes? : Bytes → Option RuleCommand
  | [ruleId, mark] =>
    if mark = 0x80 then some (delete ruleId.toNat)
    else if ruleId = 0xFF ∧ mark = 0x00 then some clearAll
    else none
  | bs => (Rule.ofBytes? bs).map update

end RuleCommand

end FarmLink
