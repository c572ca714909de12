import FarmLink.Downlink.Basic
import FarmLink.Proofs.Downlink.Part

/-!
# RuleFrame - rule commands read off their frames

What a dict asks for is said by `Describes`, part by part and without the encoder: at most one
command is described (`RuleCommand.Describes.unique`). A frame that is encoded is that of the
described command, whose numbers fit their bytes, and from such a frame the command is read back
(`RuleCommand.ofBytes?_toBytes`): the three forms differ in length or in their second byte. So the
bytes alone determine the command (`ruleUpdate_reads_back`).
-/

namespace FarmLink

/-! ### Rules -/

namespace Rule

/-- The rule that a dict asks for. -/
structure Describes (data : Dict Value) (r : Rule) : Prop where
  ruleId : (data.value "rule_id").Holds 0 r.ruleId
  enabled : r.enabled = false ↔ data.value "enabled" = .bool false
  operator : r.operator = operatorNamed (data.value "operator")
  fieldIdx : (data.value "field_idx").Holds 0 r.fieldIdx
  threshold : (data.value "threshold").HoldsSingle r.threshold
  controlIdx : (data.value "control_idx").Holds 0 r.controlIdx
  actionState : (data.value "action_state").Holds 0 r.actionState
  cooldownSec : (data.value "cooldown_sec").HoldsPositive 300 r.cooldownSec
  priority : (data.value "priority").HoldsPositive 128 r.priority

/-- A rule whose numbers fit their bytes. -/
structure Fits (r : Rule) : Prop where
  ruleId : r.ruleId < byteRange 1
  fieldIdx : r.fieldIdx < byteRange 1
  threshold : r.threshold < byteRange 4
  controlIdx : r.controlIdx < byteRange 1
  actionState : r.actionState < byteRange 1
  cooldownSec : r.cooldownSec < byteRange 2
  priority : r.priority < byteRange 1

theorem Describes.unique {data : Dict Value} {r s : Rule} (hr : Describes data r)
    (hs : Describes data s) : r = s := by
  have henabled : r.enabled = s.enabled := by
    have h : r.enabled = false ↔ s.enabled = false := hr.enabled.trans hs.enabled.symm
    cases hre : r.enabled with
    | false => rw [h.1 hre]
    | true =>
      cases hse : s.enabled with
      | false => rw [h.2 hse] at hre; cases hre
      | true => rfl
  cases r
  cases s
  rw [Rule.mk.injEq]
  exact ⟨hr.ruleId.unique hs.ruleId, henabled, hr.operator.trans hs.operator.symm,
    hr.fieldIdx.unique hs.fieldIdx, hr.threshold.unique hs.threshold,
    hr.controlIdx.unique hs.controlIdx, hr.actionState.unique hs.actionState,
    hr.cooldownSec.unique hs.cooldownSec, hr.priority.unique hs.priority⟩

theorem enabledOf_eq_false_iff {data : Dict Value} :
    enabledOf data = false ↔ data.value "enabled" = .bool false := by
  unfold enabledOf
  split
  · next h => exact ⟨fun _ => h, fun _ => rfl⟩
  · next h => exact ⟨fun hf => absurd hf (by decide), fun hf => absurd hf h⟩

theorem orElse_lt {n other range : Nat} (hn : n < range) (hother : other < range) :
    orElse n other < range := by
  unfold orElse
  split
  · exact hother
  · exact hn

/-- The rule of a dict is the one described, and it fits its bytes. -/
theorem describes_of_ofDict {data : Dict Value} {r : Rule} (h : ofDict data = .ok r) :
    Describes data r ∧ r.Fits := by
  unfold ofDict at h
  obtain ⟨operator, hoperator, h⟩ := bind_eq_ok.1 h
  obtain ⟨threshold, hthreshold, h⟩ := bind_eq_ok.1 h
  obtain ⟨ruleId, hruleId, h⟩ := bind_eq_ok.1 h
  obtain ⟨fieldIdx, hfieldIdx, h⟩ := bind_eq_ok.1 h
  obtain ⟨controlIdx, hcontrolIdx, h⟩ := bind_eq_ok.1 h
  obtain ⟨actionState, hactionState, h⟩ := bind_eq_ok.1 h
  obtain ⟨cooldown, hcooldown, h⟩ := bind_eq_ok.1 h
  obtain ⟨priority, hpriority, h⟩ := bind_eq_ok.1 h
  cases h
  have hnamed := eq_operatorNamed hoperator
  have hsingle := thresholdOf_eq_ok_iff.1 hthreshold
  obtain ⟨hruleId, hruleIdLt⟩ := (Downlink.natural_eq_ok_iff (by decide)).1 hruleId
  obtain ⟨hfieldIdx, hfieldIdxLt⟩ := (Downlink.natural_eq_ok_iff (by decide)).1 hfieldIdx
  obtain ⟨hcontrolIdx, hcontrolIdxLt⟩ := (Downlink.natural_eq_ok_iff (by decide)).1 hcontrolIdx
  obtain ⟨hactionState, hactionStateLt⟩ := (Downlink.natural_eq_ok_iff (by decide)).1 hactionState
  obtain ⟨hcooldown, hcooldownLt⟩ := (Downlink.natural_eq_ok_iff (by decide)).1 hcooldown
  obtain ⟨hpriority, hpriorityLt⟩ := (Downlink.natural_eq_ok_iff (by decide)).1 hpriority
  constructor
  · exact ⟨hruleId, enabledOf_eq_false_iff, hnamed, hfieldIdx, hsingle, hcontrolIdx, hactionState,
      hcooldown.holdsPositive, hpriority.holdsPositive⟩
  · obtain ⟨x, -, hx⟩ := hsingle
    exact ⟨hruleIdLt, hfieldIdxLt, Double.lt_of_toSingleBits? hx, hcontrolIdxLt, hactionStateLt,
      orElse_lt hcooldownLt (by decide), orElse_lt hpriorityLt (by decide)⟩

/-! ### The frame of a rule -/

theorem flags_lt (r : Rule) : r.flags < byteRange 1 := by
  unfold flags
  cases r.enabled <;> cases r.operator <;> decide

/-- The highest bit of a byte. -/
theorem testBit_seven {n : Nat} (h : n < byteRange 1) : n.testBit 7 = decide (128 ≤ n) := by
  have hrange : byteRange 1 = 256 := rfl
  rw [Nat.testBit_eq_decide_div_mod_eq]
  exact decide_eq_decide.2 (by omega)

/-- The three fields of the second byte. -/
theorem flags_fields (r : Rule) :
    r.flags.testBit 7 = r.enabled ∧ r.flags / 16 % 8 = r.operator.code ∧ r.flags % 16 = 0 := by
  unfold flags
  cases r.enabled <;> cases r.operator <;> decide

theorem ofCode?_code (operator : RuleOperator) :
    RuleOperator.ofCode? operator.code = some operator := by
  cases operator <;> rfl

theorem length_toBytes (r : Rule) : r.toBytes.length = 12 := rfl

/-- The twelve bytes of a rule and the numbers in them. -/
theorem exists_bytes {r : Rule} (h : r.Fits) :
    ∃ ruleId flags fieldIdx t0 t1 t2 t3 controlIdx actionState c0 c1 priority : UInt8,
      r.toBytes = [ruleId, flags, fieldIdx, t0, t1, t2, t3, controlIdx, actionState, c0, c1,
        priority] ∧
      ruleId.toNat = r.ruleId ∧ flags.toNat = r.flags ∧ fieldIdx.toNat = r.fieldIdx ∧
      ofLittleEndian [t0, t1, t2, t3] = r.threshold ∧ controlIdx.toNat = r.controlIdx ∧
      actionState.toNat = r.actionState ∧ ofLittleEndian [c0, c1] = r.cooldownSec ∧
      priority.toNat = r.priority := by
  have hthreshold : ofLittleEndian (littleEndian 4 r.threshold) = r.threshold := by
    rw [ofLittleEndian_littleEndian, Nat.mod_eq_of_lt h.threshold]
  have hcooldown : ofLittleEndian (littleEndian 2 r.cooldownSec) = r.cooldownSec := by
    rw [ofLittleEndian_littleEndian, Nat.mod_eq_of_lt h.cooldownSec]
  exact ⟨_, _, _, _, _, _, _, _, _, _, _, _, rfl, toNat_ofNat_of_lt h.ruleId,
    toNat_ofNat_of_lt r.flags_lt, toNat_ofNat_of_lt h.fieldIdx, hthreshold,
    toNat_ofNat_of_lt h.controlIdx, toNat_ofNat_of_lt h.actionState, hcooldown,
    toNat_ofNat_of_lt h.priority⟩

/-- A rule is read off its bytes. -/
theorem ofBytes?_toBytes {r : Rule} (h : r.Fits) : ofBytes? r.toBytes = some r := by
  obtain ⟨ruleId, flags, fieldIdx, t0, t1, t2, t3, controlIdx, actionState, c0, c1, priority,
    hbytes, hruleId, hflags, hfieldIdx, hthreshold, hcontrolIdx, hactionState, hcooldown,
    hpriority⟩ := exists_bytes h
  obtain ⟨hbit, hcode, -⟩ := r.flags_fields
  have henabled : decide (128 ≤ r.flags) = r.enabled := by rw [← testBit_seven r.flags_lt, hbit]
  rw [hbytes]
  simp only [ofBytes?, hruleId, hflags, hfieldIdx, hthreshold, hcontrolIdx, hactionState,
    hcooldown, hpriority, hcode, henabled, ofCode?_code]
  rfl

/-- **The layout of a rule.**  Twelve bytes that hold what a dict says: the rule's number; whether
it is enabled in the highest bit, the comparison in the three bits below and zeros in the rest; the
field; the threshold as a single; the control and its state; the seconds between two actions; and
the priority. -/
def LaidOut (data : Dict Value) : Bytes → Prop
  | [ruleId, flags, fieldIdx, t0, t1, t2, t3, controlIdx, actionState, c0, c1, priority] =>
    (data.value "rule_id").Holds 0 ruleId.toNat ∧
    (flags.toNat.testBit 7 = false ↔ data.value "enabled" = .bool false) ∧
    flags.toNat / 16 % 8 = (operatorNamed (data.value "operator")).code ∧
    flags.toNat % 16 = 0 ∧
    (data.value "field_idx").Holds 0 fieldIdx.toNat ∧
    (data.value "threshold").HoldsSingle (ofLittleEndian [t0, t1, t2, t3]) ∧
    (data.value "control_idx").Holds 0 controlIdx.toNat ∧
    (data.value "action_state").Holds 0 actionState.toNat ∧
    (data.value "cooldown_sec").HoldsPositive 300 (ofLittleEndian [c0, c1]) ∧
    (data.value "priority").HoldsPositive 128 priority.toNat
  | _ => False

theorem laidOut_toBytes {data : Dict Value} {r : Rule} (hr : Describes data r) (h : r.Fits) :
    LaidOut data r.toBytes := by
  obtain ⟨ruleId, flags, fieldIdx, t0, t1, t2, t3, controlIdx, actionState, c0, c1, priority,
    hbytes, hruleId, hflags, hfieldIdx, hthreshold, hcontrolIdx, hactionState, hcooldown,
    hpriority⟩ := exists_bytes h
  obtain ⟨hbit, hcode, hzero⟩ := r.flags_fields
  rw [hbytes]
  simp only [LaidOut, hruleId, hflags, hfieldIdx, hthreshold, hcontrolIdx, hactionState,
    hcooldown, hpriority, hbit, hcode, ← hr.operator]
  exact ⟨hr.ruleId, hr.enabled, trivial, hzero, hr.fieldIdx, hr.threshold, hr.controlIdx,
    hr.actionState, hr.cooldownSec, hr.priority⟩

end Rule

/-! ### Commands -/

namespace RuleCommand

/-- The command that a dict asks for: clearing goes before deleting, deleting before the rest. -/
inductive Describes (data : Dict Value) : RuleCommand → Prop
  | clearAll (hclear : (data.value "clear_all").isTruthy = true) : Describes data clearAll
  | delete {ruleId : Nat} (hclear : (data.value "clear_all").isTruthy = false)
      (hdelete : data.value "delete_rule" = .int ruleId) : Describes data (delete ruleId)
  | update {rule : Rule} (hclear : (data.value "clear_all").isTruthy = false)
      (hdelete : data.value "delete_rule" = .null) (hrule : Rule.Describes data rule) :
      Describes data (update rule)

/-- A command whose numbers fit their bytes. -/
def Fits : RuleCommand → Prop
  | clearAll => True
  | delete ruleId => ruleId < byteRange 1
  | update rule => rule.Fits

/-- **A dict asks for one command at most.** -/
theorem Describes.unique {data : Dict Value} {c d : RuleCommand} (hc : Describes data c)
    (hd : Describes data d) : c = d := by
  cases hc with
  | clearAll hclear =>
    cases hd with
    | clearAll _ => rfl
    | delete hclear' _ | update hclear' _ _ => rw [hclear] at hclear'; cases hclear'
  | delete hclear hdelete =>
    cases hd with
    | clearAll hclear' => rw [hclear] at hclear'; cases hclear'
    | delete _ hdelete' =>
      rw [hdelete, Value.int.injEq, Int.natCast_inj] at hdelete'
      rw [hdelete']
    | update _ hdelete' _ => rw [hdelete] at hdelete'; cases hdelete'
  | update hclear hdelete hrule =>
    cases hd with
    | clearAll hclear' => rw [hclear] at hclear'; cases hclear'
    | delete _ hdelete' => rw [hdelete] at hdelete'; cases hdelete'
    | update _ _ hrule' => rw [hrule.unique hrule']

/-- The command of a dict is the one described, and it fits its bytes. -/
theorem describes_of_ofDict {data : Dict Value} {c : RuleCommand} (h : ofDict data = .ok c) :
    Describes data c ∧ c.Fits := by
  unfold ofDict at h
  split at h
  · next hclear =>
    cases h
    exact ⟨.clearAll hclear, trivial⟩
  · next hclear =>
    rw [Bool.not_eq_true] at hclear
    split at h
    · next hnull =>
      obtain ⟨rule, hrule, h⟩ := bind_eq_ok.1 h
      cases h
      obtain ⟨hdescribes, hfits⟩ := Rule.describes_of_ofDict hrule
      exact ⟨.update hclear (Value.isNull_iff.1 hnull) hdescribes, hfits⟩
    · next hnull =>
      obtain ⟨ruleId, hruleId, h⟩ := bind_eq_ok.1 h
      cases h
      obtain ⟨hholds, hlt⟩ := (Downlink.natural_eq_ok_iff (by decide)).1 hruleId
      rcases hholds with hint | ⟨hv, -⟩
      · exact ⟨.delete hclear hint, hlt⟩
      · rw [hv] at hnull
        exact absurd rfl hnull

theorem ofBytes?_pair (b : UInt8) : ofBytes? [b, 0x80] = some (delete b.toNat) := rfl

theorem ofBytes?_of_length {bs : Bytes} (h : bs.length ≠ 2) :
    ofBytes? bs = (Rule.ofBytes? bs).map update := by
  unfold ofBytes?
  split
  · exact absurd rfl h
  · rfl

/-- **A command is read off its bytes.**  Clearing and deleting differ in the second byte, a rule
from both in its length. -/
theorem ofBytes?_toBytes {c : RuleCommand} (h : c.Fits) : ofBytes? c.toBytes = some c := by
  cases c with
  | clearAll => rfl
  | delete ruleId =>
    have hbytes : (delete ruleId).toBytes = [UInt8.ofNat ruleId, 0x80] := rfl
    rw [hbytes, ofBytes?_pair, toNat_ofNat_of_lt h]
  | update rule =>
    have hlength : rule.toBytes.length ≠ 2 := by
      rw [Rule.length_toBytes]
      decide
    have hread := Rule.ofBytes?_toBytes (r := rule) h
    change ofBytes? rule.toBytes = _
    rw [ofBytes?_of_length hlength, hread]
    rfl

theorem toBytes_injective {c d : RuleCommand} (hc : c.Fits) (hd : d.Fits)
    (h : c.toBytes = d.toBytes) : c = d := by
  have hread : some c = some d := by
    rw [← ofBytes?_toBytes hc, ← ofBytes?_toBytes hd, h]
  exact Option.some.inj hread

/-- Two bytes of which the second is `0x80` delete the rule that the first one numbers. -/
theorem eq_delete_of_toBytes {c : RuleCommand} (hc : c.Fits) {r : UInt8}
    (h : c.toBytes = [r, 0x80]) : c = delete r.toNat := by
  have hfits : (delete r.toNat).Fits := r.toNat_lt
  apply toBytes_injective hc hfits
  rw [h, toBytes, littleEndian_toNat]
  rfl

end RuleCommand

namespace Downlink

/-- The frame of a rule command is that of the command described. -/
theorem exists_describes {data : Dict Value} {bs : Bytes} (h : ruleUpdate data = .ok bs) :
    ∃ c, RuleCommand.Describes data c ∧ c.Fits ∧ bs = c.toBytes := by
  obtain ⟨c, hc, h⟩ := bind_eq_ok.1 h
  cases h
  obtain ⟨hdescribes, hfits⟩ := RuleCommand.describes_of_ofDict hc
  exact ⟨c, hdescribes, hfits, rfl⟩

/-- **Rule commands are read back from their frames.**  A frame is `[0xFF, 0x00]` exactly where
the dict says to clear all rules; otherwise it is a rule's number and `0x80` exactly where the dict
holds one to delete; otherwise it is the twelve bytes of the rule that the dict describes. The
reader, which sees the bytes alone, gives the one command that the dict asks for. -/
theorem ruleUpdate_reads_back {data : Dict Value} {bs : Bytes} (h : ruleUpdate data = .ok bs) :
    (bs = [0xFF, 0x00] ↔ (data.value "clear_all").isTruthy = true) ∧
    ((data.value "clear_all").isTruthy = false →
      ((∃ r, bs = [r, 0x80]) ↔ data.value "delete_rule" ≠ .null) ∧
      (∀ r : UInt8, bs = [r, 0x80] → data.value "delete_rule" = .int r.toNat) ∧
      (data.value "delete_rule" = .null → Rule.LaidOut data bs)) ∧
    ∃ c, RuleCommand.ofBytes? bs = some c ∧ ∀ d, RuleCommand.Describes data d ↔ d = c := by
  obtain ⟨c, hc, hfits, rfl⟩ := exists_describes h
  refine ⟨⟨?_, ?_⟩, ?_, c, RuleCommand.ofBytes?_toBytes hfits, ?_⟩
  · intro hbytes
    have hclear : c = .clearAll := RuleCommand.toBytes_injective hfits trivial hbytes
    subst hclear
    cases hc with
    | clearAll hclear => exact hclear
  · intro hclear
    rw [hc.unique (.clearAll hclear)]
    rfl
  · intro hclear
    have hdeleted : ∀ r : UInt8, c.toBytes = [r, 0x80] →
        data.value "delete_rule" = .int r.toNat := by
      intro r hbytes
      have hdelete := RuleCommand.eq_delete_of_toBytes hfits hbytes
      subst hdelete
      cases hc with
      | delete _ hdelete => exact hdelete
    refine ⟨⟨?_, ?_⟩, hdeleted, ?_⟩
    · rintro ⟨r, hbytes⟩ hnull
      rw [hdeleted r hbytes] at hnull
      cases hnull
    · intro hne
      cases hc with
      | clearAll hclear' => rw [hclear] at hclear'; cases hclear'
      | delete _ _ => exact ⟨_, rfl⟩
      | update _ hnull _ => exact absurd hnull hne
    · intro hnull
      cases hc with
      | clearAll hclear' => rw [hclear] at hclear'; cases hclear'
      | delete _ hdelete => rw [hnull] at hdelete; cases hdelete
      | update _ _ hrule => exact Rule.laidOut_toBytes hrule hfits
  · intro d
    constructor
    · exact fun hd => hd.unique hc
    · rintro rfl
      exact hc

/-- A disabled rule with a comparison, a threshold of 25.5 and a pause of zero seconds. -/
def disabledRule : Dict Value :=
  [("operator", .text ">="), ("rule_id", .int 4), ("enabled", .bool false),
    ("threshold", .float (.ofBits 0x4039800000000000)), ("cooldown_sec", .int 0)]

theorem ruleUpdate_reads_back_disabled :
    ruleUpdate disabledRule = .ok [4, 48, 0, 0, 0, 204, 65, 0, 0, 44, 1, 128] ∧
    Rule.LaidOut disabledRule [4, 48, 0, 0, 0, 204, 65, 0, 0, 44, 1, 128] ∧
    ∃ c, RuleCommand.ofBytes? [4, 48, 0, 0, 0, 204, 65, 0, 0, 44, 1, 128] = some c ∧
      ∀ d, RuleCommand.Describes disabledRule d ↔ d = c := by
  have hframe : ruleUpdate disabledRule = .ok [4, 48, 0, 0, 0, 204, 65, 0, 0, 44, 1, 128] := by
    decide +kernel
  obtain ⟨-, hrule, hread⟩ := ruleUpdate_reads_back hframe
  exact ⟨hframe, (hrule (by decide)).2.2 (by decide), hread⟩

end Downlink

end FarmLink
