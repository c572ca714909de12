import FarmLink.Downlink.Basic
import FarmLink.Proofs.Downlink.Part

/-!
# Precedence - which part of a command is told

A layout reads the parts of a command one after the other, and the first one that the command
spoils ends it. So several bad parts give one error, about the part that is read first, and what
stands behind it does not matter (`SettledBy`). Reading one more part in front is one more part in
front of the list (`SettledBy.bind`), which gives each layout its list by the order of its steps;
that of rules is `Rule.parts`. Clearing comes before everything, deleting before the parts of a
rule (`ruleUpdate_precedence`). Whatever parts settle is a result or an error about the command
(`SettledBy.answered`).
-/

namespace FarmLink

namespace Downlink

/-- A part of a command: the name of its value, and the values that spoil the command. -/
structure Part where
  name : Text
  Spoils : Value → Prop

namespace Part

/-- A whole number of some bytes. It may be missing, but nothing else may stand in its place; a
truth value is no whole number. -/
def natural (name : Text) (width : Nat) : Part where
  name := name
  Spoils v := v ≠ .null ∧ ∀ n : Nat, n < byteRange width → v ≠ .int n

/-- The comparison of a rule: something that says yes must be a text. -/
def operator : Part where
  name := "operator"
  Spoils := Rule.MisnamesOperator

/-- The threshold of a rule: something that says yes must be a number with a single. -/
def threshold : Part where
  name := "threshold"
  Spoils v := v.isTruthy = true ∧ ∀ x, v.toDouble = .ok x → x.toSingleBits? = none

/-- What a command says in this place spoils it. -/
def IsSpoiled (p : Part) (data : Dict Value) : Prop := p.Spoils (data.value p.name)

end Part

variable {α β : Type} {data : Dict Value} {p : Part} {parts : List Part}

/-- The first part of a list that a command spoils. -/
def FirstSpoiled (data : Dict Value) (parts : List Part) (p : Part) : Prop :=
  ∃ before after, parts = before ++ p :: after ∧ (∀ q ∈ before, ¬ q.IsSpoiled data) ∧
    p.IsSpoiled data

/-- The error about what a command says under a name. -/
def Names (data : Dict Value) (name : Text) (x : Except Failure α) : Prop :=
  ∃ fault : EncodeFault, x = .error (.codec (.encode fault)) ∧ fault.field = name ∧
    fault.value = data.value name

/-- An outcome that parts settle in their order: a result if the command spoils none of them, and
otherwise the error that names the first one it spoils, as far as what stands there can be shown. -/
structure SettledBy (data : Dict Value) (parts : List Part) (x : Except Failure α) : Prop where
  exists_ok_iff : (∃ a, x = .ok a) ↔ ∀ p ∈ parts, ¬ p.IsSpoiled data
  names : ∀ p, FirstSpoiled data parts p → (data.value p.name).isShowable = true →
    Names data p.name x

/-! ### Parts in a row -/

theorem firstSpoiled_cons {q : Part} :
    FirstSpoiled data (p :: parts) q ↔
      p = q ∧ p.IsSpoiled data ∨ ¬ p.IsSpoiled data ∧ FirstSpoiled data parts q := by
  constructor
  · rintro ⟨before, after, heq, hbefore, hq⟩
    rcases before with - | ⟨b, before⟩
    · simp only [List.nil_append, List.cons.injEq] at heq
      exact .inl ⟨heq.1, heq.1 ▸ hq⟩
    · simp only [List.cons_append, List.cons.injEq] at heq
      obtain ⟨rfl, rfl⟩ := heq
      exact .inr ⟨hbefore p (by simp), before, after, rfl, fun r hr => hbefore r (by simp [hr]), hq⟩
  · rintro (⟨rfl, hp⟩ | ⟨hp, before, after, rfl, hbefore, hq⟩)
    · exact ⟨[], parts, rfl, by simp, hp⟩
    · exact ⟨p :: before, after, rfl, by simpa using ⟨hp, hbefore⟩, hq⟩

theorem Names.bind {name : Text} {x : Except Failure α} (h : Names data name x)
    (f : α → Except Failure β) : Names data name (x >>= f) := by
  obtain ⟨fault, rfl, hfield, hvalue⟩ := h
  exact ⟨fault, rfl, hfield, hvalue⟩

theorem Names.not_ok {name : Text} {x : Except Failure α} (h : Names data name x) :
    ¬ ∃ a, x = .ok a := by
  obtain ⟨fault, rfl, -⟩ := h
  rintro ⟨a, ha⟩
  cases ha

/-- A refusal names the field of its fault. -/
theorem names_refuse {fault : EncodeFault} (hvalue : fault.value = data.value fault.field)
    (hshow : (data.value fault.field).isShowable = true) :
    Names data fault.field (refuse fault : Except Failure α) :=
  ⟨fault, refuse_eq (by rwa [hvalue]), rfl, hvalue⟩

theorem settledBy_ok (a : α) : SettledBy data [] (.ok a : Except Failure α) where
  exists_ok_iff := by simp
  names := by
    rintro p ⟨before, after, heq, -⟩
    simp at heq

/-- A step settles its part: it goes through or names the part. -/
theorem settledBy_of_step {x : Except Failure α} (hok : (∃ a, x = .ok a) ↔ ¬ p.IsSpoiled data)
    (hspoiled : p.IsSpoiled data → (data.value p.name).isShowable = true → Names data p.name x) :
    SettledBy data [p] x where
  exists_ok_iff := by simpa only [List.mem_singleton, forall_eq] using hok
  names := by
    intro q hq
    rcases firstSpoiled_cons.1 hq with ⟨rfl, hp⟩ | ⟨-, before, after, heq, -⟩
    · exact hspoiled hp
    · simp at heq

/-- **Steps in a row are settled by their parts in a row.** -/
theorem SettledBy.bind {x : Except Failure α} {f : α → Except Failure β}
    (hx : SettledBy data [p] x) (hf : ∀ a, SettledBy data parts (f a)) :
    SettledBy data (p :: parts) (x >>= f) where
  exists_ok_iff := by
    have hstep := hx.exists_ok_iff
    simp only [List.mem_singleton, forall_eq] at hstep
    simp only [bind_eq_ok, List.forall_mem_cons, ← hstep]
    constructor
    · rintro ⟨b, a, ha, hb⟩
      exact ⟨⟨a, ha⟩, (hf a).exists_ok_iff.1 ⟨b, hb⟩⟩
    · rintro ⟨⟨a, ha⟩, hparts⟩
      obtain ⟨b, hb⟩ := (hf a).exists_ok_iff.2 hparts
      exact ⟨b, a, ha, hb⟩
  names := by
    intro q hq hshow
    rcases firstSpoiled_cons.1 hq with ⟨rfl, hp⟩ | ⟨hp, hq⟩
    · exact (hx.names p (firstSpoiled_cons.2 (.inl ⟨rfl, hp⟩)) hshow).bind f
    · obtain ⟨a, rfl⟩ := hx.exists_ok_iff.2 (by simpa using hp)
      exact (hf a).names q hq hshow

/-- What is made of a result does not matter. -/
theorem SettledBy.map {x : Except Failure α} (hx : SettledBy data parts x) (f : α → β) :
    SettledBy data parts (x.map f) where
  exists_ok_iff := by
    rw [← hx.exists_ok_iff]
    rcases x with e | a <;> simp [Except.map]
  names := by
    intro q hq hshow
    obtain ⟨fault, rfl, hfield, hvalue⟩ := hx.names q hq hshow
    exact ⟨fault, rfl, hfield, hvalue⟩

theorem exists_firstSpoiled (h : ∃ p ∈ parts, p.IsSpoiled data) :
    ∃ p, FirstSpoiled data parts p := by
  induction parts with
  | nil =>
    obtain ⟨p, hp, -⟩ := h
    exact absurd hp List.not_mem_nil
  | cons q parts ih =>
    by_cases hq : q.IsSpoiled data
    · exact ⟨q, firstSpoiled_cons.2 (.inl ⟨rfl, hq⟩)⟩
    · obtain ⟨p, hp, hspoiled⟩ := h
      have hmem : p ∈ parts := by
        rcases List.mem_cons.1 hp with rfl | hmem
        · exact absurd hspoiled hq
        · exact hmem
      obtain ⟨r, hr⟩ := ih ⟨p, hmem, hspoiled⟩
      exact ⟨r, firstSpoiled_cons.2 (.inr ⟨hq, hr⟩)⟩

/-- **What parts settle is a result or an error about the command**, if all that the command says
can be shown. -/
theorem SettledBy.answered {x : Except Failure α} (hx : SettledBy data parts x)
    (hdata : (Value.dict data).isShowable = true) : Answered x := by
  by_cases h : ∃ p ∈ parts, p.IsSpoiled data
  · obtain ⟨p, hp⟩ := exists_firstSpoiled h
    obtain ⟨fault, hfault, -⟩ := hx.names p hp (Value.isShowable_value hdata _)
    exact .inr ⟨fault, hfault⟩
  · exact .inl (hx.exists_ok_iff.2 fun p hp hspoiled => h ⟨p, hp, hspoiled⟩)

/-! ### The parts -/

theorem not_isSpoiled_natural_iff {name : Text} {width default : Nat}
    (hdefault : default < byteRange width) :
    ¬ (Part.natural name width).IsSpoiled data ↔
      ∃ n, (data.value name).Holds default n ∧ n < byteRange width := by
  simp only [Part.IsSpoiled, Part.natural, Value.Holds, not_and, not_forall, not_not]
  constructor
  · intro h
    by_cases hnull : data.value name = .null
    · exact ⟨default, .inr ⟨hnull, rfl⟩, hdefault⟩
    · obtain ⟨n, hn, hint⟩ := h hnull
      exact ⟨n, .inl hint, hn⟩
  · rintro ⟨n, hint | ⟨hnull, -⟩, hn⟩ hne
    · exact ⟨n, hn, hint⟩
    · exact absurd hnull hne

theorem settledBy_natural (data : Dict Value) (name : Text) {width default : Nat}
    (hdefault : default < byteRange width) :
    SettledBy data [.natural name width] (natural data name width default) := by
  have hok : (∃ n, natural data name width default = .ok n) ↔
      ¬ (Part.natural name width).IsSpoiled data := by
    rw [not_isSpoiled_natural_iff hdefault]
    exact exists_congr fun n => natural_eq_ok_iff hdefault
  refine settledBy_of_step hok fun hspoiled hshow => ?_
  rcases h : natural data name width default with f | n
  · obtain ⟨fault, rfl, hvalue, hrefuse⟩ := exists_refuse_of_natural h
    rw [← h, hrefuse]
    exact names_refuse hvalue hshow
  · exact absurd hspoiled (hok.1 ⟨n, h⟩)

/-! ### The layouts of whole numbers -/

theorem interval_of_not_isTruthy (h : (data.value "interval").isTruthy = false) :
    interval data = .ok [] := by
  simp [interval, h]

theorem settledBy_interval (h : (data.value "interval").isTruthy = true) :
    SettledBy data [.natural "interval" 4] (interval data) := by
  unfold interval
  rw [if_pos h]
  exact (settledBy_natural data "interval" (by decide)).bind fun _ => settledBy_ok _

theorem settledBy_displayTimeout (data : Dict Value) :
    SettledBy data [.natural "timeout_sec" 2] (displayTimeout data) :=
  (settledBy_natural data "timeout_sec" (by decide)).bind fun _ => settledBy_ok _

theorem settledBy_directControl (data : Dict Value) :
    SettledBy data
      [.natural "control_idx" 1, .natural "state_idx" 1, .natural "timeout_sec" 4]
      (directControl data) := by
  refine (settledBy_natural data "control_idx" (by decide)).bind fun _ => ?_
  refine (settledBy_natural data "state_idx" (by decide)).bind fun _ => ?_
  exact (settledBy_natural data "timeout_sec" (by decide)).bind fun _ => settledBy_ok _

end Downlink

/-! ### The layout of rules -/

namespace Rule

open Downlink

variable {data : Dict Value}

/-- The parts of a rule in the order in which they are read. -/
def parts : List Part :=
  [.operator, .threshold, .natural "rule_id" 1, .natural "field_idx" 1, .natural "control_idx" 1,
    .natural "action_state" 1, .natural "cooldown_sec" 2, .natural "priority" 1]

theorem settledBy_operatorOf (data : Dict Value) :
    SettledBy data [.operator] (operatorOf data) := by
  refine settledBy_of_step ⟨?_, fun h => ⟨_, operatorOf_eq_ok h⟩⟩ fun h hshow => ?_
  · rintro ⟨operator, hoperator⟩ h
    rw [operatorOf_eq_refuse h] at hoperator
    cases hoperator
  · rw [operatorOf_eq_refuse h]
    exact names_refuse rfl hshow

/-- A threshold that says no counts as zero, and zero has a single. -/
theorem holdsSingle_zero_of_not_isTruthy {v : Value} (h : v.isTruthy = false) :
    v.HoldsSingle 0 := by
  refine ⟨.zero false, ?_, by decide +kernel⟩
  simp only [Value.orElse, h, Bool.false_eq_true, if_false]
  decide +kernel

theorem not_isSpoiled_threshold_iff :
    ¬ Part.threshold.IsSpoiled data ↔ ∃ bits, (data.value "threshold").HoldsSingle bits := by
  simp only [Part.IsSpoiled, Part.threshold]
  by_cases h : (data.value "threshold").isTruthy = true
  · simp only [h, true_and, Value.HoldsSingle, Value.orElse, if_true, not_forall,
      ← ne_eq, Option.ne_none_iff_exists']
    constructor
    · rintro ⟨x, hx, bits, hbits⟩
      exact ⟨bits, x, hx, hbits⟩
    · rintro ⟨bits, x, hx, hbits⟩
      exact ⟨x, hx, bits, hbits⟩
  · rw [Bool.not_eq_true] at h
    simp only [h, Bool.false_eq_true, false_and, not_false_eq_true, true_iff]
    exact ⟨0, holdsSingle_zero_of_not_isTruthy h⟩

theorem settledBy_thresholdOf (data : Dict Value) :
    SettledBy data [.threshold] (thresholdOf data) := by
  have hok : (∃ bits, thresholdOf data = .ok bits) ↔ ¬ Part.threshold.IsSpoiled data := by
    rw [not_isSpoiled_threshold_iff]
    exact exists_congr fun bits => thresholdOf_eq_ok_iff
  refine settledBy_of_step hok fun hspoiled hshow => ?_
  rcases h : thresholdOf data with f | bits
  · have hvalue : (data.value "threshold").orElse (.int 0) = data.value "threshold" :=
      if_pos hspoiled.1
    rw [← h, thresholdOf_eq_refuse h, hvalue]
    exact names_refuse rfl hshow
  · exact absurd hspoiled (hok.1 ⟨bits, h⟩)

/-- **A rule is settled by its parts**, in the order of its steps. -/
theorem settledBy_ofDict (data : Dict Value) : SettledBy data parts (ofDict data) := by
  refine (settledBy_operatorOf data).bind fun _ => ?_
  refine (settledBy_thresholdOf data).bind fun _ => ?_
  refine (settledBy_natural data "rule_id" (by decide)).bind fun _ => ?_
  refine (settledBy_natural data "field_idx" (by decide)).bind fun _ => ?_
  refine (settledBy_natural data "control_idx" (by decide)).bind fun _ => ?_
  refine (settledBy_natural data "action_state" (by decide)).bind fun _ => ?_
  refine (settledBy_natural data "cooldown_sec" (by decide)).bind fun _ => ?_
  refine (settledBy_natural data "priority" (by decide)).bind fun _ => ?_
  exact settledBy_ok _

end Rule

namespace Downlink

variable {data : Dict Value}

/-! ### The three forms of a rule command -/

theorem ruleUpdate_of_clearAll (h : (data.value "clear_all").isTruthy = true) :
    ruleUpdate data = .ok [0xFF, 0x00] := by
  unfold ruleUpdate RuleCommand.ofDict
  rw [if_pos h]
  rfl

theorem ruleUpdate_of_delete (hclear : (data.value "clear_all").isTruthy = false)
    (hdelete : data.value "delete_rule" ≠ .null) :
    ruleUpdate data =
      (natural data "delete_rule" 1 0).map fun ruleId => (RuleCommand.delete ruleId).toBytes := by
  have hnull : ¬ (data.value "delete_rule").isNull = true := fun h =>
    hdelete (Value.isNull_iff.1 h)
  unfold ruleUpdate RuleCommand.ofDict
  rw [if_neg (by simp [hclear]), if_neg hnull]
  rcases natural data "delete_rule" 1 0 with f | n <;> rfl

theorem ruleUpdate_of_update (hclear : (data.value "clear_all").isTruthy = false)
    (hdelete : data.value "delete_rule" = .null) :
    ruleUpdate data = (Rule.ofDict data).map Rule.toBytes := by
  unfold ruleUpdate RuleCommand.ofDict
  rw [if_neg (by simp [hclear]), if_pos (Value.isNull_iff.2 hdelete)]
  rcases Rule.ofDict data with f | r <;> rfl

theorem settledBy_ruleUpdate_of_delete (hclear : (data.value "clear_all").isTruthy = false)
    (hdelete : data.value "delete_rule" ≠ .null) :
    SettledBy data [.natural "delete_rule" 1] (ruleUpdate data) := by
  rw [ruleUpdate_of_delete hclear hdelete]
  exact (settledBy_natural data "delete_rule" (by decide)).map _

theorem settledBy_ruleUpdate (hclear : (data.value "clear_all").isTruthy = false)
    (hdelete : data.value "delete_rule" = .null) :
    SettledBy data Rule.parts (ruleUpdate data) := by
  rw [ruleUpdate_of_update hclear hdelete]
  exact (Rule.settledBy_ofDict data).map _

/-- **Rule commands fail in a fixed order.**  Clearing always goes through. Else deleting depends on
the number of the rule to delete and on nothing beside it. Else a command is refused by the first
of the parts of a rule that it spoils: the comparison, the threshold, then the whole numbers; and
it goes through if it spoils none. -/
theorem ruleUpdate_precedence (hdata : (Value.dict data).isShowable = true) :
    ((data.value "clear_all").isTruthy = true → ruleUpdate data = .ok [0xFF, 0x00]) ∧
    ((data.value "clear_all").isTruthy = false → data.value "delete_rule" ≠ .null →
      ((∃ bs, ruleUpdate data = .ok bs) ↔
        ∃ n : Nat, n ≤ 255 ∧ data.value "delete_rule" = .int n) ∧
      ((∀ n : Nat, n ≤ 255 → data.value "delete_rule" ≠ .int n) →
        Names data "delete_rule" (ruleUpdate data))) ∧
    ((data.value "clear_all").isTruthy = false → data.value "delete_rule" = .null →
      ((∃ bs, ruleUpdate data = .ok bs) ↔ ∀ p ∈ Rule.parts, ¬ p.IsSpoiled data) ∧
      ∀ p, FirstSpoiled data Rule.parts p → Names data p.name (ruleUpdate data)) := by
  refine ⟨ruleUpdate_of_clearAll, fun hclear hdelete => ?_, fun hclear hdelete => ?_⟩
  · have hsettled := settledBy_ruleUpdate_of_delete hclear hdelete
    have hspoiled : (Part.natural "delete_rule" 1).IsSpoiled data ↔
        ∀ n : Nat, n ≤ 255 → data.value "delete_rule" ≠ .int n := by
      have hrange : ∀ n : Nat, n < byteRange 1 ↔ n ≤ 255 := fun n => Nat.lt_succ_iff
      simp only [Part.IsSpoiled, Part.natural, hrange]
      exact ⟨fun h => h.2, fun h => ⟨hdelete, h⟩⟩
    constructor
    · rw [hsettled.exists_ok_iff]
      simp only [List.mem_singleton, forall_eq, hspoiled]
      simp
    · intro h
      exact hsettled.names _ (firstSpoiled_cons.2 (.inl ⟨rfl, hspoiled.2 h⟩))
        (Value.isShowable_value hdata _)
  · have hsettled := settledBy_ruleUpdate hclear hdelete
    exact ⟨hsettled.exists_ok_iff, fun p hp =>
      hsettled.names p hp (Value.isShowable_value hdata _)⟩

/-- A rule with a truth value for its number, a threshold beyond the singles, and a priority of nine
bits. -/
def spoiledRule : Dict Value :=
  [("rule_id", .bool true), ("priority", .int 256), ("threshold", .text "1e39"),
    ("delete_rule", .null)]

/-- The same with a rule to delete that is too large a number. -/
def spoiledDeletion : Dict Value := spoiledRule.put "delete_rule" (.int 256)

/-- The threshold is told, as it is read before the number of the rule; of the deletion only the
rule to delete matters; and clearing goes through all the same. -/
theorem ruleUpdate_precedence_spoiled :
    Names spoiledRule "threshold" (ruleUpdate spoiledRule) ∧
    Names spoiledDeletion "delete_rule" (ruleUpdate spoiledDeletion) ∧
    ruleUpdate (spoiledDeletion.put "clear_all" (.int 1)) = .ok [0xFF, 0x00] := by
  have hrule : (Value.dict spoiledRule).isShowable = true := by decide +kernel
  have hdeletion : (Value.dict spoiledDeletion).isShowable = true := by decide +kernel
  have hclearing : (Value.dict (spoiledDeletion.put "clear_all" (.int 1))).isShowable = true := by
    decide +kernel
  have hdouble : (Value.text "1e39").toDouble = .ok (.ofBits 0x48078287f49c4a1d) := by
    decide +kernel
  have hthreshold : Part.threshold.IsSpoiled spoiledRule := by
    refine ⟨by decide, fun x hx => ?_⟩
    obtain rfl : Double.ofBits 0x48078287f49c4a1d = x := Except.ok.inj (hdouble.symm.trans hx)
    decide +kernel
  have hoperator : ¬ Part.operator.IsSpoiled spoiledRule := fun h => absurd h.1 (by decide)
  have hfirst : FirstSpoiled spoiledRule Rule.parts .threshold :=
    ⟨[.operator], _, rfl, by simpa using hoperator, hthreshold⟩
  refine ⟨((ruleUpdate_precedence hrule).2.2 rfl rfl).2 _ hfirst, ?_,
    (ruleUpdate_precedence hclearing).1 rfl⟩
  refine ((ruleUpdate_precedence hdeletion).2.1 rfl (by decide)).2 fun n hn h => ?_
  have hvalue : (256 : Int) = n := Value.int.inj h
  omega

end Downlink

end FarmLink
