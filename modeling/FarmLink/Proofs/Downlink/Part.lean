import FarmLink.Downlink.Rule
import FarmLink.Proofs.Sequence
import FarmLink.Proofs.Value.Showable

/-!
# Part - the parts of a command

Commands are read part by part: whole numbers of some bytes, a comparison, a threshold. Each part
has one lemma for what it gives (`natural_eq_ok_iff`, `operatorOf_eq_ok`, `thresholdOf_eq_ok_iff`)
and one that otherwise the command is refused. An outcome is `Answered` if it is a result or such a
refusal; steps in a row are answered when each of them is.
-/

namespace FarmLink

/-! ### What a value says about a part -/

namespace Value

/-- The number of a part: the whole number that the value is, or a default in place of nothing. -/
def Holds (v : Value) (default n : Nat) : Prop := v = .int n ∨ v = .null ∧ n = default

/-- The number of a part where zero, too, stands for the default. -/
def HoldsPositive (v : Value) (default n : Nat) : Prop :=
  v = .int n ∧ n ≠ 0 ∨ (v = .null ∨ v = .int 0) ∧ n = default

/-- The single precision bits of the number that a value stands for, zero where it says no. -/
def HoldsSingle (v : Value) (bits : Nat) : Prop :=
  ∃ x, (v.orElse (.int 0)).toDouble = .ok x ∧ x.toSingleBits? = some bits

theorem Holds.unique {v : Value} {default m n : Nat} (hm : v.Holds default m)
    (hn : v.Holds default n) : m = n := by
  rcases hm with rfl | ⟨rfl, rfl⟩
  · rcases hn with hn | ⟨hn, -⟩
    · have h : (m : Int) = n := Value.int.inj hn
      omega
    · cases hn
  · rcases hn with hn | ⟨-, rfl⟩
    · cases hn
    · rfl

theorem HoldsPositive.unique {v : Value} {default m n : Nat} (hm : v.HoldsPositive default m)
    (hn : v.HoldsPositive default n) : m = n := by
  rcases hm with ⟨rfl, hm⟩ | ⟨hv, rfl⟩
  · rcases hn with ⟨hn, -⟩ | ⟨hn | hn, -⟩
    · have h : (m : Int) = n := Value.int.inj hn
      omega
    · cases hn
    · have h : (m : Int) = 0 := Value.int.inj hn
      omega
  · rcases hn with ⟨rfl, hn⟩ | ⟨-, rfl⟩
    · rcases hv with hv | hv
      · cases hv
      · have h : (n : Int) = 0 := Value.int.inj hv
        omega
    · rfl

theorem HoldsSingle.unique {v : Value} {a b : Nat} (ha : v.HoldsSingle a) (hb : v.HoldsSingle b) :
    a = b := by
  obtain ⟨x, hx, ha⟩ := ha
  obtain ⟨y, hy, hb⟩ := hb
  have hxy : x = y := Except.ok.inj (hx.symm.trans hy)
  subst hxy
  exact Option.some.inj (ha.symm.trans hb)

/-- A number in which zero stands for the default, from the number as it is written. -/
theorem Holds.holdsPositive {v : Value} {default n : Nat} (h : v.Holds default n) :
    v.HoldsPositive default (Rule.orElse n default) := by
  unfold Rule.orElse
  rcases h with rfl | ⟨rfl, rfl⟩
  · by_cases hn : n = 0
    · subst hn
      exact .inr ⟨.inr rfl, rfl⟩
    · rw [if_neg hn]
      exact .inl ⟨rfl, hn⟩
  · right
    split
    · exact ⟨.inl rfl, rfl⟩
    · exact ⟨.inl rfl, rfl⟩

end Value

/-- A byte holds a number that fits it. -/
theorem toNat_ofNat_of_lt {n : Nat} (h : n < byteRange 1) : (UInt8.ofNat n).toNat = n := by
  rw [UInt8.toNat_ofNat']
  exact Nat.mod_eq_of_lt h

/-- The bits of a single fill four bytes. -/
theorem Double.lt_of_toSingleBits? {x : Double} {bits : Nat} (h : x.toSingleBits? = some bits) :
    bits < byteRange 4 := by
  have hrange : byteRange 4 = 0x100000000 := rfl
  obtain ⟨m, hm, rfl⟩ := Option.map_eq_some_iff.1 h
  have hlt : m < 0x80000000 := by
    unfold singleMagnitude? at hm
    split at hm
    · have hpayload : (x.magnitude % 0x10000000000000) >>> 29 < 2 ^ 31 := by
        rw [Nat.shiftRight_eq_div_pow]
        omega
      rw [← Option.some.inj hm]
      exact Nat.or_lt_two_pow (by decide) hpayload
    · split at hm
      · rw [← Option.some.inj hm]
        decide
      · simp only at hm
        split at hm
        · next hfinite =>
          rw [← Option.some.inj hm]
          exact Nat.lt_trans hfinite (by decide)
        · cases hm
  split <;> omega

namespace Downlink

/-! ### Results and refusals -/

section Answered

variable {α β : Type}

/-- An outcome that is a result, or an error about the command. -/
def Answered (x : Except Failure α) : Prop :=
  (∃ a, x = .ok a) ∨ ∃ fault, x = .error (.codec (.encode fault))

theorem answered_ok (a : α) : Answered (.ok a : Except Failure α) := .inl ⟨a, rfl⟩

/-- What is wrong is told where the value at fault can be shown. -/
theorem refuse_eq {fault : EncodeFault} (h : fault.value.isShowable = true) :
    (refuse fault : Except Failure α) = .error (.codec (.encode fault)) := by
  unfold refuse CodecError.failure
  rw [if_pos (show (CodecError.encode fault).isShowable = true from h)]

theorem answered_refuse {fault : EncodeFault} (h : fault.value.isShowable = true) :
    Answered (refuse fault : Except Failure α) :=
  .inr ⟨fault, refuse_eq h⟩

theorem Answered.bind {x : Except Failure α} {f : α → Except Failure β} (hx : Answered x)
    (hf : ∀ a, x = .ok a → Answered (f a)) : Answered (x >>= f) := by
  rcases hx with ⟨a, rfl⟩ | ⟨fault, rfl⟩
  · exact hf a rfl
  · exact .inr ⟨fault, rfl⟩

end Answered

/-! ### The three checks -/

variable {data : Dict Value}

/-- A whole number is taken as it is if it fits its bytes, and the default in place of nothing. -/
theorem natural_eq_ok_iff {name : Text} {width default n : Nat}
    (hdefault : default < byteRange width) :
    natural data name width default = .ok n ↔
      (data.value name).Holds default n ∧ n < byteRange width := by
  unfold natural Value.Holds
  cases hv : data.value name with
  | null =>
    simp only [Except.ok.injEq, reduceCtorEq, true_and, false_or]
    constructor
    · rintro rfl
      exact ⟨rfl, hdefault⟩
    · rintro ⟨rfl, -⟩
      rfl
  | int m =>
    simp only [Value.int.injEq, reduceCtorEq, false_and, or_false]
    constructor
    · intro h
      split at h
      · next hm =>
        cases h
        exact ⟨(Int.toNat_of_nonneg hm.1).symm, hm.2⟩
      · cases h
    · rintro ⟨rfl, hn⟩
      rw [if_pos ⟨Int.natCast_nonneg n, hn⟩, Int.toNat_natCast]
  | bool _ | float _ | text _ | list _ | dict _ =>
    simp only [refuse, reduceCtorEq, false_and, or_self]

/-- Another value is refused by the name of its part. -/
theorem exists_refuse_of_natural {name : Text} {width default : Nat} {f : Failure}
    (h : natural data name width default = .error f) :
    ∃ fault : EncodeFault, fault.field = name ∧ fault.value = data.value name ∧
      natural data name width default = refuse fault := by
  unfold natural at h ⊢
  cases hv : data.value name with
  | null =>
    rw [hv] at h
    cases h
  | int m =>
    simp only [hv] at h ⊢
    split at h
    · cases h
    · next hm => exact ⟨.outOfRange name (8 * width) (.int m), rfl, rfl, if_neg hm⟩
  | bool _ | float _ | text _ | list _ | dict _ => exact ⟨.notInteger name _, rfl, rfl, rfl⟩

end Downlink

namespace Rule

variable {data : Dict Value}

/-- The comparison that a value names, the first one where it names none. -/
def operatorNamed : Value → RuleOperator
  | .text t => (RuleOperator.ofText? t).getD .less
  | _ => .less

/-- What cannot name a comparison: a value that says yes and is no text. -/
def MisnamesOperator (v : Value) : Prop := v.isTruthy = true ∧ ∀ t, v ≠ .text t

theorem operatorOf_eq_ok (h : ¬ MisnamesOperator (data.value "operator")) :
    operatorOf data = .ok (operatorNamed (data.value "operator")) := by
  unfold operatorOf Value.orElse
  by_cases hv : (data.value "operator").isTruthy = true
  · have htext : ∃ t, data.value "operator" = .text t := by
      by_contra hnone
      exact h ⟨hv, fun t ht => hnone ⟨t, ht⟩⟩
    obtain ⟨t, ht⟩ := htext
    rw [if_pos hv, ht]
    rfl
  · rw [if_neg hv]
    cases hval : data.value "operator" with
    | text t =>
      rw [hval] at hv
      have hempty : t = [] := by simpa [Value.isTruthy] using hv
      rw [hempty]
      rfl
    | null | bool _ | int _ | float _ | list _ | dict _ => rfl

theorem operatorOf_eq_refuse (h : MisnamesOperator (data.value "operator")) :
    operatorOf data = Downlink.refuse (.operatorKind (data.value "operator")) := by
  obtain ⟨hv, htext⟩ := h
  unfold operatorOf Value.orElse
  rw [if_pos hv]
  cases hval : data.value "operator" with
  | text t => exact absurd hval (htext t)
  | null | bool _ | int _ | float _ | list _ | dict _ => rfl

theorem eq_operatorNamed {operator : RuleOperator} (h : operatorOf data = .ok operator) :
    operator = operatorNamed (data.value "operator") := by
  by_cases hbad : MisnamesOperator (data.value "operator")
  · rw [operatorOf_eq_refuse hbad] at h
    cases h
  · rw [operatorOf_eq_ok hbad] at h
    exact (Except.ok.inj h).symm

/-- A threshold is taken if its number has a single. -/
theorem thresholdOf_eq_ok_iff {bits : Nat} :
    thresholdOf data = .ok bits ↔ (data.value "threshold").HoldsSingle bits := by
  unfold thresholdOf Value.HoldsSingle
  cases hx : ((data.value "threshold").orElse (.int 0)).toDouble with
  | error m => simp only [hx, Downlink.refuse, reduceCtorEq, false_and, exists_false]
  | ok x =>
    cases hbits : x.toSingleBits? with
    | none =>
      simp only [hx, hbits, Downlink.refuse, Except.ok.injEq, exists_eq_left', reduceCtorEq]
    | some b => simp only [hx, hbits, Except.ok.injEq, exists_eq_left', Option.some.injEq]

theorem thresholdOf_eq_refuse {f : Failure} (h : thresholdOf data = .error f) :
    thresholdOf data =
      Downlink.refuse (.threshold ((data.value "threshold").orElse (.int 0))) := by
  unfold thresholdOf at h ⊢
  cases hx : ((data.value "threshold").orElse (.int 0)).toDouble with
  | error m => simp only [hx]
  | ok x =>
    cases hbits : x.toSingleBits? with
    | none => simp only [hx, hbits]
    | some b =>
      simp only [hx, hbits] at h
      cases h

end Rule

end FarmLink
