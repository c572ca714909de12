import FarmLink.Proofs.Binary.Narrowing
import FarmLink.Proofs.Downlink.Precedence
import FarmLink.Proofs.Downlink.RuleFrame

/-!
# Threshold - the threshold of a rule as a single

A rule carries its threshold in four bytes as a single. What a command gives is a finite double or
a whole number that is one (`Value.Measures`); what goes out is the single nearest to it, and what
has no single spoils the command (`ruleUpdate_threshold`). Both follow from the double that the
value stands for (`Value.Measures.exists_toDouble`), where a zero of either sign counts as zero.
-/

namespace FarmLink

namespace Value

/-- A value that measures a rational number: a finite double, or a whole number of 53 bits. -/
inductive Measures : Value → ℚ → Prop
  | float {x : Double} (h : x.isFinite = true) : Measures (.float x) x.value
  | int {n : Int} (h : n.natAbs ≤ 2 ^ 53) : Measures (.int n) n

namespace Measures

variable {v : Value} {x : ℚ} {bits : Nat}

theorem toDouble_int {n : Int} (h : n.natAbs ≤ 2 ^ 53) :
    (Value.int n).toDouble = .ok (.ofInt n) :=
  if_pos (Double.value_ofInt h).1

/-- The double that stands for a measure has its value, and the sign of its value. -/
theorem exists_toDouble (h : v.Measures x) :
    ∃ y, (v.orElse (.int 0)).toDouble = .ok y ∧ y.isFinite = true ∧ y.value = x ∧
      y.negative = decide (x < 0) := by
  have hwhole : ∀ n : Int, n.natAbs ≤ 2 ^ 53 → ∃ y, (Value.int n).toDouble = .ok y ∧
      y.isFinite = true ∧ y.value = n ∧ y.negative = decide ((n : ℚ) < 0) := by
    intro n hn
    obtain ⟨hfinite, hnegative, hvalue⟩ := Double.value_ofInt hn
    refine ⟨.ofInt n, toDouble_int hn, hfinite, hvalue, ?_⟩
    rw [hnegative]
    exact decide_eq_decide.2 Int.cast_lt_zero.symm
  rcases h with @⟨y, hfinite⟩ | @⟨n, hn⟩
  · by_cases hzero : y.isZero = true
    · -- a zero of either sign says no, so the whole number zero stands in its place
      have hvalue : y.value = (0 : Int) := by
        have hmagnitude : y.magnitude = 0 := beq_iff_eq.1 hzero
        simp [Double.value, hmagnitude, Format.value, signed]
      have horElse : (Value.float y).orElse (.int 0) = .int 0 := by
        simp [Value.orElse, Value.isTruthy, hzero]
      rw [horElse, hvalue]
      exact hwhole 0 (by decide)
    · rw [Bool.not_eq_true] at hzero
      have horElse : (Value.float y).orElse (.int 0) = .float y := by
        simp [Value.orElse, Value.isTruthy, hzero]
      rw [horElse]
      exact ⟨y, rfl, hfinite, rfl, Double.negative_eq_decide hzero⟩
  · have horElse : (Value.int n).orElse (.int 0) = .int n := by
      by_cases hzero : n = 0 <;> simp [Value.orElse, Value.isTruthy, hzero]
    rw [horElse]
    exact hwhole n hn

theorem isNearest (h : v.Measures x) (hbits : v.HoldsSingle bits) : Single.IsNearest x bits := by
  obtain ⟨y, hy, hfinite, rfl, hsign⟩ := h.exists_toDouble
  obtain ⟨z, hz, hsingle⟩ := hbits
  obtain rfl : y = z := Except.ok.inj (hy.symm.trans hz)
  exact Double.isNearest_of_toSingleBits? hfinite hsign hsingle

theorem exists_holdsSingle_iff (h : v.Measures x) :
    (∃ bits, v.HoldsSingle bits) ↔ |x| < 2 ^ 128 - 2 ^ 103 := by
  obtain ⟨y, hy, hfinite, rfl, -⟩ := h.exists_toDouble
  rw [← not_le, ← Double.toSingleBits?_eq_none_iff hfinite, ← ne_eq, Option.ne_none_iff_exists']
  simp only [HoldsSingle, hy, Except.ok.injEq, exists_eq_left']

theorem isShowable (h : v.Measures x) : v.isShowable = true := by
  rcases h with - | ⟨hn⟩
  · rfl
  · rw [isShowable_int]
    exact isShowable_of_natAbs_lt (show 16 ≤ digitLimit by decide) (by omega)

end Measures

/-- The single of an infinite double is infinite, with the same sign. -/
theorem holdsSingle_infinity_iff {negative : Bool} {bits : Nat} :
    (Value.float (.infinity negative)).HoldsSingle bits ↔
      bits = if negative then 0xFF800000 else 0x7F800000 := by
  have horElse : (Value.float (.infinity negative)).orElse (.int 0) =
      .float (.infinity negative) := rfl
  simp only [HoldsSingle, horElse, toDouble, Except.ok.injEq, exists_eq_left',
    Double.toSingleBits?_infinity, Option.some.injEq]
  cases negative <;> exact eq_comm

end Value

namespace Downlink

variable {data : Dict Value} {bs : Bytes}

/-- The number in the four bytes of a rule that hold its threshold. -/
def thresholdBits (bs : Bytes) : Nat := ofLittleEndian ((bs.drop 3).take 4)

/-- A frame of a rule holds the single of the threshold. -/
theorem holdsSingle_thresholdBits (hclear : (data.value "clear_all").isTruthy = false)
    (hdelete : data.value "delete_rule" = .null) (hbytes : ruleUpdate data = .ok bs) :
    bs.length = 12 ∧ (data.value "threshold").HoldsSingle (thresholdBits bs) := by
  rw [ruleUpdate_of_update hclear hdelete] at hbytes
  rcases hr : Rule.ofDict data with f | r
  · rw [hr] at hbytes
    cases hbytes
  rw [hr] at hbytes
  obtain rfl : r.toBytes = bs := Except.ok.inj hbytes
  obtain ⟨hdescribes, hfits⟩ := Rule.describes_of_ofDict hr
  obtain ⟨ruleId, flags, fieldIdx, t0, t1, t2, t3, controlIdx, actionState, c0, c1, priority,
    heq, -, -, -, hthreshold, -⟩ := Rule.exists_bytes hfits
  refine ⟨r.length_toBytes, ?_⟩
  have hbits : thresholdBits r.toBytes = r.threshold := by
    rw [heq, ← hthreshold]
    rfl
  rw [hbits]
  exact hdescribes.threshold

theorem eq_threshold_of_mem_parts {p : Part} (hp : p ∈ Rule.parts) (hname : p.name = "threshold") :
    p = .threshold := by
  simp only [Rule.parts, List.mem_cons, List.not_mem_nil, or_false] at hp
  rcases hp with rfl | rfl | rfl | rfl | rfl | rfl | rfl | rfl
  · exact absurd hname (by decide)
  · rfl
  all_goals exact absurd hname (by decide)

/-- Where a command spoils nothing else of a rule, all depends on its threshold. -/
theorem ruleUpdate_iff_threshold (hclear : (data.value "clear_all").isTruthy = false)
    (hdelete : data.value "delete_rule" = .null)
    (hothers : ∀ p ∈ Rule.parts, p.name ≠ "threshold" → ¬ p.IsSpoiled data)
    (hshow : (data.value "threshold").isShowable = true) :
    ((∃ bs, ruleUpdate data = .ok bs) ↔ ∃ bits, (data.value "threshold").HoldsSingle bits) ∧
    (Names data "threshold" (ruleUpdate data) ↔
      ¬ ∃ bits, (data.value "threshold").HoldsSingle bits) := by
  have hsettled := settledBy_ruleUpdate hclear hdelete
  have hmem : Part.threshold ∈ Rule.parts := by simp [Rule.parts]
  have hok : (∃ bs, ruleUpdate data = .ok bs) ↔ ¬ Part.threshold.IsSpoiled data := by
    rw [hsettled.exists_ok_iff]
    refine ⟨fun h => h _ hmem, fun h p hp => ?_⟩
    by_cases hname : p.name = "threshold"
    · rwa [eq_threshold_of_mem_parts hp hname]
    · exact hothers p hp hname
  rw [← Rule.not_isSpoiled_threshold_iff, not_not]
  refine ⟨hok, fun hnames => ?_, fun h => ?_⟩
  · by_contra h
    exact hnames.not_ok (hok.2 h)
  · have hoperator : ¬ Part.operator.IsSpoiled data :=
      hothers _ (by simp [Rule.parts]) (by decide)
    exact hsettled.names .threshold ⟨[.operator], _, rfl, by simpa using hoperator, h⟩ hshow

/-- **The threshold of a rule is the nearest single.**  A rule that goes out holds the single
nearest to the number that the command gives, a plain zero for a zero of either sign. Where the
command spoils nothing else, it is refused for its threshold from half a step beyond the largest
single on, and goes through below. Infinities keep their sign. -/
theorem ruleUpdate_threshold (hclear : (data.value "clear_all").isTruthy = false)
    (hdelete : data.value "delete_rule" = .null) :
    (∀ x : ℚ, (data.value "threshold").Measures x →
      (∀ bs, ruleUpdate data = .ok bs → bs.length = 12 ∧
        Single.IsNearest x (thresholdBits bs) ∧ (x = 0 → thresholdBits bs = 0)) ∧
      ((∀ p ∈ Rule.parts, p.name ≠ "threshold" → ¬ p.IsSpoiled data) →
        ((∃ bs, ruleUpdate data = .ok bs) ↔ |x| < 2 ^ 128 - 2 ^ 103) ∧
        (Names data "threshold" (ruleUpdate data) ↔ 2 ^ 128 - 2 ^ 103 ≤ |x|))) ∧
    (∀ negative, data.value "threshold" = .float (.infinity negative) →
      (∀ bs, ruleUpdate data = .ok bs → bs.length = 12 ∧
        thresholdBits bs = if negative then 0xFF800000 else 0x7F800000) ∧
      ((∀ p ∈ Rule.parts, p.name ≠ "threshold" → ¬ p.IsSpoiled data) →
        ∃ bs, ruleUpdate data = .ok bs)) := by
  refine ⟨fun x hx => ⟨fun bs hbs => ?_, fun hothers => ?_⟩, fun negative hv =>
    ⟨fun bs hbs => ?_, fun hothers => ?_⟩⟩
  · obtain ⟨hlength, hsingle⟩ := holdsSingle_thresholdBits hclear hdelete hbs
    have hnearest := hx.isNearest hsingle
    refine ⟨hlength, hnearest, fun hzero => ?_⟩
    rw [hzero] at hnearest
    exact Single.isNearest_zero_iff.1 hnearest
  · have hiff := ruleUpdate_iff_threshold hclear hdelete hothers hx.isShowable
    rwa [hx.exists_holdsSingle_iff, not_lt] at hiff
  · obtain ⟨hlength, hsingle⟩ := holdsSingle_thresholdBits hclear hdelete hbs
    rw [hv] at hsingle
    exact ⟨hlength, Value.holdsSingle_infinity_iff.1 hsingle⟩
  · have hshow : (data.value "threshold").isShowable = true := by rw [hv]; rfl
    refine (ruleUpdate_iff_threshold hclear hdelete hothers hshow).1.2 ?_
    rw [hv]
    exact ⟨_, Value.holdsSingle_infinity_iff.2 rfl⟩

/-- A rule of which a command gives nothing but the threshold. -/
def thresholdRule (x : Double) : Dict Value := [("threshold", .float x)]

/-- One tenth, which is between two singles and nearer to the upper one, and a number that is twice
as large as all of them. -/
theorem ruleUpdate_threshold_oneTenth :
    Single.IsNearest (Double.ofBits 0x3FB999999999999A).value 0x3DCCCCCD ∧
    Names (thresholdRule (.ofBits 0x4800000000000000)) "threshold"
      (ruleUpdate (thresholdRule (.ofBits 0x4800000000000000))) := by
  have hclear : ∀ x, ((thresholdRule x).value "clear_all").isTruthy = false := fun _ => rfl
  have hdelete : ∀ x, (thresholdRule x).value "delete_rule" = .null := fun _ => rfl
  have hothers : ∀ x, ∀ p ∈ Rule.parts, p.name ≠ "threshold" →
      ¬ p.IsSpoiled (thresholdRule x) := by
    intro x p hp hname hspoiled
    simp only [Rule.parts, List.mem_cons, List.not_mem_nil, or_false] at hp
    rcases hp with rfl | rfl | rfl | rfl | rfl | rfl | rfl | rfl
    · exact Bool.false_ne_true hspoiled.1
    · exact hname rfl
    all_goals exact hspoiled.1 rfl
  constructor
  · have hbytes : ruleUpdate (thresholdRule (.ofBits 0x3FB999999999999A)) =
        .ok [0, 128, 0, 0xCD, 0xCC, 0xCC, 0x3D, 0, 0, 44, 1, 128] := by decide +kernel
    have htenth : (Double.ofBits 0x3FB999999999999A).isFinite = true := by decide
    have hframe := ruleUpdate_threshold (hclear (.ofBits 0x3FB999999999999A)) (hdelete _)
    exact ((hframe.1 _ (.float htenth)).1 _ hbytes).2.1
  · have hlarge : (Double.ofBits 0x4800000000000000).isFinite = true := by decide
    have hnone : (Double.ofBits 0x4800000000000000).toSingleBits? = none := by decide +kernel
    have hframe := ruleUpdate_threshold (hclear (.ofBits 0x4800000000000000)) (hdelete _)
    refine ((hframe.1 _ (.float hlarge)).2 (hothers _)).2.2 ?_
    exact (Double.toSingleBits?_eq_none_iff hlarge).1 hnone

end Downlink

end FarmLink
