import FarmLink.Proofs.Downlink.Precedence
import FarmLink.Proofs.Value.Conversion

/-!
# Refusal - how commands fail

A command that cannot be encoded is refused with an error that tells what is wrong with it. Two
kinds of commands fail otherwise: a port that is a list or a dict cannot be looked up among the
ports with a layout, and an infinite double among the bytes that a command gives itself stands for
no whole number. `encode_outcome` tells for each dict and port which of the three happens. The
layouts are settled by their parts, so they are answered; what is left are the ports and the bytes
that are passed through.
-/

namespace FarmLink

namespace Downlink

variable {data : Dict Value}

/-! ### The layouts -/

theorem answered_interval (hdata : (Value.dict data).isShowable = true) :
    Answered (interval data) := by
  cases h : (data.value "interval").isTruthy with
  | true => exact (settledBy_interval h).answered hdata
  | false =>
    rw [interval_of_not_isTruthy h]
    exact answered_ok _

theorem answered_ruleUpdate (hdata : (Value.dict data).isShowable = true) :
    Answered (ruleUpdate data) := by
  cases hclear : (data.value "clear_all").isTruthy with
  | true =>
    rw [ruleUpdate_of_clearAll hclear]
    exact answered_ok _
  | false =>
    by_cases hdelete : data.value "delete_rule" = .null
    · exact (settledBy_ruleUpdate hclear hdelete).answered hdata
    · exact (settledBy_ruleUpdate_of_delete hclear hdelete).answered hdata

/-! ### Bytes passed through -/

/-- A list in which an infinite double stands behind items that are all whole numbers. -/
def MeetsInfinity (raw : Value) : Prop :=
  ∃ before x after, raw = .list (before ++ .float x :: after) ∧ x.isInfinite = true ∧
    ∀ v ∈ before, ∃ n, v.toInt = .ok n

/-- The whole numbers that the items of a value stand for. -/
def intsOf (raw : Value) : Except Mismatch (List Int) := do
  let items ← raw.items
  items.mapM Value.toInt

/-- Among items that are texts no number is too large. -/
theorem mapM_toInt_ne_tooLarge {items : List Value} (h : ∀ v ∈ items, ∃ t, v = .text t) :
    items.mapM Value.toInt ≠ .error .tooLarge := by
  intro hlarge
  obtain ⟨before, v, after, rfl, -, hv⟩ := mapM_eq_error_iff.1 hlarge
  obtain ⟨x, rfl, -⟩ := Value.toInt_eq_tooLarge_iff.1 hv
  obtain ⟨t, ht⟩ := h (.float x) (List.mem_append_right _ List.mem_cons_self)
  cases ht

theorem intsOf_eq_tooLarge_iff {raw : Value} :
    intsOf raw = .error .tooLarge ↔ MeetsInfinity raw := by
  constructor
  · intro h
    unfold intsOf at h
    cases raw with
    | list items =>
      obtain ⟨before, v, after, rfl, hbefore, hv⟩ := mapM_eq_error_iff.1 h
      obtain ⟨x, rfl, hinf⟩ := Value.toInt_eq_tooLarge_iff.1 hv
      exact ⟨before, x, after, rfl, hinf, hbefore⟩
    | text t =>
      refine absurd h (mapM_toInt_ne_tooLarge fun v hv => ?_)
      obtain ⟨c, -, rfl⟩ := List.mem_map.1 hv
      exact ⟨[c], rfl⟩
    | dict entries =>
      refine absurd h (mapM_toInt_ne_tooLarge fun v hv => ?_)
      obtain ⟨e, -, rfl⟩ := List.mem_map.1 hv
      exact ⟨e.1, rfl⟩
    | null | bool _ | int _ | float _ => cases h
  · rintro ⟨before, x, after, rfl, hinf, hbefore⟩
    exact mapM_eq_error after hbefore (Value.toInt_eq_tooLarge_iff.2 ⟨x, rfl, hinf⟩)

/-- What stands in place of an empty list meets no infinity either. -/
theorem meetsInfinity_orElse {raw : Value} :
    MeetsInfinity (raw.orElse (.list [])) ↔ MeetsInfinity raw := by
  unfold Value.orElse
  by_cases h : raw.isTruthy = true
  · rw [if_pos h]
  · rw [if_neg h]
    constructor
    · rintro ⟨before, x, after, hempty, -⟩
      have hnil : before ++ .float x :: after = [] := (Value.list.inj hempty).symm
      exact absurd (List.append_eq_nil_iff.1 hnil).2 (List.cons_ne_nil _ _)
    · rintro ⟨before, x, after, rfl, -⟩
      refine absurd ?_ h
      cases before <;> rfl

theorem passThrough_eq (data : Dict Value) :
    passThrough data =
      match intsOf ((data.value "bytes").orElse (.list [])) with
      | .error .tooLarge => .error (.mismatch .tooLarge)
      | .error _ => refuse (.passThroughKind ((data.value "bytes").orElse (.list [])))
      | .ok ns =>
        match bytesOfInts? ns with
        | none => refuse (.passThroughRange ((data.value "bytes").orElse (.list [])))
        | some bs => .ok bs := rfl

theorem passThrough_of_meetsInfinity (h : MeetsInfinity (data.value "bytes")) :
    passThrough data = .error (.mismatch .tooLarge) := by
  rw [passThrough_eq, intsOf_eq_tooLarge_iff.2 (meetsInfinity_orElse.2 h)]

theorem answered_passThrough (hdata : (Value.dict data).isShowable = true)
    (h : ¬ MeetsInfinity (data.value "bytes")) : Answered (passThrough data) := by
  have hraw : ((data.value "bytes").orElse (.list [])).isShowable = true :=
    Value.isShowable_orElse (Value.isShowable_value hdata _) rfl
  have hnot := mt (meetsInfinity_orElse.1 ∘ intsOf_eq_tooLarge_iff.1) h
  rw [passThrough_eq]
  split
  · next hlarge => exact absurd hlarge hnot
  · exact answered_refuse hraw
  · split
    · exact answered_refuse hraw
    · exact answered_ok _

/-! ### Ports -/

/-- The ports with a layout of their own. -/
def layoutPorts : List Int := [5, 11, 16, 20, 30]

/-- The port of a command: the one given, or the one that the command holds. -/
def target (data : Dict Value) (port : Value) : Value := port.orElse (data.value "fPort")

/-- A port on which a command gives its bytes itself. -/
def PassesThrough (port : Value) : Prop := port ≠ .null ∧ ∀ n ∈ layoutPorts, port.equals n = false

theorem payload_of_not_mem {key : Option Int} (h : ∀ n ∈ layoutPorts, key ≠ some n) :
    payload data key = passThrough data := by
  unfold payload
  split
  · exact absurd rfl (h 5 (by decide))
  · exact absurd rfl (h 11 (by decide))
  · exact absurd rfl (h 16 (by decide))
  · exact absurd rfl (h 20 (by decide))
  · exact absurd rfl (h 30 (by decide))
  · rfl

theorem answered_payload (hdata : (Value.dict data).isShowable = true) {n : Int}
    (h : n ∈ layoutPorts) : Answered (payload data (some n)) := by
  simp only [layoutPorts, List.mem_cons, List.not_mem_nil, or_false] at h
  rcases h with rfl | rfl | rfl | rfl | rfl
  · exact answered_ok _
  · exact answered_interval hdata
  · exact (settledBy_displayTimeout data).answered hdata
  · exact (settledBy_directControl data).answered hdata
  · exact answered_ruleUpdate hdata

theorem encode_of_isContainer {port : Value} (h : (target data port).IsContainer) :
    encode data port = .error (.mismatch .wrongKind) := by
  have hnull : ¬ (target data port).isNull = true := fun hn => by
    rw [Value.isNull_iff.1 hn] at h
    exact h
  have hkey := Value.key_of_isContainer h
  unfold target at hnull hkey
  unfold encode
  simp only [hnull, hkey, Bool.false_eq_true, if_false]

theorem encode_of_not_isContainer {port : Value} (hnull : target data port ≠ .null)
    (h : ¬ (target data port).IsContainer) :
    encode data port = (payload data (target data port).whole?).bind fun bytes =>
      .ok { bytes, port := target data port } := by
  have hnull : ¬ (target data port).isNull = true := mt Value.isNull_iff.1 hnull
  have hkey := Value.key_of_not_isContainer h
  unfold target at hnull hkey
  unfold encode
  simp only [hnull, hkey, Bool.false_eq_true, if_false]
  rfl

/-- An encoded command is carried by the port it is for. -/
theorem port_of_encode_eq_ok {port : Value} {d : Downlink} (h : encode data port = .ok d) :
    d.port = target data port := by
  by_cases hcontainer : (target data port).IsContainer
  · cases (encode_of_isContainer hcontainer).symm.trans h
  · by_cases hnull : target data port = .null
    · unfold target at hnull
      unfold encode at h
      rw [hnull] at h
      unfold refuse at h
      cases h
    · rw [encode_of_not_isContainer hnull hcontainer] at h
      obtain ⟨bytes, -, hd⟩ := bind_eq_ok.1 h
      cases hd
      rfl

/-- The bytes of an encoded command can be shown; its port may be any value. -/
theorem isShowable_toDict (d : Downlink) :
    (Value.dict d.toDict).isShowable = d.port.isShowable := by
  have hbytes : (Value.list (d.bytes.map fun b => .int b.toNat)).isShowable = true := by
    rw [Value.isShowable_list_iff, List.forall_mem_map]
    intro b _
    rw [Value.isShowable_int]
    exact isShowable_byte b
  simp [toDict, hbytes]

/-- **How commands fail.**  A port that is a list or a dict fails as a value of the wrong kind; on
a port without a layout an infinite double among the bytes fails as a number too large; everything
else is encoded or refused with an error about the command. -/
theorem encode_outcome (hdata : (Value.dict data).isShowable = true) (port : Value) :
    ((target data port).IsContainer → encode data port = .error (.mismatch .wrongKind)) ∧
    (¬ (target data port).IsContainer → PassesThrough (target data port) →
      MeetsInfinity (data.value "bytes") → encode data port = .error (.mismatch .tooLarge)) ∧
    (¬ (target data port).IsContainer →
      ¬ (PassesThrough (target data port) ∧ MeetsInfinity (data.value "bytes")) →
      Answered (encode data port)) := by
  refine ⟨encode_of_isContainer, ?_, ?_⟩
  · intro h hpass hinf
    have hkey : ∀ n ∈ layoutPorts, (target data port).whole? ≠ some n := fun n hn =>
      beq_eq_false_iff_ne.1 (hpass.2 n hn)
    rw [encode_of_not_isContainer hpass.1 h, payload_of_not_mem hkey,
      passThrough_of_meetsInfinity hinf]
    rfl
  · intro h hnot
    by_cases hnull : target data port = .null
    · have hencode : encode data port = refuse .noPort := by
        unfold target at hnull
        unfold encode
        rw [hnull]
        rfl
      rw [hencode]
      exact answered_refuse rfl
    · rw [encode_of_not_isContainer hnull h]
      refine Answered.bind ?_ fun _ _ => answered_ok _
      by_cases hlayout : ∃ n ∈ layoutPorts, (target data port).whole? = some n
      · obtain ⟨n, hn, hkey⟩ := hlayout
        rw [hkey]
        exact answered_payload hdata hn
      · have hkey : ∀ n ∈ layoutPorts, (target data port).whole? ≠ some n := fun n hn hw =>
          hlayout ⟨n, hn, hw⟩
        rw [payload_of_not_mem hkey]
        refine answered_passThrough hdata fun hinf => hnot ⟨⟨hnull, fun n hn => ?_⟩, hinf⟩
        exact beq_eq_false_iff_ne.2 (hkey n hn)

/-- A command whose only byte is an infinite double. -/
def infiniteByte : Dict Value := [("bytes", .list [.float (.infinity false)])]

theorem encode_outcome_infiniteByte :
    (Value.dict infiniteByte).isShowable = true ∧ ¬ (target infiniteByte (.int 12)).IsContainer ∧
    PassesThrough (target infiniteByte (.int 12)) ∧ MeetsInfinity (infiniteByte.value "bytes") ∧
    encode infiniteByte (.int 12) = .error (.mismatch .tooLarge) := by
  have hdata : (Value.dict infiniteByte).isShowable = true := rfl
  have hcontainer : ¬ (target infiniteByte (.int 12)).IsContainer := id
  have hpass : PassesThrough (target infiniteByte (.int 12)) := ⟨by decide, by decide⟩
  have hinf : MeetsInfinity (infiniteByte.value "bytes") :=
    ⟨[], .infinity false, [], rfl, rfl, fun _ hv => absurd hv List.not_mem_nil⟩
  obtain ⟨-, hfailure, -⟩ := encode_outcome hdata (.int 12)
  exact ⟨hdata, hcontainer, hpass, hinf, hfailure hcontainer hpass hinf⟩

/-- **Not every failure is an error about the command.** -/
theorem encode_not_always_answered :
    ¬ ∀ (data : Dict Value) (port : Value), (Value.dict data).isShowable = true →
      (port = .null ∨ ∃ n, port = .int n ∧ isShowable n = true) → Answered (encode data port) := by
  intro hall
  have hport : (Value.int 12) = .null ∨ ∃ n, Value.int 12 = .int n ∧ isShowable n = true :=
    .inr ⟨12, rfl, by decide +kernel⟩
  have hfailure : encode infiniteByte (.int 12) = .error (.mismatch .tooLarge) := by decide +kernel
  rcases hall infiniteByte (.int 12) rfl hport with ⟨d, hd⟩ | ⟨fault, hfault⟩
  · rw [hfailure] at hd
    cases hd
  · rw [hfailure] at hfault
    cases hfault

end Downlink

end FarmLink
