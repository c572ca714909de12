import FarmLink.PortMap.Basic
import FarmLink.Proofs.Downlink.Refusal

/-!
# Carrier - the ports on which commands go out

Ports open to applications are the whole numbers of a `PortDef`. A command takes its port from the
caller or out of its own dict, and the only check there is whether the port can be looked up among
those with a layout: nothing and containers fail, anything else carries the command. So beside the
application ports there are stray ones (`IsStray`): a text of digits is none of the ports with a
layout, and the command on it gives its bytes itself, which are none where it has another layout in
mind (`encode_by_target`).
-/

namespace FarmLink

namespace Downlink

/-- A whole number of a port open to applications. -/
def IsApplicationPort (port : Value) : Prop :=
  ∃ n : Int, port = .int n ∧ PortDef.firstPort ≤ n ∧ n ≤ PortDef.lastPort

/-- What can be looked up among ports although it is none that is open to applications. -/
def IsStray (port : Value) : Prop :=
  port ≠ .null ∧ ¬ port.IsContainer ∧ ¬ IsApplicationPort port

variable {data : Dict Value} {port : Value}

theorem isApplicationPort_int {n : Int} :
    IsApplicationPort (.int n) ↔ PortDef.firstPort ≤ n ∧ n ≤ PortDef.lastPort := by
  constructor
  · rintro ⟨m, hm, hrange⟩
    cases hm
    exact hrange
  · intro hrange
    exact ⟨n, rfl, hrange⟩

/-- Truth values, doubles, texts, and numbers out of range are stray. -/
theorem isStray_iff : IsStray port ↔ (∃ b, port = .bool b) ∨ (∃ x, port = .float x) ∨
    (∃ t, port = .text t) ∨
    ∃ n : Int, port = .int n ∧ (n < PortDef.firstPort ∨ PortDef.lastPort < n) := by
  unfold IsStray
  cases port with
  | int n =>
    rw [isApplicationPort_int]
    simp [Value.IsContainer]
    omega
  | null | bool b | float x | text t | list items | dict entries =>
    simp [Value.IsContainer, IsApplicationPort]

/-! ### From the port to the bytes -/

theorem encode_of_null (h : target data port = .null) :
    encode data port = .error (.codec (.encode .noPort)) := by
  unfold target at h
  unfold encode
  rw [h]
  rfl

theorem not_null_of_equals {n : Int} (h : port.equals n = true) : port ≠ .null := by
  rintro rfl
  cases h

/-- A port that equals one with a layout is that one. -/
theorem encode_of_equals {n : Int} (hcontainer : ¬ (target data port).IsContainer)
    (h : (target data port).equals n = true) :
    encode data port = (payload data (some n)).map fun bytes => ⟨bytes, target data port⟩ := by
  rw [encode_of_not_isContainer (not_null_of_equals h) hcontainer, eq_of_beq h]
  rfl

theorem encode_of_passesThrough (hcontainer : ¬ (target data port).IsContainer)
    (h : PassesThrough (target data port)) :
    encode data port = (passThrough data).map fun bytes => ⟨bytes, target data port⟩ := by
  have hkey : ∀ n ∈ layoutPorts, (target data port).whole? ≠ some n := fun n hn =>
    beq_eq_false_iff_ne.1 (h.2 n hn)
  rw [encode_of_not_isContainer h.1 hcontainer, payload_of_not_mem hkey]
  rfl

/-- A command without bytes has none to pass through. -/
theorem passThrough_of_not_isTruthy (h : (data.value "bytes").isTruthy = false) :
    passThrough data = .ok [] := by
  have hraw : (data.value "bytes").orElse (.list []) = .list [] := by
    unfold Value.orElse
    rw [h]
    rfl
  rw [passThrough_eq, hraw]
  rfl

theorem ne_null_of_encode_eq_ok {d : Downlink} (h : encode data port = .ok d) :
    target data port ≠ .null := by
  intro hnull
  rw [encode_of_null hnull] at h
  cases h

theorem not_isContainer_of_encode_eq_ok {d : Downlink} (h : encode data port = .ok d) :
    ¬ (target data port).IsContainer := by
  intro hcontainer
  rw [encode_of_isContainer hcontainer] at h
  cases h

/-- What carries a command is open to applications or stray. -/
theorem carrier_of_encode_eq_ok {d : Downlink} (h : encode data port = .ok d) :
    IsApplicationPort d.port ∨ IsStray d.port := by
  rw [port_of_encode_eq_ok h]
  by_cases happlication : IsApplicationPort (target data port)
  · exact .inl happlication
  · exact .inr ⟨ne_null_of_encode_eq_ok h, not_isContainer_of_encode_eq_ok h, happlication⟩

/-- **The port decides, whatever it is.**  Commands without a port and commands for a container are
refused.  A port that equals one with a layout has this layout; on any other one the bytes that the
command gives are passed through, none if it gives none.  So a port is either open to applications
or stray, and stray ones are not refused. -/
theorem encode_by_target (data : Dict Value) (port : Value) :
    (target data port = .null → encode data port = .error (.codec (.encode .noPort))) ∧
    ((target data port).IsContainer → encode data port = .error (.mismatch .wrongKind)) ∧
    (¬ (target data port).IsContainer →
      (∀ n ∈ layoutPorts, (target data port).equals n = true →
        encode data port = (payload data (some n)).map fun bytes => ⟨bytes, target data port⟩) ∧
      (PassesThrough (target data port) →
        encode data port = (passThrough data).map (fun bytes => ⟨bytes, target data port⟩) ∧
        ((data.value "bytes").isTruthy = false →
          encode data port = .ok ⟨[], target data port⟩))) ∧
    ∀ d, encode data port = .ok d →
      d.port = target data port ∧ (IsApplicationPort d.port ∨ IsStray d.port) := by
  refine ⟨encode_of_null, encode_of_isContainer, fun hcontainer => ⟨?_, ?_⟩, ?_⟩
  · exact fun n _ hn => encode_of_equals hcontainer hn
  · intro hpass
    have hencode := encode_of_passesThrough hcontainer hpass
    refine ⟨hencode, fun hempty => ?_⟩
    rw [hencode, passThrough_of_not_isTruthy hempty]
    rfl
  · exact fun d hd => ⟨port_of_encode_eq_ok hd, carrier_of_encode_eq_ok hd⟩

/-- A command for the port of intervals, which it names by a text. -/
def textPort : Dict Value := [("fPort", .text "11"), ("interval", .int 600)]

theorem encode_by_target_textPort :
    ¬ (target textPort .null).IsContainer ∧ PassesThrough (target textPort .null) ∧
    (textPort.value "bytes").isTruthy = false ∧ encode textPort .null = .ok ⟨[], .text "11"⟩ ∧
    IsStray (.text "11") := by
  have hcontainer : ¬ (target textPort .null).IsContainer := id
  have hpass : PassesThrough (target textPort .null) := ⟨by decide, by decide⟩
  obtain ⟨-, -, hdispatch, -⟩ := encode_by_target textPort .null
  exact ⟨hcontainer, hpass, rfl, ((hdispatch hcontainer).2 hpass).2 rfl,
    isStray_iff.2 (.inr (.inr (.inl ⟨"11", rfl⟩)))⟩

/-- **Not every command goes out on a port open to applications.** -/
theorem encode_not_always_carried :
    ¬ ∀ (data : Dict Value) (port : Value) (d : Downlink), (Value.dict data).isShowable = true →
      port.isShowable = true → encode data port = .ok d → IsApplicationPort d.port := by
  intro hall
  have hencode : encode textPort .null = .ok ⟨[], .text "11"⟩ := by decide +kernel
  obtain ⟨n, hn, -⟩ := hall textPort .null _ (by decide +kernel) rfl hencode
  cases hn

end Downlink

end FarmLink
