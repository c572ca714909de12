import FarmLink.Proofs.Downlink.FixedLayout
import FarmLink.Proofs.Downlink.RuleFrame

/-!
# Frame - what is sent on a port

Each port has its layouts, and `IsFrame` lists them: the bytes of a command on a port together with
the numbers in the command that they hold, all of which fit. A command that is encoded has such a
frame (`isFrame_of_encode_eq_ok`), so its length is that of a layout of the port, and its dict form
holds numbers of one byte only (`IsSendable`).
-/

namespace FarmLink

namespace Downlink

/-- The frame of a command on a port. -/
inductive IsFrame (data : Dict Value) (port : Value) : Bytes → Prop
  | acknowledgment (hport : port.equals 5 = true) : IsFrame data port [0x01]
  | noInterval (hport : port.equals 11 = true) (h : (data.value "interval").isTruthy = false) :
      IsFrame data port []
  | interval {n : Nat} (hport : port.equals 11 = true) (h : data.value "interval" = .int n)
      (hpos : 0 < n) (hn : n < byteRange 4) : IsFrame data port (bigEndian 4 n)
  | displayTimeout {n : Nat} (hport : port.equals 16 = true)
      (h : (data.value "timeout_sec").Holds 0 n) (hn : n < byteRange 2) :
      IsFrame data port (bigEndian 2 n)
  | directControl {control state manual seconds : Nat} (hport : port.equals 20 = true)
      (hcontrol : (data.value "control_idx").Holds 0 control) (hcontrolLt : control < byteRange 1)
      (hstate : (data.value "state_idx").Holds 0 state) (hstateLt : state < byteRange 1)
      (hmanual : manual = if (data.value "is_manual").isTruthy then 1 else 0)
      (hseconds : (data.value "timeout_sec").Holds 0 seconds)
      (hsecondsLt : seconds < byteRange 4) :
      IsFrame data port (littleEndian 1 control ++ littleEndian 1 state ++ littleEndian 1 manual
        ++ littleEndian 4 seconds)
  | ruleUpdate {c : RuleCommand} (hport : port.equals 30 = true) (h : RuleCommand.Describes data c)
      (hfits : c.Fits) : IsFrame data port c.toBytes
  | passThrough {bs : Bytes} (hport : PassesThrough port)
      (h : intsOf ((data.value "bytes").orElse (.list [])) = .ok (bs.map fun b => (b.toNat : Int))) :
      IsFrame data port bs

/-- The ports with a layout of their own, each with the lengths that its frames have. -/
def frameLengths : List (Int × List Nat) :=
  [(5, [1]), (11, [0, 4]), (16, [2]), (20, [7]), (30, [2, 12])]

/-- Numbers that can be sent on a port: bytes, as many as a layout of the port has. -/
structure IsSendable (port : Value) (ns : List Int) : Prop where
  byte : ∀ n ∈ ns, 0 ≤ n ∧ n ≤ 255
  length : ∀ e ∈ frameLengths, port.equals e.1 = true → ns.length ∈ e.2

variable {data : Dict Value} {port : Value} {bs : Bytes}

/-! ### The layouts -/

theorem isFrame_of_interval (hport : port.equals 11 = true) (h : interval data = .ok bs) :
    IsFrame data port bs := by
  by_cases htruthy : (data.value "interval").isTruthy = true
  · obtain ⟨n, hint, hpos, hlt, rfl⟩ := exists_of_interval h htruthy
    exact .interval hport hint hpos hlt
  · rw [Bool.not_eq_true] at htruthy
    obtain rfl : [] = bs := Except.ok.inj ((interval_of_not_isTruthy htruthy).symm.trans h)
    exact .noInterval hport htruthy

theorem isFrame_of_displayTimeout (hport : port.equals 16 = true)
    (h : displayTimeout data = .ok bs) : IsFrame data port bs := by
  obtain ⟨n, hholds, hlt, rfl⟩ := exists_of_displayTimeout h
  exact .displayTimeout hport hholds hlt

theorem isFrame_of_directControl (hport : port.equals 20 = true)
    (h : directControl data = .ok bs) : IsFrame data port bs := by
  obtain ⟨control, state, seconds, hcontrol, hcontrolLt, hstate, hstateLt, hseconds, hsecondsLt,
    rfl⟩ := exists_of_directControl h
  exact .directControl hport hcontrol hcontrolLt hstate hstateLt rfl hseconds hsecondsLt

theorem isFrame_of_ruleUpdate (hport : port.equals 30 = true) (h : ruleUpdate data = .ok bs) :
    IsFrame data port bs := by
  obtain ⟨c, hdescribes, hfits, rfl⟩ := exists_describes h
  exact .ruleUpdate hport hdescribes hfits

/-- Numbers are taken for bytes as they are. -/
theorem bytesOfInts?_eq_some {ns : List Int} (h : bytesOfInts? ns = some bs) :
    ns = bs.map fun b => (b.toNat : Int) := by
  induction ns generalizing bs with
  | nil =>
    cases h
    rfl
  | cons n ns ih =>
    unfold bytesOfInts? at h
    rw [List.mapM_cons] at h
    obtain ⟨b, hb, h⟩ := Option.bind_eq_some_iff.1 h
    obtain ⟨rest, hrest, h⟩ := Option.bind_eq_some_iff.1 h
    cases h
    split at hb
    · next hrange =>
      cases hb
      have hvalue : ((UInt8.ofNat n.toNat).toNat : Int) = n := by
        rw [UInt8.toNat_ofNat']
        omega
      rw [List.map_cons, hvalue, ← ih hrest]
    · cases hb

/-- Bytes that are passed through are the numbers that were given for them. -/
theorem intsOf_of_passThrough_eq_ok (h : passThrough data = .ok bs) :
    intsOf ((data.value "bytes").orElse (.list [])) = .ok (bs.map fun b => (b.toNat : Int)) := by
  rw [passThrough_eq] at h
  split at h
  · cases h
  · cases h
  · next ns hns =>
    rw [hns]
    split at h
    · cases h
    · next hbytes =>
      cases h
      rw [← bytesOfInts?_eq_some hbytes]

theorem isFrame_of_passThrough (hport : PassesThrough port) (h : passThrough data = .ok bs) :
    IsFrame data port bs :=
  .passThrough hport (intsOf_of_passThrough_eq_ok h)

/-- **What is encoded has a frame of its port.** -/
theorem isFrame_of_encode_eq_ok {d : Downlink} (h : encode data port = .ok d) :
    IsFrame data (target data port) d.bytes := by
  have hnull := ne_null_of_encode_eq_ok h
  have hcontainer := not_isContainer_of_encode_eq_ok h
  rw [encode_of_not_isContainer hnull hcontainer] at h
  obtain ⟨bytes, hbytes, hd⟩ := bind_eq_ok.1 h
  cases hd
  -- the port has a layout of its own, or the bytes of the command are passed through
  by_cases hlayout : ∃ n ∈ layoutPorts, (target data port).whole? = some n
  · obtain ⟨n, hn, hkey⟩ := hlayout
    have hport : (target data port).equals n = true := beq_iff_eq.2 hkey
    rw [hkey] at hbytes
    simp only [layoutPorts, List.mem_cons, List.not_mem_nil, or_false] at hn
    rcases hn with rfl | rfl | rfl | rfl | rfl
    · cases hbytes
      exact .acknowledgment hport
    · exact isFrame_of_interval hport hbytes
    · exact isFrame_of_displayTimeout hport hbytes
    · exact isFrame_of_directControl hport hbytes
    · exact isFrame_of_ruleUpdate hport hbytes
  · have hkey : ∀ n ∈ layoutPorts, (target data port).whole? ≠ some n := fun n hn hw =>
      hlayout ⟨n, hn, hw⟩
    rw [payload_of_not_mem hkey] at hbytes
    exact isFrame_of_passThrough ⟨hnull, fun n hn => beq_eq_false_iff_ne.2 (hkey n hn)⟩ hbytes

/-! ### What can be sent -/

/-- A port equals one number at most. -/
theorem eq_of_equals {m n : Int} (hm : port.equals m = true) (hn : port.equals n = true) :
    m = n := by
  have hm : port.whole? = some m := beq_iff_eq.1 hm
  have hn : port.whole? = some n := beq_iff_eq.1 hn
  exact Option.some.inj (hm.symm.trans hn)

/-- A length of the layout that a port has is one of the lengths on that port. -/
theorem length_mem {n : Int} {lengths : List Nat} (hmem : (n, lengths) ∈ frameLengths)
    (hport : port.equals n = true) (hlength : bs.length ∈ lengths) :
    ∀ e ∈ frameLengths, port.equals e.1 = true → bs.length ∈ e.2 := by
  intro e he hequals
  have hunique : ∀ e ∈ frameLengths, ∀ f ∈ frameLengths, e.1 = f.1 → e = f := by decide
  rw [hunique e he _ hmem (eq_of_equals hequals hport)]
  exact hlength

theorem length_rule (c : RuleCommand) : c.toBytes.length ∈ [2, 12] := by
  cases c with
  | clearAll | delete ruleId => exact List.mem_cons_self
  | update rule => exact List.mem_cons_of_mem _ (List.mem_singleton.2 rule.length_toBytes)

/-- **A frame can be sent.** -/
theorem IsFrame.isSendable (h : IsFrame data port bs) :
    IsSendable port (bs.map fun b => (b.toNat : Int)) where
  byte := by
    intro n hn
    obtain ⟨b, -, rfl⟩ := List.mem_map.1 hn
    have hlt := b.toNat_lt
    omega
  length := by
    rw [List.length_map]
    cases h with
    | acknowledgment hport =>
      exact length_mem (show (5, [1]) ∈ frameLengths by decide) hport (by decide)
    | noInterval hport =>
      exact length_mem (show (11, [0, 4]) ∈ frameLengths by decide) hport (by decide)
    | interval hport =>
      refine length_mem (show (11, [0, 4]) ∈ frameLengths by decide) hport ?_
      simp [length_bigEndian]
    | displayTimeout hport =>
      refine length_mem (show (16, [2]) ∈ frameLengths by decide) hport ?_
      simp [length_bigEndian]
    | directControl hport =>
      refine length_mem (show (20, [7]) ∈ frameLengths by decide) hport ?_
      simp [length_littleEndian]
    | ruleUpdate hport =>
      exact length_mem (show (30, [2, 12]) ∈ frameLengths by decide) hport (length_rule _)
    | passThrough hport =>
      intro e he hequals
      have hnone : port.equals e.1 = false :=
        hport.2 e.1 (show e.1 ∈ frameLengths.map Prod.fst from List.mem_map_of_mem he)
      rw [hnone] at hequals
      cases hequals

end Downlink

end FarmLink
