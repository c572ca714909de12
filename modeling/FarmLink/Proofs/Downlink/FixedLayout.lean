import FarmLink.Proofs.Downlink.Carrier

/-!
# FixedLayout - controls that carry their numbers

Three ports carry commands of a fixed length: the reporting interval and the display timeout with
the highest byte first, the control set by hand with the lowest byte first. Each has one lemma for
the numbers in its bytes, beside that for the parts that settle it. On the ports themselves the two
come together in `encode_fixed_layouts`; a port given as a double or within the command counts as
well.
-/

namespace FarmLink

/-- The number whose bytes, most significant first, are given. -/
def ofBigEndian (bs : Bytes) : Nat := bs.foldl (fun n b => 256 * n + b.toNat) 0

theorem ofBigEndian_reverse (bs : Bytes) : ofBigEndian bs.reverse = ofLittleEndian bs := by
  unfold ofBigEndian
  rw [List.foldl_reverse]
  induction bs with
  | nil => rfl
  | cons b bs ih =>
    rw [List.foldr_cons, ih, ofLittleEndian]
    omega

theorem ofBigEndian_bigEndian {width n : Nat} (h : n < byteRange width) :
    ofBigEndian (bigEndian width n) = n := by
  rw [bigEndian, ofBigEndian_reverse, ofLittleEndian_littleEndian, Nat.mod_eq_of_lt h]

theorem length_bigEndian (width n : Nat) : (bigEndian width n).length = width := by
  rw [bigEndian, List.length_reverse, length_littleEndian]

namespace Downlink

variable {data : Dict Value} {bs : Bytes}

/-! ### The numbers in a layout -/

/-- An interval that says yes is there, and it is not zero. -/
theorem exists_of_interval (hbytes : interval data = .ok bs)
    (h : (data.value "interval").isTruthy = true) :
    ∃ n : Nat, data.value "interval" = .int n ∧ 0 < n ∧ n < byteRange 4 ∧
      bs = bigEndian 4 n := by
  unfold interval at hbytes
  rw [if_pos h] at hbytes
  obtain ⟨n, hn, hbytes⟩ := bind_eq_ok.1 hbytes
  cases hbytes
  obtain ⟨hint | ⟨hnull, -⟩, hlt⟩ := (natural_eq_ok_iff (by decide)).1 hn
  · rw [hint] at h
    have hne : (n : Int) ≠ 0 := bne_iff_ne.1 h
    exact ⟨n, hint, by omega, hlt, rfl⟩
  · rw [hnull] at h
    simp [Value.isTruthy] at h

theorem exists_of_displayTimeout (hbytes : displayTimeout data = .ok bs) :
    ∃ n, (data.value "timeout_sec").Holds 0 n ∧ n < byteRange 2 ∧ bs = bigEndian 2 n := by
  obtain ⟨n, hn, hbytes⟩ := bind_eq_ok.1 hbytes
  cases hbytes
  obtain ⟨hholds, hlt⟩ := (natural_eq_ok_iff (by decide)).1 hn
  exact ⟨n, hholds, hlt, rfl⟩

theorem exists_of_directControl (hbytes : directControl data = .ok bs) :
    ∃ control state seconds, (data.value "control_idx").Holds 0 control ∧
      control < byteRange 1 ∧ (data.value "state_idx").Holds 0 state ∧ state < byteRange 1 ∧
      (data.value "timeout_sec").Holds 0 seconds ∧ seconds < byteRange 4 ∧
      bs = littleEndian 1 control ++ littleEndian 1 state
        ++ littleEndian 1 (if (data.value "is_manual").isTruthy then 1 else 0)
        ++ littleEndian 4 seconds := by
  obtain ⟨control, hcontrol, hbytes⟩ := bind_eq_ok.1 hbytes
  obtain ⟨state, hstate, hbytes⟩ := bind_eq_ok.1 hbytes
  obtain ⟨seconds, hseconds, hbytes⟩ := bind_eq_ok.1 hbytes
  cases hbytes
  obtain ⟨hcontrol, hcontrolLt⟩ := (natural_eq_ok_iff (by decide)).1 hcontrol
  obtain ⟨hstate, hstateLt⟩ := (natural_eq_ok_iff (by decide)).1 hstate
  obtain ⟨hseconds, hsecondsLt⟩ := (natural_eq_ok_iff (by decide)).1 hseconds
  exact ⟨control, state, seconds, hcontrol, hcontrolLt, hstate, hstateLt, hseconds, hsecondsLt, rfl⟩

/-- **The layout of a control set by hand.**  Seven bytes: the control, its state, a one where it
stays manual, and the seconds, lowest byte first. -/
def ControlLaidOut (data : Dict Value) : Bytes → Prop
  | [control, state, manual, s0, s1, s2, s3] =>
    (data.value "control_idx").Holds 0 control.toNat ∧
    (data.value "state_idx").Holds 0 state.toNat ∧
    manual = (if (data.value "is_manual").isTruthy then 1 else 0) ∧
    (data.value "timeout_sec").Holds 0 (ofLittleEndian [s0, s1, s2, s3])
  | _ => False

theorem controlLaidOut_of_directControl (hbytes : directControl data = .ok bs) :
    ControlLaidOut data bs := by
  obtain ⟨control, state, seconds, hcontrol, hcontrolLt, hstate, hstateLt, hseconds, hsecondsLt,
    rfl⟩ := exists_of_directControl hbytes
  obtain ⟨s0, s1, s2, s3, hword⟩ : ∃ s0 s1 s2 s3, littleEndian 4 seconds = [s0, s1, s2, s3] :=
    ⟨_, _, _, _, rfl⟩
  have hvalue : ofLittleEndian [s0, s1, s2, s3] = seconds := by
    rw [← hword, ofLittleEndian_littleEndian, Nat.mod_eq_of_lt hsecondsLt]
  rw [hword]
  simp only [littleEndian, List.cons_append, List.nil_append, ControlLaidOut, hvalue,
    toNat_ofNat_of_lt hcontrolLt, toNat_ofNat_of_lt hstateLt]
  refine ⟨hcontrol, hstate, ?_, hseconds⟩
  split <;> rfl

/-! ### On the ports -/

theorem not_isContainer_of_equals {port : Value} {n : Int} (h : port.equals n = true) :
    ¬ port.IsContainer := by
  intro hcontainer
  cases port <;> simp_all [Value.IsContainer, Value.equals, Value.whole?]

/-- **Fixed layouts carry their numbers exactly.**  An interval that says no gives the empty frame;
apart from that each layout is settled by its whole numbers in their order, and what is sent holds
them as the command does. -/
theorem encode_fixed_layouts (data : Dict Value) (port : Value) :
    ((target data port).equals 11 = true →
      ((data.value "interval").isTruthy = false →
        encode data port = .ok ⟨[], target data port⟩) ∧
      ((data.value "interval").isTruthy = true →
        SettledBy data [.natural "interval" 4] (encode data port) ∧
        ∀ d, encode data port = .ok d →
          d.bytes.length = 4 ∧ data.value "interval" = .int (ofBigEndian d.bytes))) ∧
    ((target data port).equals 16 = true →
      SettledBy data [.natural "timeout_sec" 2] (encode data port) ∧
      ∀ d, encode data port = .ok d →
        d.bytes.length = 2 ∧ (data.value "timeout_sec").Holds 0 (ofBigEndian d.bytes)) ∧
    ((target data port).equals 20 = true →
      SettledBy data [.natural "control_idx" 1, .natural "state_idx" 1, .natural "timeout_sec" 4]
        (encode data port) ∧
      ∀ d, encode data port = .ok d → ControlLaidOut data d.bytes) := by
  -- on a port with a layout, what is encoded are the bytes of the layout
  have hencode (n : Int) (hport : (target data port).equals n = true) :=
    encode_of_equals (not_isContainer_of_equals hport) hport
  have hbytes (n : Int) (hport : (target data port).equals n = true) {d : Downlink}
      (hd : encode data port = .ok d) : payload data (some n) = .ok d.bytes := by
    rw [hencode n hport] at hd
    rcases hpayload : payload data (some n) with f | bs
    · simp [hpayload, Except.map] at hd
    · rw [hpayload] at hd
      cases hd
      rfl
  refine ⟨fun hport => ⟨fun hfalsy => ?_, fun htruthy => ⟨?_, fun d hd => ?_⟩⟩,
    fun hport => ⟨?_, fun d hd => ?_⟩, fun hport => ⟨?_, fun d hd => ?_⟩⟩
  · rw [hencode 11 hport, show payload data (some 11) = interval data from rfl,
      interval_of_not_isTruthy hfalsy]
    rfl
  · rw [hencode 11 hport]
    exact (settledBy_interval htruthy).map _
  · obtain ⟨n, hn, -, hlt, heq⟩ := exists_of_interval (hbytes 11 hport hd) htruthy
    rw [heq, length_bigEndian, ofBigEndian_bigEndian hlt]
    exact ⟨rfl, hn⟩
  · rw [hencode 16 hport]
    exact (settledBy_displayTimeout data).map _
  · obtain ⟨n, hn, hlt, heq⟩ := exists_of_displayTimeout (hbytes 16 hport hd)
    rw [heq, length_bigEndian, ofBigEndian_bigEndian hlt]
    exact ⟨rfl, hn⟩
  · rw [hencode 20 hport]
    exact (settledBy_directControl data).map _
  · exact controlLaidOut_of_directControl (hbytes 20 hport hd)

/-- A control set by hand for an hour, and an interval that is a truth value. -/
def controlForAnHour : Dict Value :=
  [("control_idx", .int 7), ("is_manual", .text "yes"), ("timeout_sec", .int 3600),
    ("interval", .bool true)]

/-- The control goes out on port 20, its state as zero; its timeout alone on port 16; and the truth
value is refused on port 11. -/
theorem encode_fixed_layouts_anHour :
    ControlLaidOut controlForAnHour [7, 0, 1, 16, 14, 0, 0] ∧
    (controlForAnHour.value "timeout_sec").Holds 0 (ofBigEndian [14, 16]) ∧
    Names controlForAnHour "interval" (encode controlForAnHour (.int 11)) ∧
    encode [("interval", .list [])] (.int 11) = .ok ⟨[], .int 11⟩ := by
  have hcontrol : encode controlForAnHour (.int 20) = .ok ⟨[7, 0, 1, 16, 14, 0, 0], .int 20⟩ := by
    decide +kernel
  have htimeout : encode controlForAnHour (.int 16) = .ok ⟨[14, 16], .int 16⟩ := by decide +kernel
  have hspoiled : FirstSpoiled controlForAnHour [.natural "interval" 4] (.natural "interval" 4) :=
    firstSpoiled_cons.2 (.inl ⟨rfl, by decide, fun n _ h => Value.noConfusion h⟩)
  obtain ⟨hinterval, -, -⟩ := encode_fixed_layouts controlForAnHour (.int 11)
  obtain ⟨-, hdisplay, -⟩ := encode_fixed_layouts controlForAnHour (.int 16)
  obtain ⟨-, -, hdirect⟩ := encode_fixed_layouts controlForAnHour (.int 20)
  exact ⟨(hdirect rfl).2 _ hcontrol, ((hdisplay rfl).2 _ htimeout).2,
    ((hinterval rfl).2 rfl).1.names _ hspoiled rfl,
    ((encode_fixed_layouts _ (.int 11)).1 rfl).1 rfl⟩

end Downlink

end FarmLink
