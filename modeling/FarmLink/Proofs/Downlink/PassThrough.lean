import FarmLink.Proofs.Downlink.Frame

/-!
# PassThrough - the bytes that a command gives itself

On a port without a layout a command gives its bytes itself, as anything with items that stand for
whole numbers (`StandsFor`): a list, the characters of a text, the keys of a dict. A payload from a
device is masked where a number does not fit; here nothing is. Either every number is one of a byte
and is sent as it is, in its place, or the whole command is refused with an error that names the
bytes (`encode_passThrough`).
-/

namespace FarmLink

namespace Downlink

/-- The items of a value stand for whole numbers, each for the one in its place. -/
def StandsFor (raw : Value) (ns : List Int) : Prop :=
  ∃ items, raw.items = .ok items ∧ List.Forall₂ (fun v n => v.toInt = .ok n) items ns

/-- Numbers of one byte each. -/
def AreBytes (ns : List Int) : Prop := ∀ n ∈ ns, 0 ≤ n ∧ n ≤ 255

instance (ns : List Int) : Decidable (AreBytes ns) :=
  inferInstanceAs (Decidable (∀ n ∈ ns, 0 ≤ n ∧ n ≤ 255))

/-- The dict form of numbers that are sent on a port. -/
def sent (port : Value) (ns : List Int) : Dict Value :=
  [("bytes", .list (ns.map .int)), ("fPort", port)]

variable {data : Dict Value} {port raw : Value} {ns : List Int}

/-! ### Numbers and bytes -/

theorem areBytes_map_toNat (bs : Bytes) : AreBytes (bs.map fun b => (b.toNat : Int)) := by
  intro n hn
  obtain ⟨b, -, rfl⟩ := List.mem_map.1 hn
  have hlt := b.toNat_lt
  omega

/-- Numbers of one byte each are bytes. -/
theorem exists_of_areBytes (h : AreBytes ns) :
    ∃ bs : Bytes, bytesOfInts? ns = some bs ∧ ns = bs.map fun b => (b.toNat : Int) := by
  have hsome : ∃ bs, bytesOfInts? ns = some bs := by
    induction ns with
    | nil => exact ⟨[], rfl⟩
    | cons n ns ih =>
      obtain ⟨hn, hns⟩ := List.forall_mem_cons.1 h
      obtain ⟨bs, hbs⟩ := ih hns
      refine ⟨UInt8.ofNat n.toNat :: bs, ?_⟩
      unfold bytesOfInts? at hbs ⊢
      rw [List.mapM_cons, if_pos hn, hbs]
      rfl
  obtain ⟨bs, hbs⟩ := hsome
  exact ⟨bs, hbs, bytesOfInts?_eq_some hbs⟩

theorem intsOf_eq_ok_iff : intsOf raw = .ok ns ↔ StandsFor raw ns := by
  unfold intsOf StandsFor
  rw [bind_eq_ok]
  simp only [mapM_eq_ok_iff]

/-- A list of whole numbers stands for them. -/
theorem standsFor_list (ns : List Int) : StandsFor (.list (ns.map .int)) ns := by
  refine ⟨_, rfl, ?_⟩
  rw [List.forall₂_map_left_iff, List.forall₂_same]
  exact fun n _ => rfl

/-! ### Bytes that are given -/

section Given

variable (htruthy : (data.value "bytes").isTruthy = true)

include htruthy

theorem given_bytes : (data.value "bytes").orElse (.list []) = data.value "bytes" := by
  unfold Value.orElse
  rw [if_pos htruthy]

/-- What stands for numbers of one byte each is passed through as them. -/
theorem passThrough_of_areBytes (h : StandsFor (data.value "bytes") ns) (hns : AreBytes ns) :
    ∃ bs, passThrough data = .ok bs ∧ ns = bs.map fun b => (b.toNat : Int) := by
  obtain ⟨bs, hbytes, hvalues⟩ := exists_of_areBytes hns
  refine ⟨bs, ?_, hvalues⟩
  rw [passThrough_eq, given_bytes htruthy, intsOf_eq_ok_iff.2 h]
  simp only [hbytes]

/-- Nothing else is passed through. -/
theorem standsFor_of_passThrough_eq_ok {bs : Bytes} (h : passThrough data = .ok bs) :
    StandsFor (data.value "bytes") (bs.map fun b => (b.toNat : Int)) := by
  have hints := intsOf_of_passThrough_eq_ok h
  rw [given_bytes htruthy] at hints
  exact intsOf_eq_ok_iff.1 hints

/-- What stands for no whole numbers is refused for its kind. -/
theorem passThrough_of_not_standsFor (h : ∀ ns, ¬ StandsFor (data.value "bytes") ns)
    (hfinite : ¬ MeetsInfinity (data.value "bytes")) :
    passThrough data = refuse (.passThroughKind (data.value "bytes")) := by
  rw [passThrough_eq, given_bytes htruthy]
  split
  · next hlarge => exact absurd (intsOf_eq_tooLarge_iff.1 hlarge) hfinite
  · rfl
  · next ns hns => exact absurd (intsOf_eq_ok_iff.1 hns) (h ns)

/-- What stands for whole numbers that are not all of one byte is refused for them. -/
theorem passThrough_of_not_areBytes (h : StandsFor (data.value "bytes") ns)
    (hns : ¬ AreBytes ns) :
    passThrough data = refuse (.passThroughRange (data.value "bytes")) := by
  rw [passThrough_eq, given_bytes htruthy, intsOf_eq_ok_iff.2 h]
  cases hbytes : bytesOfInts? ns with
  | none => simp only [hbytes]
  | some bs =>
    rw [bytesOfInts?_eq_some hbytes] at hns
    exact absurd (areBytes_map_toNat bs) hns

/-- **What is not passed through is refused by its name.** -/
theorem names_passThrough (hshow : (data.value "bytes").isShowable = true)
    (hfinite : ¬ MeetsInfinity (data.value "bytes"))
    (h : ¬ ∃ ns, StandsFor (data.value "bytes") ns ∧ AreBytes ns) :
    Names data "bytes" (passThrough data) := by
  by_cases hnumbers : ∃ ns, StandsFor (data.value "bytes") ns
  · obtain ⟨ns, hns⟩ := hnumbers
    rw [passThrough_of_not_areBytes htruthy hns fun hbytes => h ⟨ns, hns, hbytes⟩]
    exact ⟨_, refuse_eq hshow, rfl, rfl⟩
  · rw [passThrough_of_not_standsFor htruthy (not_exists.1 hnumbers) hfinite]
    exact ⟨_, refuse_eq hshow, rfl, rfl⟩

end Given

/-! ### Commands -/

/-- A whole number that says yes is the port, whatever port the command holds. -/
theorem target_int {n : Int} (h : n ≠ 0) (data : Dict Value) : target data (.int n) = .int n := by
  unfold target Value.orElse
  exact if_pos (bne_iff_ne.2 h)

/-- A whole number without a layout passes bytes through. -/
theorem passesThrough_of_equals {n : Int} (h : port.equals n = true) (hn : n ∉ layoutPorts) :
    PassesThrough port := by
  refine ⟨not_null_of_equals h, fun m hm => ?_⟩
  rw [Bool.eq_false_iff]
  exact fun hequals => hn (eq_of_equals h hequals ▸ hm)

/-- The dict form of bytes holds their values. -/
theorem toDict_eq_sent (bs : Bytes) (port : Value) :
    toDict ⟨bs, port⟩ = sent port (bs.map fun b => (b.toNat : Int)) := by
  unfold sent
  rw [List.map_map]
  rfl

section Ports

variable {n : Int} (hport : (target data port).equals n = true) (hn : n ∉ layoutPorts)

include hport hn

theorem encode_eq_passThrough :
    encode data port = (passThrough data).map fun bytes => ⟨bytes, target data port⟩ :=
  encode_of_passesThrough (not_isContainer_of_equals hport) (passesThrough_of_equals hport hn)

/-- Where no bytes are given none are sent. -/
theorem encode_of_not_isTruthy (hfalsy : (data.value "bytes").isTruthy = false) :
    encode data port = .ok ⟨[], target data port⟩ := by
  rw [encode_eq_passThrough hport hn, passThrough_of_not_isTruthy hfalsy]
  rfl

/-- What is given and stands for numbers of one byte each is sent as them. -/
theorem encode_of_areBytes (htruthy : (data.value "bytes").isTruthy = true)
    (h : StandsFor (data.value "bytes") ns) (hns : AreBytes ns) :
    (encode data port).map toDict = .ok (sent (target data port) ns) := by
  obtain ⟨bs, hpass, rfl⟩ := passThrough_of_areBytes htruthy h hns
  rw [encode_eq_passThrough hport hn, hpass, ← toDict_eq_sent]
  rfl

theorem map_encode_eq_ok_iff (htruthy : (data.value "bytes").isTruthy = true)
    {document : Dict Value} :
    (encode data port).map toDict = .ok document ↔
      ∃ ns, StandsFor (data.value "bytes") ns ∧ AreBytes ns ∧
        document = sent (target data port) ns := by
  constructor
  · intro h
    rw [encode_eq_passThrough hport hn] at h
    cases hpass : passThrough data with
    | error f =>
      rw [hpass] at h
      cases h
    | ok bs =>
      rw [hpass] at h
      refine ⟨_, standsFor_of_passThrough_eq_ok htruthy hpass, areBytes_map_toNat bs, ?_⟩
      rw [← toDict_eq_sent]
      exact (Except.ok.inj h).symm
  · rintro ⟨ns, h, hns, rfl⟩
    exact encode_of_areBytes hport hn htruthy h hns

/-- A list of numbers of one byte each is sent as it is, whether or not it has any. -/
theorem encode_of_list (hns : AreBytes ns) (hlist : data.value "bytes" = .list (ns.map .int)) :
    (encode data port).map toDict = .ok (sent (target data port) ns) := by
  cases ns with
  | nil =>
    have hfalsy : (data.value "bytes").isTruthy = false := by
      rw [hlist]
      rfl
    rw [encode_of_not_isTruthy hport hn hfalsy]
    rfl
  | cons m ns =>
    have htruthy : (data.value "bytes").isTruthy = true := by
      rw [hlist]
      rfl
    exact encode_of_areBytes hport hn htruthy (hlist ▸ standsFor_list (m :: ns)) hns

/-- **A command that is not encoded is refused by the name of its bytes.** -/
theorem names_encode (hshow : (data.value "bytes").isShowable = true)
    (hfinite : ¬ MeetsInfinity (data.value "bytes")) (h : ∀ d, encode data port ≠ .ok d) :
    Names data "bytes" (encode data port) := by
  have htruthy : (data.value "bytes").isTruthy = true := by
    rw [← Bool.not_eq_false]
    exact fun hfalsy => h _ (encode_of_not_isTruthy hport hn hfalsy)
  have hbytes : ¬ ∃ ns, StandsFor (data.value "bytes") ns ∧ AreBytes ns := by
    rintro ⟨ns, hns, hbytes⟩
    obtain ⟨bs, hpass, -⟩ := passThrough_of_areBytes htruthy hns hbytes
    refine h ⟨bs, target data port⟩ ?_
    rw [encode_eq_passThrough hport hn, hpass]
    rfl
  obtain ⟨fault, hpass, hfield, hvalue⟩ := names_passThrough htruthy hshow hfinite hbytes
  refine ⟨fault, ?_, hfield, hvalue⟩
  rw [encode_eq_passThrough hport hn, hpass]
  rfl

end Ports

/-- Where no item is an infinite double, none is met. -/
theorem not_meetsInfinity_of_items {items : List Value} (hitems : raw = .list items)
    (h : ∀ x, .float x ∈ items → x.isInfinite = false) : ¬ MeetsInfinity raw := by
  rintro ⟨before, x, after, hraw, hinf, -⟩
  rw [hitems] at hraw
  obtain rfl := Value.list.inj hraw
  have hmem : Value.float x ∈ before ++ .float x :: after :=
    List.mem_append_right before List.mem_cons_self
  rw [h x hmem] at hinf
  cases hinf

/-- **The bytes of a command are sent as they are given, or not at all.**  On a whole number that is
no port with a layout a command that gives no bytes has none.  One that gives some is encoded if and
only if their items stand for numbers of one byte each, and what is sent then are these numbers, in
their order; a list of such numbers is sent as it is.  Otherwise the command is refused by an error
that names the bytes and holds what was given for them. -/
theorem encode_passThrough {n : Int} (hport : (target data port).equals n = true)
    (hn : n ∉ layoutPorts) (hshow : (data.value "bytes").isShowable = true)
    (hfinite : ¬ MeetsInfinity (data.value "bytes")) :
    ((data.value "bytes").isTruthy = false →
      (encode data port).map toDict = .ok (sent (target data port) [])) ∧
    ((data.value "bytes").isTruthy = true → ∀ document,
      ((encode data port).map toDict = .ok document ↔
        ∃ ns, StandsFor (data.value "bytes") ns ∧ AreBytes ns ∧
          document = sent (target data port) ns)) ∧
    (∀ ns, AreBytes ns → data.value "bytes" = .list (ns.map .int) →
      (encode data port).map toDict = .ok (sent (target data port) ns)) ∧
    ((∀ d, encode data port ≠ .ok d) → Names data "bytes" (encode data port)) := by
  refine ⟨fun hfalsy => ?_, fun htruthy document => map_encode_eq_ok_iff hport hn htruthy,
    fun ns hns hlist => encode_of_list hport hn hns hlist, names_encode hport hn hshow hfinite⟩
  rw [encode_of_not_isTruthy hport hn hfalsy]
  rfl

/-- A command that gives its bytes as two and a half, a seven in a text, and a truth value. -/
def mixedBytes : Dict Value :=
  [("bytes", .list [.float (.ofBits 0x4004000000000000), .text " 7", .bool true])]

/-- Each of them stands for the number that it is converted to. -/
theorem encode_passThrough_mixedBytes :
    (target mixedBytes (.int 12)).equals 12 = true ∧ 12 ∉ layoutPorts ∧
    (mixedBytes.value "bytes").isShowable = true ∧ ¬ MeetsInfinity (mixedBytes.value "bytes") ∧
    (mixedBytes.value "bytes").isTruthy = true ∧
    (encode mixedBytes (.int 12)).map toDict = .ok (sent (.int 12) [2, 7, 1]) := by
  have htarget : target mixedBytes (.int 12) = .int 12 := target_int (by decide) _
  have hport : (target mixedBytes (.int 12)).equals 12 = true := by decide
  have hn : (12 : Int) ∉ layoutPorts := by decide
  have hshow : (mixedBytes.value "bytes").isShowable = true := rfl
  have hfinite : ¬ MeetsInfinity (mixedBytes.value "bytes") := by
    refine not_meetsInfinity_of_items rfl fun x hx => ?_
    simp only [List.mem_cons, List.not_mem_nil, or_false, reduceCtorEq, Value.float.injEq] at hx
    rw [hx]
    decide
  have hstands : StandsFor (mixedBytes.value "bytes") [2, 7, 1] :=
    ⟨_, rfl, .cons (by decide +kernel) (.cons (by decide +kernel) (.cons (by decide) .nil))⟩
  obtain ⟨-, hgiven, -⟩ := encode_passThrough hport hn hshow hfinite
  refine ⟨hport, hn, hshow, hfinite, rfl, (hgiven rfl _).2 ⟨_, hstands, by decide, ?_⟩⟩
  rw [htarget]

end Downlink

end FarmLink
