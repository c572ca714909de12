import FarmLink.Proofs.Registration.Assembly
import FarmLink.Proofs.Text.Latin
import FarmLink.Uplink.Route

/-!
# Handover - frames in any form

A frame comes as bytes, or as a list, a text or a dict whose items stand for byte numbers. Text
decoders take it through `toText` and byte decoders through `toBytes`, which go over the items on
their own. Item by item they agree (`charOf_eq_map`), so the text is that of the bytes
(`toText_eq_map`) and all that is read depends on the bytes alone. Where an item stands for no
number, both conversions stop at it and fail for the same reason. Views of memory are the exception:
they are read as the bytes behind them, whatever their items stand for.
-/

namespace FarmLink

namespace Value

/-- An item that stands for a number whose lowest eight bits are a byte. -/
def StandsFor (item : Value) (b : UInt8) : Prop :=
  ∃ n, item.toInt = .ok n ∧ (b.toNat : Int) = n % 256

end Value

namespace Payload

/-- The items that a payload shows to who goes over it. -/
def items : Payload → Except Mismatch (List Value)
  | bytes bs => .ok (bs.map fun b => .int b.toNat)
  | memory _ items => .ok items
  | values v => v.items

/-- A payload that is read item by item, or as if it were. Views of memory are not. -/
def IsItemwise : Payload → Prop
  | memory _ _ => False
  | bytes _ | values _ => True

/-- Why a payload is no frame: it shows no items, or one of them is the first that stands for no
number. -/
inductive FailsAs (p : Payload) (m : Mismatch) : Prop
  | items : p.items = .error m → FailsAs p m
  | item {before : List Value} {item : Value} {after : List Value} :
      p.items = .ok (before ++ item :: after) → (∀ x ∈ before, ∃ n, x.toInt = .ok n) →
      item.toInt = .error m → FailsAs p m

/-! ### One item -/

/-- The byte of an item. -/
def byteOf (item : Value) : Except Mismatch UInt8 := do
  let n ← item.toInt
  return UInt8.ofNat (lowByte n)

/-- The character of an item. -/
def charOf (item : Value) : Except Mismatch CodePoint := do
  let n ← item.toInt
  return CodePoint.ofNat (lowByte n)

theorem lowByte_lt (n : Int) : lowByte n < 256 := by
  unfold lowByte
  omega

theorem toNat_ofNat_lowByte (n : Int) : (UInt8.ofNat (lowByte n)).toNat = lowByte n := by
  rw [UInt8.toNat_ofNat', Nat.mod_eq_of_lt (lowByte_lt n)]

theorem ofNat_lowByte (n : Int) :
    CodePoint.ofNat (lowByte n) = Text.ofByte (UInt8.ofNat (lowByte n)) := by
  have hlt : lowByte n < 0x110000 := Nat.lt_trans (lowByte_lt n) (by decide)
  apply CodePoint.ext
  rw [Text.toNat_ofByte, toNat_ofNat_lowByte, CodePoint.toNat_ofNat hlt]

/-- **An item gives the character that its byte numbers**, and neither where it gives none. -/
theorem charOf_eq_map (item : Value) : charOf item = (byteOf item).map Text.ofByte := by
  unfold charOf byteOf
  cases item.toInt with
  | error m => rfl
  | ok n => exact congrArg Except.ok (ofNat_lowByte n)

theorem byteOf_eq_ok_iff {item : Value} {b : UInt8} : byteOf item = .ok b ↔ item.StandsFor b := by
  have hlow (n : Int) : UInt8.ofNat (lowByte n) = b ↔ (b.toNat : Int) = n % 256 := by
    rw [← UInt8.toNat_inj, toNat_ofNat_lowByte]
    unfold lowByte
    omega
  unfold byteOf Value.StandsFor
  rw [bind_eq_ok]
  constructor
  · rintro ⟨n, hn, hb⟩
    exact ⟨n, hn, (hlow n).1 (Except.ok.inj hb)⟩
  · rintro ⟨n, hn, hb⟩
    exact ⟨n, hn, congrArg Except.ok ((hlow n).2 hb)⟩

theorem byteOf_eq_error_iff {item : Value} {m : Mismatch} :
    byteOf item = .error m ↔ item.toInt = .error m := by
  unfold byteOf
  cases item.toInt with
  | error e =>
    change Except.error e = Except.error m ↔ Except.error e = Except.error m
    rw [Except.error.injEq, Except.error.injEq]
  | ok n => exact ⟨nofun, nofun⟩

theorem exists_byteOf_iff {item : Value} :
    (∃ b, byteOf item = .ok b) ↔ ∃ n, item.toInt = .ok n := by
  unfold byteOf
  cases item.toInt with
  | error e => exact ⟨nofun, nofun⟩
  | ok n => exact ⟨fun _ => ⟨n, rfl⟩, fun _ => ⟨_, rfl⟩⟩

/-! ### All items -/

/-- **The text of a frame is the text of its bytes**, and there is neither or both. -/
theorem toText_eq_map (p : Payload) : p.toText = p.toBytes.map Text.ofBytes := by
  cases p with
  | bytes _ | memory _ _ => rfl
  | values v =>
    change (v.items >>= fun items => items.mapM charOf) =
      (v.items >>= fun items => items.mapM byteOf).map Text.ofBytes
    cases v.items with
    | error m => rfl
    | ok items => exact mapM_eq_map charOf_eq_map items

theorem toText_of_toBytes {p : Payload} {bs : Bytes} (h : p.toBytes = .ok bs) :
    p.toText = .ok (Text.ofBytes bs) := by
  rw [toText_eq_map, h]
  rfl

theorem toText_of_toBytes_error {p : Payload} {m : Mismatch} (h : p.toBytes = .error m) :
    p.toText = .error m := by
  rw [toText_eq_map, h]
  rfl

theorem exists_toBytes_values {v : Value} {items : List Value} (hitems : v.items = .ok items)
    (h : ∀ item ∈ items, ∃ n, item.toInt = .ok n) :
    ∃ bs, List.Forall₂ Value.StandsFor items bs ∧ (values v).toBytes = .ok bs := by
  have hbyte : ∀ item ∈ items, ∃ b, byteOf item = .ok b := by
    intro item hitem
    exact exists_byteOf_iff.2 (h item hitem)
  obtain ⟨bs, hbs⟩ := exists_mapM_eq_ok hbyte
  have hstands : List.Forall₂ Value.StandsFor items bs :=
    (mapM_eq_ok_iff.1 hbs).imp fun _ _ => byteOf_eq_ok_iff.1
  exact ⟨bs, hstands, bind_eq_ok.2 ⟨items, hitems, hbs⟩⟩

theorem numbers_of_toBytes {v : Value} {bs : Bytes} (h : (values v).toBytes = .ok bs) :
    ∃ items, v.items = .ok items ∧ ∀ item ∈ items, ∃ n, item.toInt = .ok n := by
  obtain ⟨items, hitems, hread⟩ := bind_eq_ok.1 h
  refine ⟨items, hitems, ?_⟩
  intro item hitem
  obtain ⟨b, -, hb⟩ := exists_mem_of_forall₂ (forall₂_of_mapM_eq_ok hread) item hitem
  exact exists_byteOf_iff.1 ⟨b, hb⟩

/-- The bytes of a frame are what its items stand for. -/
theorem standsFor_bytes (bs : Bytes) :
    List.Forall₂ Value.StandsFor (bs.map fun b => .int b.toNat) bs := by
  rw [List.forall₂_map_left_iff, List.forall₂_same]
  intro b _
  have hlt := b.toNat_lt
  exact ⟨b.toNat, rfl, by omega⟩

/-- Bytes are missing where there are no items, or where one of them stands for no number. -/
theorem toBytes_values_eq_error_iff {v : Value} {m : Mismatch} :
    (values v).toBytes = .error m ↔ (values v).FailsAs m := by
  change ((values v).items >>= fun items => items.mapM byteOf) = .error m ↔ _
  constructor
  · intro h
    cases hitems : (values v).items with
    | error e =>
      rw [hitems] at h
      cases h
      exact .items hitems
    | ok items =>
      rw [hitems] at h
      obtain ⟨before, item, after, rfl, hbefore, hitem⟩ := mapM_eq_error_iff.1 h
      have hnumbers : ∀ x ∈ before, ∃ n, x.toInt = .ok n := by
        intro x hx
        exact exists_byteOf_iff.1 (hbefore x hx)
      exact .item hitems hnumbers (byteOf_eq_error_iff.1 hitem)
  · intro h
    cases h with
    | items hitems =>
      rw [hitems]
      rfl
    | item hitems hbefore hitem =>
      rw [hitems]
      refine mapM_eq_error _ ?_ (byteOf_eq_error_iff.2 hitem)
      intro x hx
      exact exists_byteOf_iff.2 (hbefore x hx)

/-! ### All readers -/

/-- A payload that no reader can tell from a frame of bytes. -/
structure ReadsAs (p : Payload) (bs : Bytes) : Prop where
  toBytes : p.toBytes = .ok bs
  toText : p.toText = .ok (Text.ofBytes bs)
  run : ∀ d : Decoder, d.run p = d.run (.bytes bs)
  parse : StateChange.parse p = StateChange.parse (.bytes bs)
  decode : ∀ port : Value, Uplink.decode p port = Uplink.decode (.bytes bs) port
  route : ∀ (m : PortMap) (port : Value), Uplink.route m p port = Uplink.route m (.bytes bs) port

section Readers

variable {p : Payload} {bs : Bytes} (h : p.toBytes = .ok bs)
include h

theorem run_eq_of_toBytes (d : Decoder) : d.run p = d.run (.bytes bs) := by
  have htext (read : Text → Dict Value) :
      Decoder.readText read p = Decoder.readText read (.bytes bs) := by
    unfold Decoder.readText
    rw [toText_of_toBytes h]
    rfl
  have hbytes (read : Bytes → Dict Value) :
      Decoder.readBytes read p = Decoder.readBytes read (.bytes bs) := by
    unfold Decoder.readBytes
    rw [h]
    rfl
  cases d with
  | registration | telemetry | commandAck | diagnostics => exact htext _
  | stateChange | otaProgress => exact hbytes _

theorem decode_eq_of_toBytes (port : Value) :
    Uplink.decode p port = Uplink.decode (.bytes bs) port := by
  unfold Uplink.decode
  rw [run_eq_of_toBytes h, run_eq_of_toBytes h]

theorem route_eq_of_toBytes (m : PortMap) (port : Value) :
    Uplink.route m p port = Uplink.route m (.bytes bs) port := by
  have hraw : Uplink.unrouted p port = Uplink.unrouted (.bytes bs) port := by
    unfold Uplink.unrouted
    rw [toText_of_toBytes h]
    rfl
  unfold Uplink.route
  simp only [run_eq_of_toBytes h, hraw]

theorem readsAs_of_toBytes : p.ReadsAs bs where
  toBytes := h
  toText := toText_of_toBytes h
  run := run_eq_of_toBytes h
  parse := by
    unfold StateChange.parse
    rw [h]
    rfl
  decode := decode_eq_of_toBytes h
  route := route_eq_of_toBytes h

end Readers

/-- A payload whose items all stand for numbers is read as the bytes that they stand for. -/
theorem exists_readsAs {p : Payload} (hitemwise : p.IsItemwise) {items : List Value}
    (hitems : p.items = .ok items) (h : ∀ item ∈ items, ∃ n, item.toInt = .ok n) :
    ∃ bs, List.Forall₂ Value.StandsFor items bs ∧ p.ReadsAs bs := by
  cases p with
  | bytes bs =>
    cases hitems
    exact ⟨bs, standsFor_bytes bs, readsAs_of_toBytes rfl⟩
  | memory raw shown => cases hitemwise
  | values v =>
    obtain ⟨bs, hstands, hbytes⟩ := exists_toBytes_values hitems h
    exact ⟨bs, hstands, readsAs_of_toBytes hbytes⟩

/-- A payload with no items, or with an item that stands for no number, fails both ways alike. -/
theorem exists_failsAs {p : Payload} (hitemwise : p.IsItemwise)
    (h : ¬ ∃ items, p.items = .ok items ∧ ∀ item ∈ items, ∃ n, item.toInt = .ok n) :
    ∃ m, p.FailsAs m ∧ p.toBytes = .error m ∧ p.toText = .error m := by
  cases p with
  | bytes bs =>
    -- bytes are numbers, so there are no such bytes
    refine absurd ⟨_, rfl, ?_⟩ h
    intro item hitem
    obtain ⟨b, -, rfl⟩ := List.mem_map.1 hitem
    exact ⟨b.toNat, rfl⟩
  | memory raw shown => cases hitemwise
  | values v =>
    cases hbytes : (values v).toBytes with
    | error m =>
      exact ⟨m, toBytes_values_eq_error_iff.1 hbytes, rfl, toText_of_toBytes_error hbytes⟩
    | ok bs => exact absurd (numbers_of_toBytes hbytes) h

end Payload

/-! ### Frames of a registration document -/

theorem Registration.assemble_congr {source other : FrameSource} (h : source.read = other.read)
    (before after : List FrameSource) :
    assemble (before ++ source :: after) = assemble (before ++ other :: after) := by
  unfold assemble
  rw [List.mapM_append, List.mapM_append, List.mapM_cons, List.mapM_cons, h]

/-- In a registration document the bytes of a frame may stand for its text. -/
theorem FrameSource.read_bytes {source : FrameSource} {bs : Bytes}
    (h : source.toText = .ok (Text.ofBytes bs)) : (payload (.bytes bs)).read = source.read := by
  rw [read_eq_of_toText h]
  rfl

namespace Payload

/-- **How a frame is handed over does not count**, but for views of memory.  A payload whose items
all stand for numbers is read by everything as the bytes that they stand for; any other payload
fails as text as it does as bytes; a view is read as the bytes of its memory whatever its items
stand for; and a frame of a registration document may come as text or as the bytes of that text. -/
theorem handover_immaterial :
    (∀ (p : Payload) (items : List Value), p.IsItemwise → p.items = .ok items →
      (∀ item ∈ items, ∃ n, item.toInt = .ok n) →
      ∃ bs, List.Forall₂ Value.StandsFor items bs ∧ p.ReadsAs bs) ∧
    (∀ p : Payload, p.IsItemwise →
      (¬ ∃ items, p.items = .ok items ∧ ∀ item ∈ items, ∃ n, item.toInt = .ok n) →
      ∃ m, p.FailsAs m ∧ p.toBytes = .error m ∧ p.toText = .error m) ∧
    (∀ (raw : Bytes) (items : List Value), (memory raw items).ReadsAs raw) ∧
    ∀ (before after : List FrameSource) (source : FrameSource) (t : Text),
      source.toText = .ok t → (∀ c ∈ t, c.toNat < 256) →
      ∃ bs, Text.toBytes? t = some bs ∧
        Registration.assemble (before ++ .payload (.bytes bs) :: after) =
          Registration.assemble (before ++ source :: after) := by
  refine ⟨fun p items hitemwise hitems h => exists_readsAs hitemwise hitems h,
    fun p hitemwise h => exists_failsAs hitemwise h, fun raw items => readsAs_of_toBytes rfl, ?_⟩
  intro before after source t ht hlatin
  obtain ⟨bs, hbs, rfl⟩ := Text.exists_toBytes? hlatin
  exact ⟨bs, hbs, Registration.assemble_congr (FrameSource.read_bytes ht) before after⟩

/-- A truth value, a double, a numeral with blanks, and numbers below and beyond the bytes. -/
def mixedItems : List Value :=
  [.bool true, .float (.ofBits 0x4007333333333333), .text " 1_0 ", .int (-1), .int 0x1000000005]

theorem toInt_mixedItems :
    mixedItems.map Value.toInt = [.ok 1, .ok 2, .ok 10, .ok (-1), .ok 0x1000000005] := by
  decide +kernel

theorem handover_immaterial_mixed :
    (∃ bs, List.Forall₂ Value.StandsFor mixedItems bs ∧ (values (.list mixedItems)).ReadsAs bs) ∧
    (∃ m, (values (.text "1x2")).FailsAs m ∧ (values (.text "1x2")).toBytes = .error m ∧
      (values (.text "1x2")).toText = .error m) ∧
    (memory [1, 0, 2, 0] [.int 1, .int 2]).ReadsAs [1, 0, 2, 0] ∧
    ∃ bs, Text.toBytes? "reg:sys|unit=\xb5m" = some bs ∧
      Registration.assemble [.payload (.bytes bs), .text "reg:cmds|"] =
        Registration.assemble [.text "reg:sys|unit=\xb5m", .text "reg:cmds|"] := by
  obtain ⟨hread, hfail, hmemory, hframe⟩ := handover_immaterial
  refine ⟨hread (values (.list mixedItems)) mixedItems trivial rfl fun item hitem => ?_,
    hfail (values (.text "1x2")) trivial ?_, hmemory _ _,
    hframe [] [.text "reg:cmds|"] _ _ rfl (by decide)⟩
  · have hmem := List.mem_map_of_mem (f := Value.toInt) hitem
    rw [toInt_mixedItems] at hmem
    simp only [List.mem_cons, List.not_mem_nil, or_false] at hmem
    obtain h | h | h | h | h := hmem <;> exact ⟨_, h⟩
  · rintro ⟨items, hitems, hall⟩
    cases hitems
    obtain ⟨n, hn⟩ := hall (.text "x") (by decide)
    cases hn

/-- **The items of a view are not what it is read as**: a view of two sixteen-bit numbers is read as
four bytes, and a view of two letters as their bytes though letters stand for no numbers. -/
theorem handover_counts_for_views :
    (¬ ∀ (p : Payload) (items : List Value), p.items = .ok items →
      (∀ item ∈ items, ∃ n, item.toInt = .ok n) →
      ∃ bs, List.Forall₂ Value.StandsFor items bs ∧ p.toBytes = .ok bs) ∧
    ¬ ∀ p : Payload, (¬ ∃ items, p.items = .ok items ∧ ∀ item ∈ items, ∃ n, item.toInt = .ok n) →
      ∃ m, p.toBytes = .error m := by
  constructor
  · intro hall
    have hnumbers : ∀ item ∈ ([.int 1, .int 2] : List Value), ∃ n, item.toInt = .ok n :=
      List.forall_mem_cons.2 ⟨⟨1, rfl⟩, List.forall_mem_singleton.2 ⟨2, rfl⟩⟩
    obtain ⟨bs, hstands, hbytes⟩ := hall (memory [1, 0, 2, 0] [.int 1, .int 2]) _ rfl hnumbers
    cases hbytes
    cases hstands.length_eq
  · intro hall
    have hletters : ¬ ∃ items, (memory [0x61, 0x62] [.text "a", .text "b"]).items = .ok items ∧
        ∀ item ∈ items, ∃ n, item.toInt = .ok n := by
      rintro ⟨items, hitems, hnumbers⟩
      cases hitems
      obtain ⟨n, hn⟩ := hnumbers (.text "a") (by decide)
      cases hn
    obtain ⟨m, hm⟩ := hall _ hletters
    cases hm

end Payload

end FarmLink
