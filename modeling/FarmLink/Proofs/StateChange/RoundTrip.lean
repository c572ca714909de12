import FarmLink.Proofs.Sequence
import FarmLink.StateChange.Batch

/-!
# RoundTrip - state changes packed and read back

`StateChange.toBytes` lays out one record, and a batch is records one after the other. Reading
takes the records of a batch apart again (`records_flatMap`) and every whole number of groups of 11
bytes is such a batch (`exists_flatMap`), so both directions follow from the layout of one record
(`packAll_inverse_parse`). Parts may be truth values, which count as numbers.
-/

namespace FarmLink

/-! ### Drafts that can be packed -/

namespace Value

/-- The number that a whole number or a truth value counts as. -/
def number? : Value → Option Int
  | bool b => some (if b then 1 else 0)
  | int n => some n
  | _ => none

/-- A value that counts as a number of so many bits. -/
def IsWord (v : Value) (bits : Nat) : Prop :=
  ∃ n : Nat, v.number? = some (n : Int) ∧ n < Nat.pow 2 bits

end Value

namespace StateChangeDraft

/-- A draft whose parts are numbers that fit the layout. -/
structure Fits (d : StateChangeDraft) : Prop where
  controlIdx : d.controlIdx.IsWord 8
  newState : d.newState.IsWord 8
  oldState : d.oldState.IsWord 8
  sourceId : d.sourceId.IsWord 8
  ruleId : d.ruleId.IsWord 8
  deviceMs : d.deviceMs.IsWord 32
  seq : d.seq.IsWord 16

/-- A draft whose parts are the numbers of a record. -/
structure Agrees (d : StateChangeDraft) (r : StateChange) : Prop where
  controlIdx : d.controlIdx.number? = some (r.controlIdx.toNat : Int)
  newState : d.newState.number? = some (r.newState.toNat : Int)
  oldState : d.oldState.number? = some (r.oldState.toNat : Int)
  sourceId : d.sourceId.number? = some (r.sourceId.toNat : Int)
  ruleId : d.ruleId.number? = some (r.ruleId.toNat : Int)
  deviceMs : d.deviceMs.number? = some (r.deviceMs.toNat : Int)
  seq : d.seq.number? = some (r.seq.toNat : Int)

theorem Fits.exists_agrees {d : StateChangeDraft} (h : d.Fits) : ∃ r, d.Agrees r := by
  obtain ⟨c, hc, hc8⟩ := h.controlIdx
  obtain ⟨n, hn, hn8⟩ := h.newState
  obtain ⟨o, ho, ho8⟩ := h.oldState
  obtain ⟨s, hs, hs8⟩ := h.sourceId
  obtain ⟨u, hu, hu8⟩ := h.ruleId
  obtain ⟨m, hm, hm32⟩ := h.deviceMs
  obtain ⟨q, hq, hq16⟩ := h.seq
  refine ⟨⟨.ofNatLT c hc8, .ofNatLT n hn8, .ofNatLT o ho8, .ofNatLT s hs8, .ofNatLT u hu8,
    .ofNatLT m hm32, .ofNatLT q hq16⟩, ?_⟩
  exact ⟨hc, hn, ho, hs, hu, hm, hq⟩

/-- Whole batches of drafts that fit have their records. -/
theorem exists_forall₂_agrees {ds : List StateChangeDraft} (h : ∀ d ∈ ds, d.Fits) :
    ∃ rs, List.Forall₂ Agrees ds rs := by
  induction ds with
  | nil => exact ⟨[], .nil⟩
  | cons d ds ih =>
    obtain ⟨r, hr⟩ := (h d List.mem_cons_self).exists_agrees
    obtain ⟨rs, hrs⟩ := ih fun e he => h e (List.mem_cons_of_mem _ he)
    exact ⟨r :: rs, .cons hr hrs⟩

end StateChangeDraft

/-! ### The layout of a record -/

namespace StateChange

/-- The 11 bytes of a record. -/
def toBytes (r : StateChange) : Bytes :=
  [r.controlIdx, r.newState, r.oldState, r.sourceId, r.ruleId] ++
    littleEndian 4 r.deviceMs.toNat ++ littleEndian 2 r.seq.toNat

@[simp] theorem length_toBytes (r : StateChange) : r.toBytes.length = 11 := rfl

theorem toDraft_agrees (r : StateChange) : r.toDraft.Agrees r :=
  ⟨rfl, rfl, rfl, rfl, rfl, rfl, rfl⟩

/-- A record is read off its bytes, whatever follows them. -/
theorem records_append (r : StateChange) (rest : Bytes) :
    records (r.toBytes ++ rest) = r :: records rest := by
  have hms : UInt32.ofNat (ofLittleEndian (littleEndian 4 r.deviceMs.toNat)) = r.deviceMs := by
    have hlt : r.deviceMs.toNat < byteRange 4 := r.deviceMs.toNat_lt
    rw [ofLittleEndian_littleEndian, Nat.mod_eq_of_lt hlt, UInt32.ofNat_toNat]
  have hseq : UInt16.ofNat (ofLittleEndian (littleEndian 2 r.seq.toNat)) = r.seq := by
    have hlt : r.seq.toNat < byteRange 2 := r.seq.toNat_lt
    rw [ofLittleEndian_littleEndian, Nat.mod_eq_of_lt hlt, UInt16.ofNat_toNat]
  have hread : records (r.toBytes ++ rest) =
      { r with
        deviceMs := UInt32.ofNat (ofLittleEndian (littleEndian 4 r.deviceMs.toNat))
        seq := UInt16.ofNat (ofLittleEndian (littleEndian 2 r.seq.toNat)) } :: records rest := rfl
  rw [hread, hms, hseq]

/-- Any 11 bytes are those of a record. -/
theorem exists_toBytes (bs : Bytes) (h : bs.length = 11) : ∃ r : StateChange, r.toBytes = bs := by
  match bs, h with
  | [c, n, o, s, u, m0, m1, m2, m3, q0, q1], _ =>
    refine ⟨⟨c, n, o, s, u, .ofNat (ofLittleEndian [m0, m1, m2, m3]),
      .ofNat (ofLittleEndian [q0, q1])⟩, ?_⟩
    have hlt4 : ofLittleEndian [m0, m1, m2, m3] < byteRange 4 := ofLittleEndian_lt _
    have hlt2 : ofLittleEndian [q0, q1] < byteRange 2 := ofLittleEndian_lt _
    have hms : (UInt32.ofNat (ofLittleEndian [m0, m1, m2, m3])).toNat =
        ofLittleEndian [m0, m1, m2, m3] := by
      rw [UInt32.toNat_ofNat']
      exact Nat.mod_eq_of_lt hlt4
    have hseq : (UInt16.ofNat (ofLittleEndian [q0, q1])).toNat = ofLittleEndian [q0, q1] := by
      rw [UInt16.toNat_ofNat']
      exact Nat.mod_eq_of_lt hlt2
    unfold toBytes
    rw [hms, hseq]
    have h4 := littleEndian_ofLittleEndian [m0, m1, m2, m3]
    have h2 := littleEndian_ofLittleEndian [q0, q1]
    simp only [List.length_cons, List.length_nil] at h4 h2
    rw [h4, h2]
    rfl

/-! ### Batches -/

theorem records_flatMap (rs : List StateChange) : records (rs.flatMap toBytes) = rs := by
  induction rs with
  | nil => rfl
  | cons r rs ih => rw [List.flatMap_cons, records_append, ih]

theorem length_flatMap_toBytes (rs : List StateChange) :
    (rs.flatMap toBytes).length = 11 * rs.length := by
  induction rs with
  | nil => rfl
  | cons r rs ih =>
    rw [List.flatMap_cons, List.length_append, length_toBytes, ih, List.length_cons]
    omega

/-- Any whole number of groups of 11 bytes is a batch of as many records. -/
theorem exists_flatMap {k : Nat} {bs : Bytes} (h : bs.length = 11 * k) :
    ∃ rs : List StateChange, rs.flatMap toBytes = bs := by
  induction k generalizing bs with
  | zero => exact ⟨[], (List.length_eq_zero_iff.1 h).symm⟩
  | succ k ih =>
    have htake : (bs.take 11).length = 11 := by rw [List.length_take]; omega
    have hdrop : (bs.drop 11).length = 11 * k := by rw [List.length_drop]; omega
    obtain ⟨r, hr⟩ := exists_toBytes _ htake
    obtain ⟨rs, hrs⟩ := ih hdrop
    refine ⟨r :: rs, ?_⟩
    rw [List.flatMap_cons, hr, hrs, List.take_append_drop]

theorem isBatch_iff {bs : Bytes} : isBatch bs = true ↔ 0 < bs.length ∧ bs.length % 11 = 0 := by
  simp only [isBatch, recordSize, Bool.and_eq_true, bne_iff_ne, beq_iff_eq, Nat.pos_iff_ne_zero]

/-- Records one after the other are a batch. -/
theorem isBatch_flatMap {rs : List StateChange} (h : rs ≠ []) :
    isBatch (rs.flatMap toBytes) = true := by
  have hlen := length_flatMap_toBytes rs
  have hpos : 0 < rs.length := List.length_pos_of_ne_nil h
  exact isBatch_iff.2 (by omega)

/-- A batch of records is read back. -/
theorem parse_flatMap {rs : List StateChange} (h : rs ≠ []) :
    parse (.bytes (rs.flatMap toBytes)) = .ok rs := by
  unfold parse
  simp only [Payload.toBytes, isBatch_flatMap h, if_true, records_flatMap]

end StateChange

namespace StateChangeDraft

/-- A part that is a number within its width is packed as that number. -/
theorem packPart_of_number? {width n : Nat} {v : Value} (name : Text)
    (h : v.number? = some (n : Int)) (hn : n < byteRange width) :
    packPart name width v = .ok (littleEndian width n) := by
  have hfits : 0 ≤ (n : Int) ∧ (n : Int).toNat < byteRange width :=
    ⟨Int.natCast_nonneg n, by rwa [Int.toNat_natCast]⟩
  unfold packPart
  cases v with
  | bool b =>
    have hb : (if b then 1 else 0 : Int) = n := Option.some.inj h
    simp only [hb]
    rw [if_pos hfits, Int.toNat_natCast]
  | int m =>
    have hm : m = n := Option.some.inj h
    simp only [hm]
    rw [if_pos hfits, Int.toNat_natCast]
  | null | float _ | text _ | list _ | dict _ => cases h

theorem pack_of_agrees {d : StateChangeDraft} {r : StateChange} (h : d.Agrees r) :
    pack d = .ok r.toBytes := by
  have hparts : (d.parts.zip widths).mapM (fun cell => packPart cell.1.1 cell.2 cell.1.2) =
      .ok [littleEndian 1 r.controlIdx.toNat, littleEndian 1 r.newState.toNat,
        littleEndian 1 r.oldState.toNat, littleEndian 1 r.sourceId.toNat,
        littleEndian 1 r.ruleId.toNat, littleEndian 4 r.deviceMs.toNat,
        littleEndian 2 r.seq.toNat] := by
    apply mapM_eq_ok
    exact .cons (packPart_of_number? _ h.controlIdx r.controlIdx.toNat_lt) <|
      .cons (packPart_of_number? _ h.newState r.newState.toNat_lt) <|
      .cons (packPart_of_number? _ h.oldState r.oldState.toNat_lt) <|
      .cons (packPart_of_number? _ h.sourceId r.sourceId.toNat_lt) <|
      .cons (packPart_of_number? _ h.ruleId r.ruleId.toNat_lt) <|
      .cons (packPart_of_number? _ h.deviceMs r.deviceMs.toNat_lt) <|
      .cons (packPart_of_number? _ h.seq r.seq.toNat_lt) .nil
  unfold pack
  rw [hparts]
  simp only [littleEndian_toNat]
  rfl

/-- Records are packed one after the other. -/
theorem packAll_of_agrees {ds : List StateChangeDraft} {rs : List StateChange}
    (h : List.Forall₂ Agrees ds rs) : packAll ds = .ok (rs.flatMap StateChange.toBytes) := by
  have hcells : ds.mapM pack = .ok (rs.map StateChange.toBytes) :=
    mapM_eq_ok (List.forall₂_map_right_iff.2 (h.imp fun _ _ => pack_of_agrees))
  unfold packAll
  rw [hcells, List.flatMap_def]
  rfl

end StateChangeDraft

namespace StateChange

/-- **Packing and reading are inverse.**  What is packed from parts that fit reads back as records
of the same numbers, in order, and a frame of whole records packs from what is read off it. -/
theorem packAll_inverse_parse :
    (∀ ds : List StateChangeDraft, ds ≠ [] → (∀ d ∈ ds, d.Fits) →
      ∃ bs rs, StateChangeDraft.packAll ds = .ok bs ∧ parse (.bytes bs) = .ok rs ∧
        List.Forall₂ StateChangeDraft.Agrees ds rs) ∧
    ∀ bs : Bytes, 0 < bs.length → bs.length % 11 = 0 →
      ∃ rs, parse (.bytes bs) = .ok rs ∧ StateChangeDraft.packAll (rs.map toDraft) = .ok bs := by
  constructor
  · intro ds hne hfits
    obtain ⟨rs, hrs⟩ := StateChangeDraft.exists_forall₂_agrees hfits
    have hrne : rs ≠ [] := by
      rintro rfl
      cases hrs
      exact hne rfl
    exact ⟨_, rs, StateChangeDraft.packAll_of_agrees hrs, parse_flatMap hrne, hrs⟩
  · intro bs hpos hmod
    have hgroups : bs.length = 11 * (bs.length / 11) := by omega
    obtain ⟨rs, rfl⟩ := exists_flatMap hgroups
    have hrne : rs ≠ [] := by
      rintro rfl
      exact absurd hpos (Nat.lt_irrefl 0)
    have hagrees : List.Forall₂ StateChangeDraft.Agrees (rs.map toDraft) rs :=
      List.forall₂_map_left_iff.2 (List.forall₂_same.2 fun r _ => r.toDraft_agrees)
    exact ⟨rs, parse_flatMap hrne, StateChangeDraft.packAll_of_agrees hagrees⟩

/-- A draft with a truth value, the greatest numbers, and a trigger without a meaning. -/
def extremeDraft : StateChangeDraft where
  controlIdx := .bool true
  newState := .int 0
  oldState := .int 255
  sourceId := .int 77
  ruleId := .int 3
  deviceMs := .int 4294967295
  seq := .int 65535

theorem packAll_inverse_parse_extreme :
    (∀ d ∈ [extremeDraft], d.Fits) ∧
    (∃ bs rs, StateChangeDraft.packAll [extremeDraft] = .ok bs ∧ parse (.bytes bs) = .ok rs ∧
      List.Forall₂ StateChangeDraft.Agrees [extremeDraft] rs) ∧
    ∃ rs, parse (.bytes [1, 0, 255, 77, 3, 0, 0, 0, 128, 255, 1]) = .ok rs ∧
      StateChangeDraft.packAll (rs.map toDraft) =
        .ok [1, 0, 255, 77, 3, 0, 0, 0, 128, 255, 1] := by
  have hfits : ∀ d ∈ [extremeDraft], d.Fits := by
    intro d hd
    rw [List.mem_singleton.1 hd]
    exact ⟨⟨1, rfl, by decide⟩, ⟨0, rfl, by decide⟩, ⟨255, rfl, by decide⟩, ⟨77, rfl, by decide⟩,
      ⟨3, rfl, by decide⟩, ⟨4294967295, rfl, by decide⟩, ⟨65535, rfl, by decide⟩⟩
  exact ⟨hfits, packAll_inverse_parse.1 _ (List.cons_ne_nil _ _) hfits,
    packAll_inverse_parse.2 _ (by decide) (by decide)⟩

end StateChange

end FarmLink
