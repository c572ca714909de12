import FarmLink.Proofs.StateChange.RoundTrip
import FarmLink.Uplink.Decoder

/-!
# Slices - every record read from its own bytes

A frame is a batch of whole records, or it is refused as a whole. In a batch the records stand one
after the other in slices of 11 bytes, each of which is a batch of its own (`slice_flatMap`). So a
batch says what its slices say, in order, and two batches in one frame say what they say apart
(`decodes_record_by_record`).
-/

namespace FarmLink.StateChange

/-- The bytes of a frame in which the record at a position stands. -/
def slice (bs : Bytes) (i : Nat) : Bytes := (bs.drop (11 * i)).take 11

/-- A frame from which changes are decoded and nothing else. -/
def Decodes (bs : Bytes) (changes : List Value) : Prop :=
  Decoder.stateChange.run (.bytes bs) = .ok [("stateChanges", .list changes)]

/-- The dict forms of records. -/
def changesOf (rs : List StateChange) : List Value := rs.map fun r => .dict r.toDraft.toDict

/-! ### Batches as rows of records -/

/-- By induction on the records: each one in front takes 11 bytes away. -/
theorem slice_flatMap {rs : List StateChange} {r : StateChange} {i : Nat} (h : rs[i]? = some r) :
    slice (rs.flatMap toBytes) i = r.toBytes := by
  induction rs generalizing i with
  | nil => simp at h
  | cons s rs ih =>
    rw [List.flatMap_cons]
    cases i with
    | zero =>
      rw [List.getElem?_cons_zero] at h
      cases h
      exact List.take_left' (length_toBytes r)
    | succ i =>
      rw [List.getElem?_cons_succ] at h
      have hbehind : 11 * (i + 1) = s.toBytes.length + 11 * i := by
        rw [length_toBytes]
        omega
      have hslice : slice (s.toBytes ++ rs.flatMap toBytes) (i + 1) =
          slice (rs.flatMap toBytes) i := by
        unfold slice
        rw [hbehind, List.drop_length_add_append]
      rw [hslice]
      exact ih h

/-- A batch is a row of records, as many as it has groups of 11 bytes. -/
theorem exists_records {bs : Bytes} (hpos : 0 < bs.length) (hmod : bs.length % 11 = 0) :
    ∃ rs : List StateChange, rs ≠ [] ∧ rs.length = bs.length / 11 ∧ rs.flatMap toBytes = bs := by
  have hgroups : bs.length = 11 * (bs.length / 11) := by omega
  obtain ⟨rs, rfl⟩ := exists_flatMap hgroups
  have hlength := length_flatMap_toBytes rs
  refine ⟨rs, ?_, by omega, rfl⟩
  rintro rfl
  exact absurd hpos (Nat.lt_irrefl 0)

theorem run_bytes (bs : Bytes) : Decoder.stateChange.run (.bytes bs) = .ok (dictOfBytes bs) := rfl

/-- Records one after the other are decoded in this order. -/
theorem decodes_flatMap {rs : List StateChange} (h : rs ≠ []) :
    Decodes (rs.flatMap toBytes) (changesOf rs) := by
  unfold Decodes
  rw [run_bytes, dictOfBytes, if_pos (isBatch_flatMap h), records_flatMap]
  rfl

/-- What is no batch is refused with its length, and decoded as that error alone. -/
theorem refuses_of_length {bs : Bytes} (h : bs.length = 0 ∨ bs.length % 11 ≠ 0) :
    parse (.bytes bs) = .error (.codec (.length bs.length 11)) ∧
    Decoder.stateChange.run (.bytes bs) = .ok [("error", .text "InvalidLength"),
      ("detail", .text (CodecError.length bs.length 11).message)] := by
  have hbatch : isBatch bs = false := by
    rw [Bool.eq_false_iff, ne_eq, isBatch_iff]
    omega
  constructor
  · unfold parse
    simp only [Payload.toBytes, hbatch, Bool.false_eq_true, if_false]
    rfl
  · rw [run_bytes, dictOfBytes, hbatch]
    rfl

/-! ### Decoding by slices -/

/-- **A frame is decoded record by record, or not at all.**  A frame that is empty or ends within a
record is refused with its length, and nothing is decoded from it. From any other one as many
changes are decoded as it has slices, and each of them is what its own slice is decoded as. So the
changes of two batches in a row are those of the first and then those of the second. -/
theorem decodes_record_by_record :
    (∀ bs : Bytes, bs.length = 0 ∨ bs.length % 11 ≠ 0 →
      parse (.bytes bs) = .error (.codec (.length bs.length 11)) ∧
      Decoder.stateChange.run (.bytes bs) = .ok [("error", .text "InvalidLength"),
        ("detail", .text (CodecError.length bs.length 11).message)]) ∧
    (∀ bs : Bytes, 0 < bs.length → bs.length % 11 = 0 →
      ∃ rs, parse (.bytes bs) = .ok rs ∧ Decodes bs (changesOf rs) ∧
        (changesOf rs).length = bs.length / 11 ∧
        ∀ i < bs.length / 11, ∃ change, (changesOf rs)[i]? = some change ∧
          Decodes (slice bs i) [change]) ∧
    ∀ p q : Bytes, 0 < p.length → p.length % 11 = 0 → 0 < q.length → q.length % 11 = 0 →
      ∃ before behind, Decodes p before ∧ Decodes q behind ∧
        Decodes (p ++ q) (before ++ behind) := by
  refine ⟨fun bs => refuses_of_length, ?_, ?_⟩
  · intro bs hpos hmod
    obtain ⟨rs, hne, hcount, rfl⟩ := exists_records hpos hmod
    refine ⟨rs, parse_flatMap hne, decodes_flatMap hne, ?_, ?_⟩
    · rw [changesOf, List.length_map, hcount]
    · intro i hi
      rw [← hcount] at hi
      have hr : rs[i]? = some rs[i] := List.getElem?_eq_getElem hi
      refine ⟨.dict rs[i].toDraft.toDict, ?_, ?_⟩
      · rw [changesOf, List.getElem?_map, hr, Option.map_some]
      · have hsingle : slice (rs.flatMap toBytes) i = [rs[i]].flatMap toBytes := by
          rw [slice_flatMap hr, List.flatMap_singleton]
        rw [hsingle]
        exact decodes_flatMap (List.cons_ne_nil _ _)
  · intro p q hp hpmod hq hqmod
    obtain ⟨rs, hrs, -, rfl⟩ := exists_records hp hpmod
    obtain ⟨ss, hss, -, rfl⟩ := exists_records hq hqmod
    refine ⟨changesOf rs, changesOf ss, decodes_flatMap hrs, decodes_flatMap hss, ?_⟩
    have hboth : changesOf rs ++ changesOf ss = changesOf (rs ++ ss) := List.map_append.symm
    rw [hboth, ← List.flatMap_append]
    exact decodes_flatMap (List.append_ne_nil_of_left_ne_nil hrs ss)

/-- A record with the greatest clock, and one with a trigger without a meaning. -/
def twoRecords : Bytes :=
  [1, 1, 0, 2, 5, 255, 255, 255, 255, 100, 0, 2, 0, 1, 9, 0, 42, 0, 0, 0, 255, 255]

/-- Both records, with the second one again, and with the front of a third one. -/
theorem decodes_record_by_record_cut :
    (∃ rs, parse (.bytes twoRecords) = .ok rs ∧ Decodes twoRecords (changesOf rs) ∧
      (changesOf rs).length = 2 ∧
      ∀ i < 2, ∃ change, (changesOf rs)[i]? = some change ∧
        Decodes (slice twoRecords i) [change]) ∧
    (∃ before behind, Decodes twoRecords before ∧ Decodes (slice twoRecords 1) behind ∧
      Decodes (twoRecords ++ slice twoRecords 1) (before ++ behind)) ∧
    parse (.bytes (twoRecords ++ [7, 7])) = .error (.codec (.length 24 11)) ∧
    Decoder.stateChange.run (.bytes (twoRecords ++ [7, 7])) = .ok [("error", .text "InvalidLength"),
      ("detail", .text "Invalid state change length: 24 (must be a positive multiple of 11)")] := by
  obtain ⟨hrefused, hdecoded, hjoined⟩ := decodes_record_by_record
  have hcut := hrefused (twoRecords ++ [7, 7]) (.inr (by decide))
  exact ⟨hdecoded twoRecords (by decide) rfl,
    hjoined twoRecords (slice twoRecords 1) (by decide) rfl (by decide) rfl, hcut⟩

end FarmLink.StateChange
