import FarmLink.Text.Latin

/-!
# Latin - texts of bytes

A byte numbers a character, and that character gives the byte back. So frames and texts whose
characters are numbered below 256 are the same thing in two forms, and each form is made from the
other without loss (`toBytes?_ofBytes`, `exists_toBytes?`).
-/

namespace FarmLink.Text

@[simp] theorem toNat_ofByte (b : UInt8) : (ofByte b).toNat = b.toNat := rfl

theorem byte?_ofByte (b : UInt8) : byte? (ofByte b) = some b := by
  unfold byte?
  rw [toNat_ofByte, if_pos b.toNat_lt, UInt8.ofNat_toNat]

/-- **A frame comes back from its text.** -/
theorem toBytes?_ofBytes (bs : Bytes) : toBytes? (ofBytes bs) = some bs := by
  induction bs with
  | nil => rfl
  | cons b bs ih =>
    have hstep : toBytes? (ofBytes (b :: bs)) =
        (byte? (ofByte b)).bind fun c => (toBytes? (ofBytes bs)).bind fun cs => some (c :: cs) :=
      List.mapM_cons
    rw [hstep, byte?_ofByte, ih]
    rfl

theorem ofByte_ofNat {c : CodePoint} (h : c.toNat < 256) : ofByte (UInt8.ofNat c.toNat) = c := by
  apply CodePoint.ext
  rw [toNat_ofByte, UInt8.toNat_ofNat', Nat.mod_eq_of_lt h]

/-- A text of characters numbered below 256 is the text of a frame. -/
theorem exists_toBytes? {t : Text} (h : ∀ c ∈ t, c.toNat < 256) :
    ∃ bs, toBytes? t = some bs ∧ ofBytes bs = t := by
  have ht : ofBytes (t.map fun c => UInt8.ofNat c.toNat) = t := by
    unfold ofBytes
    rw [List.map_map]
    exact (List.map_congr_left fun c hc => ofByte_ofNat (h c hc)).trans (List.map_id t)
  have hbytes := toBytes?_ofBytes (t.map fun c => UInt8.ofNat c.toNat)
  rw [ht] at hbytes
  exact ⟨_, hbytes, ht⟩

end FarmLink.Text
