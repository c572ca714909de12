import FarmLink.Proofs.Dict.Order
import FarmLink.Proofs.Text.Numeral
import FarmLink.Value.Display

/-!
# Showable - values whose whole numbers are short enough

A whole number of more than `digitLimit` digits can be neither shown in a message nor written in a
document. A list is showable if its items are and a dict if its values are, so what is taken out of
a showable value, or put together from showable ones, is showable.
-/

namespace FarmLink

/-! ### Whole numbers -/

/-- Numbers of a few digits are short enough. -/
theorem isShowable_of_natAbs_lt {n : Int} {digits : Nat} (hdigits : digits ≤ digitLimit)
    (h : n.natAbs < 10 ^ digits) : isShowable n = true := by
  unfold isShowable
  rw [decide_eq_true_eq, Nat.pow_eq]
  -- the limit is kept as a name, so that no power of it is computed
  generalize digitLimit = limit at hdigits ⊢
  exact Nat.lt_of_lt_of_le h (Nat.pow_le_pow_right (by decide) hdigits)

/-- A sign does not count. -/
theorem isShowable_signed (negative : Bool) (n : Int) :
    isShowable (if negative then -n else n) = isShowable n := by
  unfold isShowable
  split
  · rw [Int.natAbs_neg]
  · rfl

/-- The number that at most `digitLimit` decimal digits write. -/
theorem isShowable_ofDigits {ds : List Nat} (hds : ∀ d ∈ ds, d < 10)
    (hlength : ds.length ≤ digitLimit) : isShowable (Text.ofDigits 10 ds : Int) = true :=
  isShowable_of_natAbs_lt hlength (Text.ofDigits_lt hds)

/-- The digits of a number that is short enough to be shown. -/
theorem exists_digits_of_isShowable {n : Int} (h : isShowable n = true) :
    ∃ ds, Text.Writes 10 ds n.natAbs ∧ Text.ofNat n.natAbs = Text.numerals ds ∧
      ds.length ≤ digitLimit := by
  obtain ⟨ds, hds, htext⟩ := Text.exists_writes_ofNat n.natAbs
  refine ⟨ds, hds, htext, ?_⟩
  have hpos : 0 < digitLimit := by decide
  rw [isShowable, decide_eq_true_eq, Nat.pow_eq] at h
  -- the limit is kept as a name, so that no power of it is computed
  generalize digitLimit = limit at h hpos ⊢
  have hlength := Nat.toDigits_length 10 n.natAbs limit hpos h
  rwa [← Text.length_numerals ds, ← htext, Text.ofNat, List.length_map]

/-- A number in a byte, or in as few bytes as the fields of a record have. -/
theorem isShowable_of_lt {n : Nat} (h : n < 0x100000000) : isShowable (n : Int) = true := by
  refine isShowable_of_natAbs_lt (show 10 ≤ digitLimit by decide) ?_
  rw [Int.natAbs_natCast]
  exact Nat.lt_trans h (by decide)

theorem isShowable_byte (b : UInt8) : isShowable (b.toNat : Int) = true :=
  isShowable_of_lt (Nat.lt_trans b.toNat_lt (by decide))

namespace Value

variable {v other : Value} {items : List Value} {entries : Dict Value}

/-! ### Lists and dicts -/

@[simp] theorem isShowable_bool (b : Bool) : (bool b).isShowable = true := rfl

@[simp] theorem isShowable_text (t : Text) : (text t).isShowable = true := rfl

@[simp] theorem isShowable_int (n : Int) : (int n).isShowable = FarmLink.isShowable n := by
  unfold isShowable
  rw [allInts]

@[simp] theorem isShowable_dict_nil : (dict []).isShowable = true := rfl

@[simp] theorem isShowable_dict_cons (e : Text × Value) (entries : Dict Value) :
    (dict (e :: entries)).isShowable = (e.2.isShowable && (dict entries).isShowable) := by
  obtain ⟨k, v⟩ := e
  rfl

theorem isShowable_list_iff :
    (list items).isShowable = true ↔ ∀ v ∈ items, v.isShowable = true := by
  induction items with
  | nil => exact ⟨fun _ => List.forall_mem_nil _, fun _ => rfl⟩
  | cons v items ih =>
    have hstep : (list (v :: items)).isShowable = (v.isShowable && (list items).isShowable) := rfl
    rw [hstep, Bool.and_eq_true, ih, List.forall_mem_cons]

theorem isShowable_dict_iff :
    (dict entries).isShowable = true ↔ ∀ e ∈ entries, e.2.isShowable = true := by
  induction entries with
  | nil => exact ⟨fun _ => List.forall_mem_nil _, fun _ => rfl⟩
  | cons e entries ih =>
    rw [isShowable_dict_cons, Bool.and_eq_true, ih, List.forall_mem_cons]

/-- What a showable dict holds is showable. -/
theorem isShowable_value (h : (dict entries).isShowable = true) (key : Text) :
    (Dict.value entries key).isShowable = true := by
  unfold Dict.value
  cases hfound : entries.get? key with
  | none => rfl
  | some v => exact isShowable_dict_iff.1 h _ (Dict.mem_of_get? hfound)

theorem isShowable_orElse (hv : v.isShowable = true) (hother : other.isShowable = true) :
    (v.orElse other).isShowable = true := by
  unfold orElse
  split
  · exact hv
  · exact hother

end Value

end FarmLink
