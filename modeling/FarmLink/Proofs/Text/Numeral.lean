import FarmLink.Proofs.Text.Digits
import Mathlib.Data.Nat.Digits.Defs

/-!
# Numeral - numbers written in digits

A number is written by the values of its digits, the first of which is zero only where it stands
alone (`exists_writes`). The readers of digits take such a run back value by value, up to what is
no digit (`takeDigits_numerals`), and the values make up the number again. Zeros in front of a run
change nothing, zeros behind it are powers of the base.
-/

namespace FarmLink.Text

/-! ### Digits as values -/

/-- The characters of the values of digits. -/
def numerals (ds : List Nat) : Text := ds.map fun d => CodePoint.ofChar (Nat.digitChar d)

/-- The values of the digits that write a number in a base: no zero stands in front of others. -/
structure Writes (base : Nat) (ds : List Nat) (n : Nat) : Prop where
  lt : ∀ d ∈ ds, d < base
  value : ofDigits base ds = n
  first : ds = [0] ∨ ∃ d r, ds = (d + 1) :: r

theorem Writes.ne_nil {base n : Nat} {ds : List Nat} (h : Writes base ds n) : ds ≠ [] := by
  rcases h.first with rfl | ⟨d, r, rfl⟩
  · exact List.cons_ne_nil _ _
  · exact List.cons_ne_nil _ _

theorem numerals_append (ds es : List Nat) : numerals (ds ++ es) = numerals ds ++ numerals es :=
  List.map_append

theorem length_numerals (ds : List Nat) : (numerals ds).length = ds.length := List.length_map _

theorem repeated_zero (n : Nat) : repeated n '0' = numerals (List.replicate n 0) := by
  unfold repeated numerals
  rw [List.map_replicate]
  rfl

/-- **Every number is written in the digits of a base.** -/
theorem exists_writes {base : Nat} (hone : 1 < base) (n : Nat) :
    ∃ ds, Writes base ds n ∧ (Nat.toDigits base n).map CodePoint.ofChar = numerals ds := by
  induction n using Nat.strong_induction_on with
  | _ n ih =>
    rw [Nat.toDigits_eq_if hone]
    by_cases h : n < base
    · rw [if_pos h]
      refine ⟨[n], ⟨List.forall_mem_singleton.2 h, ?_, ?_⟩, rfl⟩
      · rw [ofDigits, List.foldl_cons, List.foldl_nil, Nat.mul_zero, Nat.zero_add]
      · cases n with
        | zero => exact .inl rfl
        | succ n => exact .inr ⟨n, [], rfl⟩
    · have hsmaller : n / base < n := Nat.div_lt_self (by omega) hone
      have hpos : 0 < n / base := Nat.div_pos (by omega) (by omega)
      obtain ⟨ds, hds, htext⟩ := ih _ hsmaller
      rw [if_neg h, List.map_append, htext]
      refine ⟨ds ++ [n % base], ⟨?_, ?_, ?_⟩, (numerals_append ds [n % base]).symm⟩
      · exact List.forall_mem_append.2
          ⟨hds.lt, List.forall_mem_singleton.2 (Nat.mod_lt n (by omega))⟩
      · rw [ofDigits_concat, hds.value, Nat.div_add_mod]
      · rcases hds.first with rfl | ⟨d, r, rfl⟩
        · have hzero : (0 : Nat) = n / base := hds.value
          omega
        · exact .inr ⟨d, r ++ [n % base], rfl⟩

theorem exists_writes_ofNat (n : Nat) : ∃ ds, Writes 10 ds n ∧ ofNat n = numerals ds :=
  exists_writes (by decide) n

/-! ### Reading the values -/

theorem asciiDigit?_digitChar : ∀ d < 10, asciiDigit? (Nat.digitChar d) = some d := by decide

theorem digit?_digitChar : ∀ d < 10, digit? (Nat.digitChar d) = some d := by decide

theorem hexDigit?_digitChar : ∀ d < 16, hexDigit? (Nat.digitChar d) = some d := by decide

theorem map_numerals {value? : CodePoint → Option Nat} {ds : List Nat}
    (h : ∀ d ∈ ds, value? (Nat.digitChar d) = some d) : (numerals ds).map value? = ds.map some := by
  rw [numerals, List.map_map]
  exact List.map_congr_left h

/-- **A run of digits is taken back**, up to what is no digit. -/
theorem takeDigits_numerals {value? : CodePoint → Option Nat} {ds : List Nat} {rest : Text}
    (hds : ∀ d ∈ ds, value? (Nat.digitChar d) = some d)
    (hrest : ∀ c ∈ rest.head?, value? c = none) :
    takeDigits value? (numerals ds ++ rest) = (ds, rest) :=
  takeDigits_of_stop (map_numerals hds) hrest

theorem takeDigits_ascii {ds : List Nat} {rest : Text} (hds : ∀ d ∈ ds, d < 10)
    (hrest : ∀ c ∈ rest.head?, asciiDigit? c = none) :
    takeDigits asciiDigit? (numerals ds ++ rest) = (ds, rest) :=
  takeDigits_numerals (fun d hd => asciiDigit?_digitChar d (hds d hd)) hrest

/-! ### Zeros around digits -/

theorem ofDigits_append (base : Nat) (ds es : List Nat) :
    ofDigits base (ds ++ es) = ofDigits base ds * base ^ es.length + ofDigits base es := by
  induction es using List.reverseRecOn with
  | nil => rw [List.append_nil, List.length_nil, Nat.pow_zero, Nat.mul_one]; rfl
  | append_singleton es e ih =>
    rw [← List.append_assoc, ofDigits_concat, ofDigits_concat, ih, List.length_append,
      List.length_singleton, Nat.pow_succ]
    ring

theorem ofDigits_replicate_zero (base n : Nat) : ofDigits base (List.replicate n 0) = 0 := by
  induction n with
  | zero => rfl
  | succ n ih => rw [List.replicate_succ', ofDigits_concat, ih, Nat.mul_zero]

theorem ofDigits_zeros_append (base n : Nat) (ds : List Nat) :
    ofDigits base (List.replicate n 0 ++ ds) = ofDigits base ds := by
  rw [ofDigits_append, ofDigits_replicate_zero, Nat.zero_mul, Nat.zero_add]

theorem ofDigits_append_zeros (base n : Nat) (ds : List Nat) :
    ofDigits base (ds ++ List.replicate n 0) = ofDigits base ds * base ^ n := by
  rw [ofDigits_append, ofDigits_replicate_zero, List.length_replicate, Nat.add_zero]

/-- The digits of a number with zeros in front up to a width. -/
theorem exists_padded {base : Nat} (hone : 1 < base) (width n : Nat) :
    ∃ ds, ds ≠ [] ∧ (∀ d ∈ ds, d < base) ∧ ofDigits base ds = n ∧
      (0 < width → n < base ^ width → ds.length = width) ∧
      repeated (width - ((Nat.toDigits base n).map CodePoint.ofChar).length) '0' ++
        (Nat.toDigits base n).map CodePoint.ofChar = numerals ds := by
  obtain ⟨ds, hds, htext⟩ := exists_writes hone n
  refine ⟨List.replicate (width - ds.length) 0 ++ ds,
    List.append_ne_nil_of_right_ne_nil _ hds.ne_nil, ?_, ?_, ?_, ?_⟩
  · intro d hd
    rcases List.mem_append.1 hd with hd | hd
    · rw [List.eq_of_mem_replicate hd]
      omega
    · exact hds.lt d hd
  · rw [ofDigits_zeros_append, hds.value]
  · intro hpos hlt
    have hlength := Nat.toDigits_length base n width hpos hlt
    rw [← List.length_map CodePoint.ofChar, htext, length_numerals] at hlength
    rw [List.length_append, List.length_replicate, Nat.sub_add_cancel hlength]
  · rw [htext, repeated_zero, length_numerals, numerals_append]

end FarmLink.Text
