import FarmLink.Text.DecimalDigit
import Mathlib.Algebra.Group.Nat.Defs
import Mathlib.Data.List.Induction

/-!
# Digits - runs of digits and how large they can be

A run of digits writes a number below the base raised to the length of the run. The readers of
digits take a run as far as it goes (`takeDigits_append`, `exists_run_of_takeDigits`), and the
values that they give are below their base.
-/

namespace FarmLink.Text

theorem ofDigits_concat (base : Nat) (ds : List Nat) (d : Nat) :
    ofDigits base (ds ++ [d]) = base * ofDigits base ds + d := by
  unfold ofDigits
  rw [List.foldl_append]
  rfl

theorem ofDigits_lt {base : Nat} {ds : List Nat} (h : ∀ d ∈ ds, d < base) :
    ofDigits base ds < base ^ ds.length := by
  induction ds using List.reverseRecOn with
  | nil => exact Nat.one_pos
  | append_singleton ds d ih =>
    have hlast : d < base := h d (List.mem_append_right _ List.mem_cons_self)
    have hfront := ih fun e he => h e (List.mem_append_left _ he)
    rw [ofDigits_concat, List.length_append, List.length_singleton, Nat.pow_succ, Nat.mul_comm]
    calc ofDigits base ds * base + d
        < ofDigits base ds * base + base := Nat.add_lt_add_left hlast _
      _ = (ofDigits base ds + 1) * base := by rw [Nat.add_mul, Nat.one_mul]
      _ ≤ base ^ ds.length * base := Nat.mul_le_mul_right base hfront

/-! ### Runs of digits -/

section Runs

variable {value? : CodePoint → Option Nat} {t y : Text} {ds : List Nat}

/-- A run of digits is taken with those that follow it. -/
theorem takeDigits_append (h : t.map value? = ds.map some) (y : Text) :
    takeDigits value? (t ++ y) = (ds ++ (takeDigits value? y).1, (takeDigits value? y).2) := by
  induction t generalizing ds with
  | nil =>
    obtain rfl : ds = [] := List.map_eq_nil_iff.1 h.symm
    rfl
  | cons c t ih =>
    rcases ds with - | ⟨d, ds⟩
    · cases h
    · simp only [List.map_cons, List.cons.injEq] at h
      rw [List.cons_append, takeDigits, h.1, ih h.2]
      rfl

theorem takeDigits_of_head? (h : ∀ c ∈ y.head?, value? c = none) :
    takeDigits value? y = ([], y) := by
  cases y with
  | nil => rfl
  | cons c r => rw [takeDigits, h c rfl]

/-- **A run of digits is taken up to what is no digit.** -/
theorem takeDigits_of_stop (h : t.map value? = ds.map some)
    (hy : ∀ c ∈ y.head?, value? c = none) : takeDigits value? (t ++ y) = (ds, y) := by
  rw [takeDigits_append h, takeDigits_of_head? hy, List.append_nil]

/-- What is taken are the values of the characters in front. -/
theorem exists_run_of_takeDigits (value? : CodePoint → Option Nat) (t : Text) :
    ∃ s, t = s ++ (takeDigits value? t).2 ∧ s.map value? = (takeDigits value? t).1.map some := by
  induction t with
  | nil => exact ⟨[], rfl, rfl⟩
  | cons c r ih =>
    rw [takeDigits]
    cases hc : value? c with
    | none => exact ⟨[], rfl, rfl⟩
    | some d =>
      obtain ⟨s, hs, hdigits⟩ := ih
      refine ⟨c :: s, congrArg (c :: ·) hs, ?_⟩
      rw [List.map_cons, hc]
      exact congrArg (some d :: ·) hdigits

theorem takeDigits_suffix (value? : CodePoint → Option Nat) (t : Text) :
    (takeDigits value? t).2 <:+ t := by
  obtain ⟨s, hs, -⟩ := exists_run_of_takeDigits value? t
  exact ⟨s, hs.symm⟩

/-- What is left of a run begins with no digit. -/
theorem head?_takeDigits (value? : CodePoint → Option Nat) (t : Text) :
    ∀ c ∈ (takeDigits value? t).2.head?, value? c = none := by
  induction t with
  | nil =>
    intro c hc
    cases hc
  | cons c r ih =>
    rw [takeDigits]
    cases hc : value? c with
    | none =>
      rintro _ ⟨⟩
      exact hc
    | some d => exact ih

/-- What is left is no longer than the text. -/
theorem length_takeDigits_le (value? : CodePoint → Option Nat) (t : Text) :
    (takeDigits value? t).2.length ≤ t.length := by
  obtain ⟨s, hs, -⟩ := exists_run_of_takeDigits value? t
  have hlength := congrArg List.length hs
  rw [List.length_append] at hlength
  omega

/-- Every digit of a run is the value of a character. -/
theorem exists_of_mem_takeDigits {d : Nat} (h : d ∈ (takeDigits value? t).1) :
    ∃ c, value? c = some d := by
  obtain ⟨s, -, hdigits⟩ := exists_run_of_takeDigits value? t
  have hmem : some d ∈ s.map value? := hdigits ▸ List.mem_map_of_mem h
  obtain ⟨c, -, hc⟩ := List.mem_map.1 hmem
  exact ⟨c, hc⟩

end Runs

theorem digit?_lt {c : CodePoint} {d : Nat} (h : digit? c = some d) : d < 10 := by
  obtain ⟨start, -, hstart⟩ := List.exists_of_findSome?_eq_some h
  split at hstart
  · cases hstart
    omega
  · cases hstart

theorem asciiDigit?_eq_some_iff {c : CodePoint} {d : Nat} :
    asciiDigit? c = some d ↔ 0x30 ≤ c.toNat ∧ c.toNat ≤ 0x39 ∧ d = c.toNat - 0x30 := by
  have hrange : ('0' ≤ c ∧ c ≤ '9') ↔ 0x30 ≤ c.toNat ∧ c.toNat ≤ 0x39 := Iff.rfl
  have hzero : ('0' : Char).toNat = 0x30 := rfl
  unfold asciiDigit?
  simp only [hrange, hzero]
  by_cases h : 0x30 ≤ c.toNat ∧ c.toNat ≤ 0x39
  · simp [h, eq_comm]
  · simp only [if_neg h, reduceCtorEq, false_iff]
    omega

theorem asciiDigit?_lt {c : CodePoint} {d : Nat} (h : asciiDigit? c = some d) : d < 10 := by
  have hrange := asciiDigit?_eq_some_iff.1 h
  omega

end FarmLink.Text
