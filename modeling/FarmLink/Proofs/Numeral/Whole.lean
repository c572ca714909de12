import FarmLink.Proofs.Numeral.Grammar

/-!
# Whole - whole numerals at the front of a text

There are two ways to write a whole number, in decimal digits of any script and, behind a mark, in
hexadecimal ones (`Radix`). A numeral at the front of a text takes all the digits there are
(`Radix.Takes`), which is possible wherever one stands (`Radix.Leads.exists_takes`).
-/

namespace FarmLink.Numeral

open Text

/-- A way to write whole numbers: the marks that may stand in front of the digits, the values of the
digits, and their base. -/
structure Radix where
  marks : List Text
  value? : CodePoint → Option Nat
  base : Nat

/-- ASCII digits of either case behind `0x`. -/
def hexadecimal : Radix := ⟨["0x", "0X"], hexDigit?, 16⟩

/-- Digits of any script without a mark. -/
def decimal : Radix := ⟨[[]], digit?, 10⟩

theorem mem_marks_hexadecimal {m : Text} :
    m ∈ hexadecimal.marks ↔
      ∃ x : CodePoint, (x = 'x' ∨ x = 'X') ∧ m = ('0' : CodePoint) :: [x] := by
  constructor
  · intro hm
    obtain rfl | hm := List.mem_cons.1 hm
    · exact ⟨'x', .inl rfl, rfl⟩
    · exact ⟨'X', .inr rfl, List.mem_singleton.1 hm⟩
  · rintro ⟨x, rfl | rfl, rfl⟩
    · exact List.mem_cons_self
    · exact List.mem_cons_of_mem _ List.mem_cons_self

namespace Radix

/-- The number behind a sign. -/
def number (r : Radix) (negative : Bool) (ds : List Nat) : Int :=
  if negative then -(ofDigits r.base ds : Int) else ofDigits r.base ds

/-- A whole numeral: a sign, which may be missing, a mark, and at least one digit. -/
inductive Spells (r : Radix) : Text → Bool → List Nat → Prop
  | mk {s m t : Text} {negative : Bool} {ds : List Nat} (hsign : SpellsSign s negative)
      (hmark : m ∈ r.marks) (h : t.map r.value? = ds.map some) (hne : ds ≠ []) :
      r.Spells (s ++ (m ++ t)) negative ds

/-- A whole numeral at the front of a text that takes all the digits there are. -/
inductive Takes (r : Radix) : Text → Bool → List Nat → Prop
  | mk {w rest : Text} {negative : Bool} {ds : List Nat} (h : r.Spells w negative ds)
      (hstop : ∀ c ∈ rest.head?, r.value? c = none) : r.Takes (w ++ rest) negative ds

/-- A whole numeral stands at the front of a text. -/
def Leads (r : Radix) (t : Text) : Prop := ∃ w negative ds, w <+: t ∧ r.Spells w negative ds

variable {r : Radix} {t : Text} {negative : Bool} {ds : List Nat}

/-- Digits behind a sign and a mark are taken as far as they go. -/
theorem takes_append {s m y : Text} (hsign : SpellsSign s negative) (hmark : m ∈ r.marks)
    (hne : (takeDigits r.value? y).1 ≠ []) :
    r.Takes (s ++ (m ++ y)) negative (takeDigits r.value? y).1 := by
  obtain ⟨run, hrun, hvalues⟩ := exists_run_of_takeDigits r.value? y
  have htext : s ++ (m ++ y) = s ++ (m ++ run) ++ (takeDigits r.value? y).2 := by
    simp only [List.append_assoc]
    rw [← hrun]
  rw [htext]
  exact .mk (.mk hsign hmark hvalues hne) (head?_takeDigits r.value? y)

theorem Takes.leads (h : r.Takes t negative ds) : r.Leads t := by
  obtain ⟨h, -⟩ := h
  exact ⟨_, _, _, List.prefix_append _ _, h⟩

/-- **Where a whole numeral stands at the front, one takes all the digits.** -/
theorem Leads.exists_takes (h : r.Leads t) : ∃ negative ds, r.Takes t negative ds := by
  obtain ⟨_, negative, ds, ⟨y, rfl⟩, @⟨s, m, t, _, _, hsign, hmark, hdigits, hne⟩⟩ := h
  have hsome : (takeDigits r.value? (t ++ y)).1 ≠ [] := by
    rw [takeDigits_append hdigits]
    exact List.append_ne_nil_of_left_ne_nil hne _
  have htakes := takes_append hsign hmark hsome
  rw [← List.append_assoc m, ← List.append_assoc s] at htakes
  exact ⟨negative, _, htakes⟩

end Radix

/-! ### What numerals begin with -/

variable {s t : Text} {negative : Bool} {ds : List Nat}

/-- Digits begin with no sign. -/
theorem ne_sign_of_spellsDigits (h : SpellsDigits t ds) (hne : ds ≠ []) (rest : Text) :
    ∀ c ∈ (t ++ rest).head?, c ≠ '-' ∧ c ≠ '+' := by
  obtain ⟨c, r, rfl, hc⟩ := h.exists_head hne
  rintro _ ⟨⟩
  exact ne_sign_of_digit? (.inl hc)

/-- What a hexadecimal numeral at the front begins with behind its sign. -/
theorem exists_mark_of_leads (h : hexadecimal.Leads t) :
    ∃ x c r, (Decimal.scanSign t).2 = ('0' : CodePoint) :: x :: c :: r ∧ (x = 'x' ∨ x = 'X') ∧
      (hexDigit? c).isSome = true := by
  obtain ⟨_, negative, ds, ⟨y, rfl⟩, @⟨s, m, t, _, _, hsign, hmark, hdigits, hne⟩⟩ := h
  obtain ⟨x, hx, rfl⟩ := mem_marks_hexadecimal.1 hmark
  rcases ds with - | ⟨d, ds⟩
  · exact absurd rfl hne
  rcases t with - | ⟨c, t⟩
  · cases hdigits
  rw [List.map_cons, List.map_cons, List.cons.injEq] at hdigits
  refine ⟨x, c, t ++ y, ?_, hx, Option.isSome_iff_exists.2 ⟨d, hdigits.1⟩⟩
  rw [List.append_assoc, scanSign_append hsign]
  · rfl
  · rintro _ ⟨⟩
    decide

/-- What a decimal numeral at the front begins with behind its sign. -/
theorem exists_digit_of_leads (h : decimal.Leads t) :
    ∃ c r, (Decimal.scanSign t).2 = c :: r ∧ (digit? c).isSome = true := by
  obtain ⟨_, negative, ds, ⟨y, rfl⟩, @⟨s, m, t, _, _, hsign, hmark, hdigits, hne⟩⟩ := h
  obtain rfl : m = [] := List.mem_singleton.1 hmark
  obtain ⟨c, r, rfl, hc⟩ := SpellsDigits.exists_head hdigits hne
  refine ⟨c, r ++ y, ?_, hc⟩
  rw [List.nil_append, List.append_assoc,
    scanSign_append hsign (ne_sign_of_spellsDigits hdigits hne y)]
  rfl

/-- Digits of which the first is no zero, and a zero that what follows makes no mark of, begin no
hexadecimal numeral. -/
theorem not_leads_hexadecimal {rest : Text} (hsign : SpellsSign s negative)
    (h : SpellsDigits t ds) (hne : ds ≠ [])
    (hfirst : (t = [CodePoint.ofChar '0'] ∧
        ∀ x c r, rest = x :: c :: r → x = 'x' ∨ x = 'X' → hexDigit? c = none) ∨
      ∃ d r, ds = (d + 1) :: r) : ¬ hexadecimal.Leads (s ++ (t ++ rest)) := by
  intro hleads
  obtain ⟨x, c, r, hmark, hx, hc⟩ := exists_mark_of_leads hleads
  rw [scanSign_append hsign (ne_sign_of_spellsDigits h hne rest)] at hmark
  rcases hfirst with ⟨rfl, hzero⟩ | ⟨d, ds, rfl⟩
  · obtain ⟨-, hrest⟩ := List.cons.inj hmark
    rw [hzero x c r hrest hx] at hc
    cases hc
  · obtain ⟨c, t, rfl, -⟩ := h.exists_head hne
    obtain ⟨rfl, -⟩ := List.cons.inj hmark
    cases (List.cons.inj h).1

end FarmLink.Numeral
