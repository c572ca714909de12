import FarmLink.Text.CodePoint

/-!
# Text - sequences of code points

A text is the list of its code points, so every reader below is a recursion on the text it reads.
This module holds the cutting and joining that the frame formats rest on: `split` cuts at every
occurrence of one character, `cut?` at the first occurrence of a text, `strip` drops a class of
characters from both ends.
-/

namespace FarmLink

/-- A text is the list of its code points. -/
abbrev Text := List CodePoint

instance : LawfulBEq Text := inferInstanceAs (LawfulBEq (List CodePoint))

namespace Text

/-- The text of a string of characters. -/
def ofString (s : String) : Text := s.toList.map CodePoint.ofChar

instance : Coe String Text := ⟨ofString⟩

/-- A text as a string, where the replacement character stands for surrogates. -/
def toString (t : Text) : String := String.ofList (t.map fun c => c.toChar?.getD '\ufffd')

/-- The parts between the occurrences of `sep`; a text without it is its own only part. -/
def split (sep : CodePoint) : Text → List Text
  | [] => [[]]
  | c :: r =>
    if c = sep then [] :: split sep r
    else match split sep r with
      | [] => [[c]]
      | p :: ps => (c :: p) :: ps

theorem split_ne_nil (sep : CodePoint) (t : Text) : split sep t ≠ [] := by
  cases t with
  | nil => simp [split]
  | cons c r =>
    simp only [split]
    split
    · simp
    · split <;> simp

/-- A character other than the separator goes to the first part. -/
theorem split_cons_of_ne {sep c : CodePoint} (h : c ≠ sep) (r : Text) :
    ∃ p ps, split sep r = p :: ps ∧ split sep (c :: r) = (c :: p) :: ps := by
  cases hr : split sep r with
  | nil => exact absurd hr (split_ne_nil sep r)
  | cons p ps => exact ⟨p, ps, rfl, by simp [split, h, hr]⟩

/-- Cutting goes on behind a separator as it would at the start. -/
theorem split_append (sep : CodePoint) (a b : Text) :
    split sep (a ++ sep :: b) = split sep a ++ split sep b := by
  induction a with
  | nil => simp [split]
  | cons c r ih =>
    by_cases h : c = sep
    · simp [split, h, ih]
    · obtain ⟨p, ps, hr, hc⟩ := split_cons_of_ne h r
      rw [hc, List.cons_append]
      simp [split, h, ih, hr]

/-- A text without the separator is its own only part. -/
theorem split_of_not_mem {sep : CodePoint} {t : Text} (h : sep ∉ t) : split sep t = [t] := by
  induction t with
  | nil => rfl
  | cons c r ih =>
    simp only [List.mem_cons, not_or] at h
    simp [split, Ne.symm h.1, ih h.2]

/-- No part holds the separator. -/
theorem not_mem_of_mem_split {sep : CodePoint} {t p : Text} (h : p ∈ split sep t) : sep ∉ p := by
  induction t generalizing p with
  | nil =>
    simp only [split, List.mem_singleton] at h
    simp [h]
  | cons c r ih =>
    by_cases hc : c = sep
    · simp only [split, hc, if_true, List.mem_cons] at h
      rcases h with rfl | h
      · simp
      · exact ih h
    · obtain ⟨q, ps, hr, hs⟩ := split_cons_of_ne hc r
      rw [hs, List.mem_cons] at h
      rcases h with rfl | h
      · simp only [List.mem_cons, not_or]
        exact ⟨Ne.symm hc, ih (by simp [hr])⟩
      · exact ih (by simp [hr, h])

/-- The parts one after the other with `sep` between neighbours. -/
def join (sep : Text) : List Text → Text
  | [] => []
  | [p] => p
  | p :: q :: ps => p ++ sep ++ join sep (q :: ps)

/-- What follows `start` in a text that begins with it. -/
def after? : Text → Text → Option Text
  | [], t => some t
  | _ :: _, [] => none
  | s :: start, c :: t => if s = c then after? start t else none

theorem after?_eq_some_iff {start t rest : Text} :
    after? start t = some rest ↔ t = start ++ rest := by
  induction start generalizing t with
  | nil => simp [after?, eq_comm]
  | cons s start ih =>
    cases t with
    | nil => simp [after?]
    | cons c t =>
      by_cases h : s = c
      · simp [after?, h, ih]
      · simp [after?, h, Ne.symm h]

/-- The texts before and after the first occurrence of `sep`. -/
def cut? (sep : Text) : Text → Option (Text × Text)
  | [] => if sep = [] then some ([], []) else none
  | c :: r =>
    match after? sep (c :: r) with
    | some rest => some ([], rest)
    | none => (cut? sep r).map fun (a, b) => (c :: a, b)

/-- A text without the longest run of characters of a class at its end. -/
def dropEndWhile (p : CodePoint → Bool) (t : Text) : Text :=
  (t.reverse.dropWhile p).reverse

/-- A text without the longest runs of characters of a class at both ends. -/
def strip (p : CodePoint → Bool) (t : Text) : Text :=
  dropEndWhile p (t.dropWhile p)

/-- A text, or nothing in place of the empty one. -/
def nonempty? (t : Text) : Option Text :=
  if t = [] then none else some t

/-- A text, or another one in place of the empty one. -/
def orElse (t other : Text) : Text :=
  if t = [] then other else t

/-- The part at a position, empty where there is none. -/
def part (parts : List Text) (i : Nat) : Text :=
  parts.getD i []

/-- One code point a number of times. -/
def repeated (n : Nat) (c : CodePoint) : Text :=
  List.replicate n c

/-- A text with spaces in front up to a width. -/
def padStart (width : Nat) (t : Text) : Text :=
  repeated (width - t.length) ' ' ++ t

/-- A text with spaces behind it up to a width. -/
def padEnd (width : Nat) (t : Text) : Text :=
  t ++ repeated (width - t.length) ' '

/-- Order by character numbers, a text before its extensions. -/
def precedes : Text → Text → Bool
  | [], _ => true
  | _ :: _, [] => false
  | a :: s, b :: t => if a = b then precedes s t else a.toNat < b.toNat

end Text

end FarmLink
