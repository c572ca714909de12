/-!
# CodePoint - the elements of texts

Documents may spell any number of the code space in a text: that of a character, or that of a
surrogate without its partner, which stands for no character. So the elements of texts are code
points. A character goes in by its number and comes out again (`toChar?_ofChar`); surrogates are
all that does not come out (`isSome_toChar?`).
-/

namespace FarmLink

/-- A number of the code space. -/
structure CodePoint where
  toNat : Nat
  toNat_lt : toNat < 0x110000
deriving DecidableEq, Repr

namespace CodePoint

/-- The code point of a character. -/
def ofChar (c : Char) : CodePoint where
  toNat := c.toNat
  toNat_lt := by
    have h : c.toNat.isValidChar := c.valid
    simp only [Nat.isValidChar] at h
    omega

instance : Coe Char CodePoint := ⟨ofChar⟩

instance : LE CodePoint := ⟨fun a b => a.toNat ≤ b.toNat⟩

instance (a b : CodePoint) : Decidable (a ≤ b) := inferInstanceAs (Decidable (a.toNat ≤ b.toNat))

/-- What is shown for a number that has no character. -/
def replacement : CodePoint := ofChar '\ufffd'

/-- The code point of a number, the replacement for a number beyond the code space. -/
def ofNat (n : Nat) : CodePoint := if h : n < 0x110000 then ⟨n, h⟩ else replacement

/-- Whether a code point is one of the halves that make pairs and no characters. -/
def isSurrogate (c : CodePoint) : Bool := 0xD800 ≤ c.toNat && c.toNat < 0xE000

/-- The character of a code point. -/
def toChar? (c : CodePoint) : Option Char :=
  if c.toNat.isValidChar then some (Char.ofNat c.toNat) else none

/-- An ASCII letter in lower case; other code points stay. -/
def toLower (c : CodePoint) : CodePoint :=
  if 'A' ≤ c ∧ c ≤ 'Z' then ofNat (c.toNat + 32) else c

/-- Whether a code point is an ASCII letter. -/
def isLetter (c : CodePoint) : Bool := 'a' ≤ c.toLower && c.toLower ≤ 'z'

@[ext] theorem ext {a b : CodePoint} (h : a.toNat = b.toNat) : a = b := by
  cases a
  cases b
  simp_all

@[simp] theorem toNat_ofChar (c : Char) : (ofChar c).toNat = c.toNat := rfl

theorem toNat_ofNat {n : Nat} (h : n < 0x110000) : (ofNat n).toNat = n := by
  simp [ofNat, h]

/-- **A character comes out as it went in.** -/
theorem toChar?_ofChar (c : Char) : (ofChar c).toChar? = some c := by
  have h : c.toNat.isValidChar := c.valid
  simp [toChar?, h]

theorem ofChar_injective {a b : Char} (h : ofChar a = ofChar b) : a = b := by
  have h2 := congrArg toChar? h
  simpa [toChar?_ofChar] using h2

/-- Exactly the surrogates stand for no character. -/
theorem isSome_toChar? (c : CodePoint) : c.toChar?.isSome = !c.isSurrogate := by
  have h := c.toNat_lt
  rw [Bool.eq_iff_iff]
  simp only [toChar?, isSurrogate, Nat.isValidChar, Bool.not_eq_true', Bool.and_eq_false_iff,
    decide_eq_false_iff_not]
  split <;> simp <;> omega

end CodePoint

end FarmLink
