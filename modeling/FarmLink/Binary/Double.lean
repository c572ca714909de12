import FarmLink.Binary.Format

/-!
# Double - double precision numbers by their bits

A double is its sign and the other 63 bits as one number, its magnitude. Magnitudes order as the
values do, the infinite one stands above the finite ones, and those above it are not numbers.
-/

namespace FarmLink

/-- The weight of the sign bit. -/
def Double.signWeight : Nat := 0x8000000000000000

/-- A double precision number: the sign, and the bits without it. -/
structure Double where
  negative : Bool
  magnitude : Nat
  magnitude_lt : magnitude < Double.signWeight
deriving DecidableEq, Repr

namespace Double

/-- The number with these 64 bits. -/
def ofBits (bits : UInt64) : Double where
  negative := signWeight ≤ bits.toNat
  magnitude := bits.toNat % signWeight
  magnitude_lt := Nat.mod_lt _ (by decide)

/-- The 64 bits of a number. -/
def toBits (x : Double) : UInt64 :=
  UInt64.ofNat (x.magnitude + if x.negative then signWeight else 0)

theorem toNat_toBits (x : Double) :
    x.toBits.toNat = x.magnitude + if x.negative then signWeight else 0 := by
  have h := x.magnitude_lt
  rw [toBits, UInt64.toNat_ofNat']
  apply Nat.mod_eq_of_lt
  unfold signWeight at *
  split <;> omega

theorem ofBits_toBits (x : Double) : ofBits x.toBits = x := by
  obtain ⟨negative, magnitude, h⟩ := x
  simp only [ofBits, mk.injEq, toNat_toBits]
  cases negative <;> simp [Nat.mod_eq_of_lt h] <;> omega

theorem toBits_ofBits (bits : UInt64) : (ofBits bits).toBits = bits := by
  have h := bits.toNat_lt
  apply UInt64.toNat_inj.1
  rw [toNat_toBits]
  simp only [ofBits, decide_eq_true_eq]
  unfold signWeight
  split <;> omega

/-- The double nearest to the quotient `n / d` with a sign, infinite beyond the finite ones. -/
def round (negative : Bool) (n d : Nat) : Double where
  negative := negative
  magnitude := Format.double.round n d
  magnitude_lt := Nat.lt_of_le_of_lt (Format.double.round_le_infinite n d) (by decide)

/-- Zero with a sign. -/
def zero (negative : Bool) : Double := ⟨negative, 0, by decide⟩

/-- Infinity with a sign. -/
def infinity (negative : Bool) : Double := ⟨negative, Format.double.infinite, by decide⟩

/-- What is not a number, with a sign; the quiet pattern without further payload. -/
def notANumber (negative : Bool) : Double := ⟨negative, 0x7FF8000000000000, by decide⟩

/-- Neither infinite nor without a value. -/
def isFinite (x : Double) : Bool := x.magnitude < Format.double.infinite

def isInfinite (x : Double) : Bool := x.magnitude == Format.double.infinite

def isNaN (x : Double) : Bool := Format.double.infinite < x.magnitude

/-- Zero of either sign. -/
def isZero (x : Double) : Bool := x.magnitude == 0

/-- The size of a finite number as a multiple of `2 ^ -1074`. -/
def units (x : Double) : Nat := Format.double.units x.magnitude

/-- The units in the number one. -/
def unitsPerOne : Nat := Nat.pow 2 Format.double.scale

/-- A finite number without its fraction. -/
def truncate (x : Double) : Int :=
  let n := x.units / unitsPerOne
  if x.negative then -(n : Int) else n

/-- The whole number that a double equals. -/
def toInt? (x : Double) : Option Int :=
  if x.isFinite ∧ x.units % unitsPerOne = 0 then some x.truncate else none

/-- Equality of values: the zeros are equal, what is not a number equals nothing. -/
def same (x y : Double) : Bool :=
  !x.isNaN && !y.isNaN && ((x.isZero && y.isZero) || (x.negative == y.negative && x.magnitude == y.magnitude))

/-- The double nearest to a whole number, infinite beyond the finite ones. -/
def ofInt (n : Int) : Double := round (n < 0) n.natAbs 1

end Double

end FarmLink
