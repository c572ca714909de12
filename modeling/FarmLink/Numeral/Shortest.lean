import FarmLink.Numeral.Decimal

/-!
# Shortest - the fewest digits that read back

A double is shown by a decimal of the fewest digits that reads back as the same double, and of
those by the nearest one. Both neighbours of the exact value on the grid of a digit count are
tried by reading them back, so whatever is found does read back; the exact value, which has a
finite decimal form, stands behind the search.
-/

namespace FarmLink

namespace Decimal

/-- A number of units of the least positive double over a power of ten, as a quotient. -/
def overPower (units : Nat) (power : Int) : Nat × Nat :=
  if 0 ≤ power then (units, Double.unitsPerOne * Nat.pow 10 power.toNat)
  else (units * Nat.pow 10 (-power).toNat, Double.unitsPerOne)

/-- The least power of ten above a number of units. A bit is 1233/4096 of a decimal place to
within a hundredth over the whole range, which leaves three places to try. -/
def placeAbove (units : Nat) : Int :=
  let bits : Int := (Nat.log2 units : Int) - Format.double.scale
  let low := bits * 1233 / 4096
  let isAbove (place : Int) : Bool := let (n, d) := overPower units place; n < d
  if isAbove low then low else if isAbove (low + 1) then low + 1 else low + 2

/-- The multiple of a power of ten nearest to a positive double among its two neighbours, the even
one of two equally near, as far as they read back. -/
def nearestOnGrid? (magnitude units : Nat) (power : Int) : Option Decimal :=
  let (n, d) := overPower units power
  let below : Decimal := ⟨false, n / d, power⟩
  let above : Decimal := ⟨false, n / d + 1, power⟩
  let readsBack (x : Decimal) : Bool := x.toDouble.magnitude == magnitude
  let nearer := if roundQuotient n d = n / d then below else above
  let farther := if roundQuotient n d = n / d then above else below
  if readsBack nearer then some nearer
  else if readsBack farther then some farther
  else none

/-- The exact value of a number of units. -/
def exact (units : Nat) : Decimal where
  negative := false
  coefficient := units * Nat.pow 5 Format.double.scale
  exponent := -(Format.double.scale : Int)

/-- A decimal of the fewest digits that reads back as a positive finite double. The grids become
ten times finer from one try to the next, and the first holds the power of ten above. -/
def shortest (x : Double) : Decimal :=
  let place := placeAbove x.units
  let found := (List.range 18).findSome? fun i =>
    nearestOnGrid? x.magnitude x.units (place - (i : Nat))
  found.getD (exact x.units)

/-- Digits with a point, the value being `0.digits * 10 ^ place`: zeros fill the gap to the point
on either side, and at least one digit stands behind it. -/
def positional (digits : Text) (place : Int) : Text :=
  if place ≤ 0 then "0." ++ Text.repeated (-place).toNat '0' ++ digits
  else if digits.length ≤ place then
    digits ++ Text.repeated (place.toNat - digits.length) '0' ++ ".0"
  else digits.take place.toNat ++ "." ++ digits.drop place.toNat

/-- Digits with the point behind the first and an exponent of at least two digits. -/
def scientific (digits : Text) (exponent : Int) : Text :=
  let mantissa := match digits with
    | [] => []
    | [d] => [d]
    | d :: ds => d :: '.' :: ds
  let size := Text.ofNat exponent.natAbs
  mantissa ++ (if exponent < 0 then "e-" else "e+") ++ Text.repeated (2 - size.length) '0' ++ size

/-- A decimal as text: with a point alone between a ten thousandth and `10 ^ 16`, else with an
exponent. -/
def toText (x : Decimal) : Text :=
  let digits := Text.ofNat x.coefficient
  let place := digits.length + x.exponent
  if -4 < place ∧ place ≤ 16 then positional digits place else scientific digits (place - 1)

end Decimal

namespace Double

/-- A finite double as text: its shortest decimal behind its sign. -/
def finiteText (x : Double) : Text :=
  let size : Text := if x.isZero then "0.0" else (Decimal.shortest x).toText
  if x.negative then '-' :: size else size

/-- A double as text, with names for the numbers that have no digits. -/
def toTextWith (infinity nan : Text) (x : Double) : Text :=
  if x.isNaN then nan
  else if x.isInfinite then if x.negative then '-' :: infinity else infinity
  else x.finiteText

end Double

end FarmLink
