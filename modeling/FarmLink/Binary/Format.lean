/-!
# Format - rounding to binary floating point

A binary format is its number of fraction bits and its least positive number `2 ^ -scale`. Every
finite number of the format is a whole multiple of that unit, so the exact value of a pattern is a
natural number of units and rounding works on naturals alone. `Format.round` gives the pattern
nearest to a quotient, the even one of two equally near ones, and the infinite pattern beyond the
largest finite number.
-/

namespace FarmLink

/-- The whole number nearest to `n / d`, the even one of two equally near. -/
def roundQuotient (n d : Nat) : Nat :=
  let q := n / d
  let r := n % d
  if 2 * r < d then q
  else if d < 2 * r then q + 1
  else q + q % 2

/-- A binary interchange format without the sign: `fractionBits` bits behind the leading one, the
unit `2 ^ -scale`, and the pattern of infinity. -/
structure Format where
  fractionBits : Nat
  scale : Nat
  infinite : Nat
deriving DecidableEq, Repr

namespace Format

/-- Double precision. -/
def double : Format where
  fractionBits := 52
  scale := 1074
  infinite := 0x7FF0000000000000

/-- Single precision. -/
def single : Format where
  fractionBits := 23
  scale := 149
  infinite := 0x7F800000

/-- The pattern nearest to the quotient `n / d`. In units, a quotient of up to `fractionBits + 1`
bits is rounded to a whole number; a longer one loses as many low bits as it is longer, and each
lost bit is one step of the exponent. -/
def round (f : Format) (n d : Nat) : Nat :=
  let n := n * Nat.pow 2 f.scale
  let shift := Nat.log2 (n / d) - f.fractionBits
  let pattern := shift * Nat.pow 2 f.fractionBits + roundQuotient n (d * Nat.pow 2 shift)
  if pattern < f.infinite then pattern else f.infinite

/-- The value of a finite pattern in units: a pattern below one step of the exponent counts units,
the others have the leading bit and double with each further step. -/
def units (f : Format) (pattern : Nat) : Nat :=
  let step := Nat.pow 2 f.fractionBits
  if pattern < step then pattern
  else (step + pattern % step) * Nat.pow 2 (pattern / step - 1)

theorem round_le_infinite (f : Format) (n d : Nat) : f.round n d ≤ f.infinite := by
  simp only [round]
  split <;> omega

end Format

end FarmLink
