import FarmLink.Binary.Double
import FarmLink.Text.DecimalDigit

/-!
# Decimal - decimal numbers and the doubles nearest to them

A decimal is a whole coefficient times a power of ten. `Decimal.scan` reads the longest decimal at
the front of a text, `Decimal.toDouble` rounds its exact value once.
-/

namespace FarmLink

/-- The longest run of decimal digits that is read as, or shown for, a whole number. The limit is
that of the interpreter, as it is unless an environment moves it; all that is said of whole numbers
here is said of an interpreter that has it. -/
def digitLimit : Nat := 4300

/-- Whether a whole number is short enough to be shown in decimal. -/
def isShowable (n : Int) : Bool := n.natAbs < Nat.pow 10 digitLimit

/-- The number `coefficient * 10 ^ exponent` with a sign, which zero has too. -/
structure Decimal where
  negative : Bool
  coefficient : Nat
  exponent : Int
deriving DecidableEq, Repr

namespace Decimal

/-- The double nearest to a decimal. A coefficient of at least one times more than `10 ^ 310` is
beyond the finite doubles; one below `2 ^ (b + 1)` over more than `10 ^ (b + 400)` is below half
of the least positive double. Neither power is computed. -/
def toDouble (x : Decimal) : Double :=
  if x.coefficient = 0 then .zero x.negative
  else if 310 < x.exponent then .infinity x.negative
  else if 0 ≤ x.exponent then .round x.negative (x.coefficient * Nat.pow 10 x.exponent.toNat) 1
  else if x.exponent + Nat.log2 x.coefficient + 400 < 0 then .zero x.negative
  else .round x.negative x.coefficient (Nat.pow 10 (-x.exponent).toNat)

/-- The decimal written by the digits in front of a point, those behind it, and an exponent. -/
def ofDigits (negative : Bool) (whole fraction : List Nat) (exponent : Int) : Decimal where
  negative := negative
  coefficient := Text.ofDigits 10 (whole ++ fraction)
  exponent := exponent - fraction.length

/-- Whether a minus sign stands in front, and what follows a sign. -/
def scanSign : Text → Bool × Text
  | [] => (false, [])
  | c :: r => if c = '-' then (true, r) else if c = '+' then (false, r) else (false, c :: r)

/-- Digits with at most one point before, among or behind them, as many as there are. -/
def scanMantissa (value? : CodePoint → Option Nat) (t : Text) : Option ((List Nat × List Nat) × Text) :=
  let (whole, rest) := Text.takeDigits value? t
  match Text.after? "." rest with
  | some r =>
    let (fraction, r) := Text.takeDigits value? r
    if whole = [] ∧ fraction = [] then none else some ((whole, fraction), r)
  | none => if whole = [] then none else some ((whole, []), rest)

/-- The exponent at the front of a text, if it has its letter, perhaps a sign, and digits. -/
def exponent? (value? : CodePoint → Option Nat) : Text → Option (Int × Text)
  | [] => none
  | c :: r =>
    if c = 'e' ∨ c = 'E' then
      let (negative, digits) := scanSign r
      match Text.takeDigits value? digits with
      | ([], _) => none
      | (ds, rest) =>
        let n : Int := Text.ofDigits 10 ds
        some (if negative then -n else n, rest)
    else none

/-- The exponent at the front of a text, zero where there is none. -/
def scanExponent (value? : CodePoint → Option Nat) (t : Text) : Int × Text :=
  (exponent? value? t).getD (0, t)

/-- The longest decimal at the front of a text, and what follows it. -/
def scan (value? : CodePoint → Option Nat) (t : Text) : Option (Decimal × Text) :=
  let (negative, t) := scanSign t
  match scanMantissa value? t with
  | none => none
  | some ((whole, fraction), t) =>
    let (exponent, t) := scanExponent value? t
    some (ofDigits negative whole fraction exponent, t)

end Decimal

end FarmLink
