import FarmLink.Numeral.Decimal
import FarmLink.Text.Blank

/-!
# Number - the number at the front of a device token

Devices write numbers with units, notes or junk behind them. The readers here skip the blanks in
front, take the longest number that follows, in digits of any script, and let the rest go.
-/

namespace FarmLink.Token

/-- The number at the front of a token, if there is one and it is finite. -/
def number? (token : Text) : Option Double :=
  match Decimal.scan Text.digit? (token.dropWhile Text.isTokenBlank) with
  | none => none
  | some (x, _) => if x.toDouble.isFinite then some x.toDouble else none

/-- The hexadecimal digits behind `0x` at the front of a text; at least one. -/
def hexDigits? : Text → Option (List Nat)
  | zero :: x :: r =>
    if zero = '0' ∧ (x = 'x' ∨ x = 'X') then
      match (Text.takeDigits Text.hexDigit? r).1 with
      | [] => none
      | ds => some ds
    else none
  | _ => none

/-- The size of the whole number at the front of a text: hexadecimal behind `0x`, else decimal in
a run of at most `digitLimit` digits. -/
def size? (t : Text) : Option Nat :=
  match hexDigits? t with
  | some ds => some (Text.ofDigits 16 ds)
  | none =>
    match (Text.takeDigits Text.digit? t).1 with
    | [] => none
    | ds => if ds.length ≤ digitLimit then some (Text.ofDigits 10 ds) else none

/-- The whole number at the front of a token, or a default where there is none. -/
def integer (token : Text) (default : Int) : Int :=
  let (negative, t) := Decimal.scanSign (token.dropWhile Text.isTokenBlank)
  match size? t with
  | none => default
  | some n => if negative then -(n : Int) else n

end FarmLink.Token
