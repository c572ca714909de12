import FarmLink.Numeral.Decimal
import FarmLink.Text.Blank

/-!
# Strict - texts that are numerals as a whole

Numbers given as text by a server or on the command line must be numerals from end to end: blanks
around, a sign, digits of any script with single underscores between them, and for doubles a
point, an exponent, or the names of the numbers without digits.
-/

namespace FarmLink.Numeral

/-- White space beyond ASCII as a space, digits of any script as ASCII digits, other characters
beyond ASCII as one that no numeral holds. -/
def plainChar (c : CodePoint) : CodePoint :=
  if c.toNat < 127 then c
  else if Text.isBlank c then ' '
  else match Text.digit? c with
    | some d => Nat.digitChar d
    | none => '?'

/-- A text in ASCII characters without blanks around it. -/
def plain (t : Text) : Text := Text.strip Text.isAsciiBlank (t.map plainChar)

/-- Digits with single underscores between them. -/
def groupedDigits? : Text → Option (List Nat)
  | [] => none
  | [c] => (Text.asciiDigit? c).map ([·])
  | c :: next :: r => do
    let d ← Text.asciiDigit? c
    let ds ← if next = '_' then groupedDigits? r else groupedDigits? (next :: r)
    return d :: ds

/-- Why a text is not a whole number: no numeral, or one with too many digits. -/
inductive Flaw
  | malformed
  | tooLong
deriving DecidableEq, Repr

/-- The whole number that a text writes. -/
def integer (t : Text) : Except Flaw Int :=
  let (negative, t) := Decimal.scanSign (plain t)
  match groupedDigits? t with
  | none => .error .malformed
  | some ds =>
    if digitLimit < ds.length then .error .tooLong
    else
      let n : Int := Text.ofDigits 10 ds
      .ok (if negative then -n else n)

/-- A text without the underscores that stand between two digits; one elsewhere spoils it.
`behindDigit` tells whether the character in front was a digit. -/
def ungroup? (behindDigit : Bool) : Text → Option Text
  | [] => some []
  | c :: r =>
    if c = '_' then
      if behindDigit && (r.head?.bind Text.asciiDigit?).isSome then ungroup? false r else none
    else (ungroup? (Text.asciiDigit? c).isSome r).map (c :: ·)

/-- The double that a text names without digits, behind a sign already read. -/
def named? (negative : Bool) (t : Text) : Option Double :=
  let name := t.map CodePoint.toLower
  if name = "inf" ∨ name = "infinity" then some (.infinity negative)
  else if name = "nan" then some (.notANumber negative)
  else none

/-- The double nearest to the number that a text writes. -/
def double? (t : Text) : Option Double := do
  let t ← ungroup? false (plain t)
  let (negative, unsigned) := Decimal.scanSign t
  match named? negative unsigned with
  | some x => some x
  | none =>
    match Decimal.scan Text.asciiDigit? t with
    | some (x, []) => some x.toDouble
    | _ => none

end FarmLink.Numeral
