import FarmLink.Text.Blank
import FarmLink.Text.DecimalDigit
import FarmLink.Text.Latin

/-!
# Hex - bytes as pairs of hexadecimal digits

People paste hex in many ways: with spaces, with a leading `0x`, with line breaks between bytes.
Spaces go wherever they stand; other blanks may only stand between pairs.
-/

namespace FarmLink.Hex

/-- The byte that two hexadecimal digits write. -/
def byte? (high low : CodePoint) : Option UInt8 := do
  let h ← Text.hexDigit? high
  let l ← Text.hexDigit? low
  return UInt8.ofNat (16 * h + l)

/-- The bytes of pairs of digits with blanks between them. -/
def pairs? : Text → Option Bytes
  | [] => some []
  | c :: r =>
    if Text.isAsciiBlank c then pairs? r
    else match r with
      | [] => none
      | d :: r => do
        let b ← byte? c d
        return b :: (← pairs? r)

/-- A text without one leading `0x`. -/
def dropMark : Text → Text
  | zero :: x :: r => if zero = '0' ∧ (x = 'x' ∨ x = 'X') then r else zero :: x :: r
  | t => t

/-- The pairs in a text: without the blanks around it, without spaces, without the mark. -/
def body (t : Text) : Text := dropMark ((Text.strip Text.isBlank t).filter fun c => c != ' ')

/-- The bytes that a text spells. -/
def read? (t : Text) : Option Bytes := pairs? (body t)

/-- Bytes as pairs of lower-case digits. -/
def write (bs : Bytes) : Text := bs.flatMap fun b => Text.ofNatHex 2 b.toNat

end FarmLink.Hex
