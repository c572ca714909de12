import FarmLink.Text.Blank
import FarmLink.Text.DecimalDigit
import FarmLink.Text.Latin

/-!
# Base64 - three bytes as four digits

Each digit carries six bits. Four digits make three bytes; two or three digits at the end make one
or two bytes, their unused low bits do not count, and padding fills them up to four. The reader
takes digits of the standard alphabet, then padding, and nothing else.
-/

namespace FarmLink.Base64

/-- The value of a digit of the standard alphabet. -/
def digit? (c : CodePoint) : Option Nat :=
  if 'A' ≤ c ∧ c ≤ 'Z' then some (c.toNat - 'A'.toNat)
  else if 'a' ≤ c ∧ c ≤ 'z' then some (c.toNat - 'a'.toNat + 26)
  else if '0' ≤ c ∧ c ≤ '9' then some (c.toNat - '0'.toNat + 52)
  else if c = '+' then some 62
  else if c = '/' then some 63
  else none

/-- The bytes in a stream of digits; bits that do not fill a byte are dropped. -/
def bytesOf : List Nat → Bytes
  | a :: b :: c :: d :: r =>
    UInt8.ofNat (4 * a + b / 16) :: UInt8.ofNat (b % 16 * 16 + c / 4) :: UInt8.ofNat (c % 4 * 64 + d)
      :: bytesOf r
  | [a, b, c] => [UInt8.ofNat (4 * a + b / 16), UInt8.ofNat (b % 16 * 16 + c / 4)]
  | [a, b] => [UInt8.ofNat (4 * a + b / 16)]
  | _ => []

/-- Whether padding of some length may follow a number of digits. Behind whole groups any padding
is let pass, but padding alone is not. -/
def mayPad (digits padding : Nat) : Bool :=
  match digits % 4 with
  | 0 => padding == 0 || digits != 0
  | 2 => padding == 2
  | 3 => padding == 1
  | _ => false

/-- The bytes that a text spells, blanks around it aside. -/
def read? (t : Text) : Option Bytes :=
  let (digits, padding) := Text.takeDigits digit? (Text.strip Text.isBlank t)
  if padding.all (fun c => c == '=') && mayPad digits.length padding.length then
    some (bytesOf digits)
  else none

/-- The digits of the standard alphabet in the order of their values. -/
def alphabet : Text := "ABCDEFGHIJKLMNOPQRSTUVWXYZabcdefghijklmnopqrstuvwxyz0123456789+/"

/-- The digit of a value below 64. -/
def digitChar (n : Nat) : CodePoint := alphabet.getD n '='

/-- Bytes as digits, padded to groups of four. -/
def write : Bytes → Text
  | a :: b :: c :: r =>
    digitChar (a.toNat / 4) :: digitChar (a.toNat % 4 * 16 + b.toNat / 16)
      :: digitChar (b.toNat % 16 * 4 + c.toNat / 64) :: digitChar (c.toNat % 64) :: write r
  | [a, b] =>
    [digitChar (a.toNat / 4), digitChar (a.toNat % 4 * 16 + b.toNat / 16),
      digitChar (b.toNat % 16 * 4), '=']
  | [a] => [digitChar (a.toNat / 4), digitChar (a.toNat % 4 * 16), '=', '=']
  | [] => []

/-- Each value below 64 has a digit that reads as it. -/
theorem digit?_digitChar : ∀ n < 64, digit? (digitChar n) = some n := by
  decide +kernel

end FarmLink.Base64
