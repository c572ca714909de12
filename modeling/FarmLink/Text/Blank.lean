import FarmLink.Text.Basic

/-!
# Blank - three classes of space

Frames, numerals and entry lists do not agree on what a space is, so each reader names its class:
`isBlank` is the white space of the character set, `isAsciiBlank` its ASCII part without the four
separators, `isTokenBlank` what may stand in front of a number in a device token.
-/

namespace FarmLink.Text

/-- White space of the character set: the ASCII controls among it, the next-line control, the
no-break space, and the spaces and separators of the general punctuation. -/
def isBlank (c : CodePoint) : Bool :=
  let n := c.toNat
  (0x09 ≤ n && n ≤ 0x0D) || (0x1C ≤ n && n ≤ 0x20) || n == 0x85 || n == 0xA0 || n == 0x1680
    || (0x2000 ≤ n && n ≤ 0x200A) || n == 0x2028 || n == 0x2029 || n == 0x202F || n == 0x205F
    || n == 0x3000

/-- Space, tab, line feed, vertical tab, form feed and carriage return. -/
def isAsciiBlank (c : CodePoint) : Bool :=
  let n := c.toNat
  (0x09 ≤ n && n ≤ 0x0D) || n == 0x20

/-- What may stand in front of a number in a token: an ASCII blank or a no-break space. -/
def isTokenBlank (c : CodePoint) : Bool :=
  isAsciiBlank c || c.toNat == 0xA0

end FarmLink.Text
