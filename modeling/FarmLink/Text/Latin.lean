import FarmLink.Text.Basic

/-!
# Latin - one byte per character

Device frames are bytes whose text form takes each byte as the number of one character, so bytes
and texts whose characters are numbered below 256 are the same thing in two forms.
-/

namespace FarmLink

/-- A frame as it goes over the air. -/
abbrev Bytes := List UInt8

namespace Text

/-- The character numbered by a byte. -/
def ofByte (b : UInt8) : CodePoint := ⟨b.toNat, Nat.lt_trans b.toNat_lt (by decide)⟩

/-- The text of a frame. -/
def ofBytes (bs : Bytes) : Text := bs.map ofByte

/-- The byte of a character numbered below 256. -/
def byte? (c : CodePoint) : Option UInt8 :=
  if c.toNat < 256 then some (UInt8.ofNat c.toNat) else none

/-- The frame of a text, if all its characters are numbered below 256. -/
def toBytes? (t : Text) : Option Bytes := t.mapM byte?

end Text

end FarmLink
