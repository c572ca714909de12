import FarmLink.Text.Latin
import FarmLink.Value.Convert

/-!
# Payload - frames in the forms they are handed over

A frame comes as bytes, as a view of memory, or as a sequence of values each of which stands for a
byte number; of such a number only the lowest eight bits count. A view is no sequence to its
readers: they take the memory behind it, so the items that it shows do not count, be they numbers
of several bytes, doubles, or no numbers at all. Text decoders and byte decoders read the same
frame through `toText` and `toBytes`.
-/

namespace FarmLink

/-- A frame as bytes, as a view of memory with the items that it shows, or as a value whose items
stand for byte numbers. -/
inductive Payload
  | bytes (bs : Bytes)
  | memory (raw : Bytes) (items : List Value)
  | values (v : Value)
deriving DecidableEq

namespace Payload

/-- The lowest eight bits of a number. -/
def lowByte (n : Int) : Nat := (n % 256).toNat

/-- The bytes of a frame. -/
def toBytes : Payload → Except Mismatch Bytes
  | bytes bs => .ok bs
  | memory raw _ => .ok raw
  | values v => do
    let items ← v.items
    items.mapM fun item => do
      let n ← item.toInt
      return UInt8.ofNat (lowByte n)

/-- The text of a frame, one character per byte number. -/
def toText : Payload → Except Mismatch Text
  | bytes bs => .ok (Text.ofBytes bs)
  | memory raw _ => .ok (Text.ofBytes raw)
  | values v => do
    let items ← v.items
    items.mapM fun item => do
      let n ← item.toInt
      return CodePoint.ofNat (lowByte n)

end Payload

end FarmLink
