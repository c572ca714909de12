import FarmLink.Text.Latin

/-!
# Utf8 - texts in files

The reader takes exactly the shortest forms of characters: it refuses stray and missing
continuation bytes, overlong forms, surrogate numbers, and numbers above the last character.
-/

namespace FarmLink.Text

/-- The number of bytes that a text takes in a file. -/
def utf8Size (t : Text) : Nat :=
  t.foldl (fun n c =>
    n + if c.toNat < 0x80 then 1 else if c.toNat < 0x800 then 2 else if c.toNat < 0x10000 then 3 else 4) 0

/-- The six bits that a continuation byte carries. -/
def continuation? (b : UInt8) : Option Nat :=
  if 0x80 ≤ b.toNat ∧ b.toNat < 0xC0 then some (b.toNat - 0x80) else none

/-- The character of a number at or above `least`, unless it is no character's number. -/
def charFrom? (least n : Nat) : Option CodePoint :=
  if least ≤ n ∧ n.isValidChar then some (.ofNat n) else none

/-- The character at the front of a file, and the bytes after it. -/
def utf8Char? : Bytes → Option (CodePoint × Bytes)
  | [] => none
  | a :: r =>
    if a.toNat < 0x80 then some (ofByte a, r)
    else if a.toNat < 0xC0 then none
    else if a.toNat < 0xE0 then
      match r with
      | b :: r => do
        let b ← continuation? b
        let c ← charFrom? 0x80 ((a.toNat - 0xC0) * 64 + b)
        return (c, r)
      | _ => none
    else if a.toNat < 0xF0 then
      match r with
      | b :: c :: r => do
        let b ← continuation? b
        let c ← continuation? c
        let d ← charFrom? 0x800 (((a.toNat - 0xE0) * 64 + b) * 64 + c)
        return (d, r)
      | _ => none
    else if a.toNat < 0xF8 then
      match r with
      | b :: c :: d :: r => do
        let b ← continuation? b
        let c ← continuation? c
        let d ← continuation? d
        let e ← charFrom? 0x10000 ((((a.toNat - 0xF0) * 64 + b) * 64 + c) * 64 + d)
        return (e, r)
      | _ => none
    else none

/-- Reads at most `fuel` characters. -/
def utf8Chars? : Nat → Bytes → Option Text
  | _, [] => some []
  | 0, _ :: _ => none
  | fuel + 1, bs => do
    let (c, rest) ← utf8Char? bs
    return c :: (← utf8Chars? fuel rest)

/-- The text of a file. A character takes at least one byte, so the length bounds their number. -/
def ofUtf8? (bs : Bytes) : Option Text := utf8Chars? bs.length bs

end FarmLink.Text
