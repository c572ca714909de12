import FarmLink.Text.DecimalDigit
import FarmLink.Text.Printable

/-!
# Quoted - texts inside messages

Messages show a text between quotes, with escapes for what cannot be shown as it is, so that a
reader of the message sees where the text ends and which characters it holds.
-/

namespace FarmLink.Text

/-- One character between quotes of a kind: the quote and the backslash behind a backslash, three
control characters by letter, other characters that are not printable by number. -/
def quoteChar (quote c : CodePoint) : Text :=
  if c = quote ∨ c = '\\' then ['\\', c]
  else if c = '\n' then "\\n"
  else if c = '\r' then "\\r"
  else if c = '\t' then "\\t"
  else if isPrintable c then [c]
  else if c.toNat < 0x100 then "\\x" ++ ofNatHex 2 c.toNat
  else if c.toNat < 0x10000 then "\\u" ++ ofNatHex 4 c.toNat
  else "\\U" ++ ofNatHex 8 c.toNat

/-- Single quotes, or double ones around a text that holds single quotes and no double one. -/
def quoteFor (t : Text) : CodePoint :=
  if t.contains '\x27' && !t.contains '"' then '"' else '\x27'

/-- A text between quotes. -/
def quoted (t : Text) : Text :=
  let quote := quoteFor t
  quote :: t.flatMap (quoteChar quote) ++ [quote]

end FarmLink.Text
