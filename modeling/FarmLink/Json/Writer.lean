import FarmLink.Numeral.Shortest
import FarmLink.Value.Basic

/-!
# Writer - values as JSON

The text is ASCII: characters beyond it are escaped by their sixteen-bit units. It stands on one
line, or with one item to a line, two more spaces for each level.
-/

namespace FarmLink.Json

/-- How a document is laid out. -/
inductive Layout
  | oneLine
  | indented
deriving DecidableEq, Repr

/-- The escape of a sixteen-bit unit. -/
def unitEscape (n : Nat) : Text := "\\u" ++ Text.ofNatHex 4 n

/-- One character between double quotes. -/
def escapeChar (c : CodePoint) : Text :=
  let n := c.toNat
  if c = '"' then "\\\""
  else if c = '\\' then "\\\\"
  else if c = '\n' then "\\n"
  else if c = '\r' then "\\r"
  else if c = '\t' then "\\t"
  else if n = 0x08 then "\\b"
  else if n = 0x0C then "\\f"
  else if 0x20 ≤ n ∧ n < 0x7F then [c]
  else if n < 0x10000 then unitEscape n
  else unitEscape (0xD800 + (n - 0x10000) / 0x400) ++ unitEscape (0xDC00 + (n - 0x10000) % 0x400)

/-- A text between double quotes. -/
def writeText (t : Text) : Text := "\"" ++ t.flatMap escapeChar ++ "\""

/-- What stands in front of an item at a level, and behind the last one of the level above. -/
def lineBreak (layout : Layout) (level : Nat) : Text :=
  match layout with
  | .oneLine => []
  | .indented => '\n' :: Text.repeated (2 * level) ' '

/-- What stands between two items at a level. -/
def separator (layout : Layout) (level : Nat) : Text :=
  match layout with
  | .oneLine => ", "
  | .indented => ',' :: lineBreak layout level

/-- Items at a level between brackets. -/
def enclose (layout : Layout) (level : Nat) (first last : CodePoint) (items : List Text) : Text :=
  match items with
  | [] => [first, last]
  | _ =>
    first :: lineBreak layout (level + 1) ++ Text.join (separator layout (level + 1)) items
      ++ lineBreak layout level ++ [last]

mutual

/-- A value at a level. -/
def write (layout : Layout) (level : Nat) : Value → Text
  | .null => "null"
  | .bool true => "true"
  | .bool false => "false"
  | .int n => Text.ofInt n
  | .float x => x.toTextWith "Infinity" "NaN"
  | .text t => writeText t
  | .list items => enclose layout level '[' ']' (writeItems layout (level + 1) items)
  | .dict entries => enclose layout level '\x7b' '\x7d' (writeEntries layout (level + 1) entries)

/-- The items of a list, each as text. -/
def writeItems (layout : Layout) (level : Nat) : List Value → List Text
  | [] => []
  | v :: vs => write layout level v :: writeItems layout level vs

/-- The entries of a dict, each as text. -/
def writeEntries (layout : Layout) (level : Nat) : List (Text × Value) → List Text
  | [] => []
  | (k, v) :: es => (writeText k ++ ": " ++ write layout level v) :: writeEntries layout level es

end

end FarmLink.Json
