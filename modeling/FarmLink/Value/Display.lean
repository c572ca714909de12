import FarmLink.Numeral.Shortest
import FarmLink.Text.Quoted
import FarmLink.Value.Basic

/-!
# Display - values inside messages

Messages show the values they complain of: texts between quotes, doubles by their shortest
decimal, lists and dicts with their items. A whole number of more than `digitLimit` digits cannot
be shown; `isShowable` tells whether a value holds none.

How deep lists and dicts stand in each other makes no difference here. An interpreter whose stack
ends in the middle fails instead, which is the one thing about display that is not part of the
model: the stack is taken to be deep enough for the values at hand, as it is for those of a
document, whose reader went as deep.
-/

namespace FarmLink.Value

/-- Whether a value holds only whole numbers that are short enough to be shown. -/
def isShowable (v : Value) : Bool := v.allInts FarmLink.isShowable

mutual

/-- A value as messages show it, however deep it is. -/
def shown : Value → Text
  | .null => "None"
  | .bool true => "True"
  | .bool false => "False"
  | .int n => Text.ofInt n
  | .float x => x.toTextWith "inf" "nan"
  | .text t => Text.quoted t
  | .list items => "[" ++ Text.join ", " (shownItems items) ++ "]"
  | .dict entries => "\x7b" ++ Text.join ", " (shownEntries entries) ++ "\x7d"

/-- The items of a list as messages show them. -/
def shownItems : List Value → List Text
  | [] => []
  | v :: vs => shown v :: shownItems vs

/-- The entries of a dict as messages show them. -/
def shownEntries : List (Text × Value) → List Text
  | [] => []
  | (k, v) :: es => (Text.quoted k ++ ": " ++ shown v) :: shownEntries es

end

/-- A value as running text: a text as it is, other values as messages show them. -/
def plain : Value → Text
  | .text t => t
  | v => shown v

end FarmLink.Value
