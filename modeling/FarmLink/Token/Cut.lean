import FarmLink.Failure
import FarmLink.Text.Basic

/-!
# Cut - parts of a device token

Devices join keys and values by colons and names and values by equals signs. A pair has exactly
one separator; an assignment ends its name at the first equals sign and may hold more of them in
its value.
-/

namespace FarmLink.Token

/-- The two parts of a token around `sep`, where it has exactly two. -/
def pair? (sep token : Text) : Option (Text × Text) :=
  match Text.cut? sep token with
  | none => none
  | some (a, b) => if (Text.cut? sep b).isNone then some (a, b) else none

/-- The two parts of a token around `sep`, which must not be empty. -/
def pairAt (sep token : Text) : Except Failure (Option (Text × Text)) :=
  if sep = [] then .error .emptySeparator else .ok (pair? sep token)

/-- The part at a position, counted from the end where it is negative. Behind the last part there
are empty ones, before the first one none. -/
def partAt (parts : List Text) (i : Int) : Except Failure Text :=
  let position := if i < 0 then i + parts.length else i
  if position < 0 then .error .position else .ok (Text.part parts position.toNat)

/-- The name and the value around the first equals sign; a name has at least one character. -/
def assignment? (segment : Text) : Option (Text × Text) :=
  match Text.cut? ['='] segment with
  | none => none
  | some (name, value) => if name = [] then none else some (name, value)

end FarmLink.Token
