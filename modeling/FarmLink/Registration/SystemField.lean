import FarmLink.Registration.Basic

/-!
# SystemField - parameters of the device itself

The metadata text `sys` lists parameters as `key:name:unit:min:max:access:state_class`, with
blanks around the text and around each entry. An entry needs a key and a name part; access `w`
marks a parameter that can be written.
-/

namespace FarmLink

namespace SystemField

/-- Reads one entry. -/
def ofEntry? (entry : Text) : Option SystemField :=
  let parts := Text.split ':' (Text.strip Text.isBlank entry)
  let key := Text.part parts 0
  if parts.length < 2 ∨ key = [] then none
  else some {
    key := key
    name := Text.orElse (Text.part parts 1) key
    unit := Text.nonempty? (Text.part parts 2)
    minValue := Token.number? (Text.part parts 3)
    maxValue := Token.number? (Text.part parts 4)
    writable := Text.part parts 5 == "w"
    stateClass := Text.nonempty? (Text.part parts 6) }

/-- Reads a list of parameters; it may be introduced by its own name. -/
def listOfText (value : Text) : List SystemField :=
  let t := Text.strip Text.isBlank value
  let body := (Text.after? "sys=" t).getD t
  (Text.split ',' body).filterMap ofEntry?

end SystemField

namespace Registration

/-- The parameters in the metadata of a registration. -/
def systemFields (r : Registration) : List SystemField :=
  SystemField.listOfText ((r.metadata.get? "sys").getD [])

end Registration

end FarmLink
