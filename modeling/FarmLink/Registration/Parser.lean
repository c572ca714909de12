import FarmLink.Registration.Basic
import FarmLink.Token.Cut

/-!
# Parser - registration documents

A document is segments between pipes, each `name=value`. The names `fields`, `states` and `cmds`
hold lists of entries between commas whose parts stand between colons; other names are metadata.
Nothing is refused: a segment without a name is passed over, as are an entry without a key and a
field whose key is taken, and what an entry leaves out is empty.
-/

namespace FarmLink

namespace ContinuousField

/-- Reads `key:name:unit:min:max:state_class`. -/
def ofParts? (parts : List Text) : Option ContinuousField :=
  let key := Text.part parts 0
  if key = [] then none
  else some {
    key := key
    name := Text.orElse (Text.part parts 1) key
    unit := Text.nonempty? (Text.part parts 2)
    minValue := Token.number? (Text.part parts 3)
    maxValue := Token.number? (Text.part parts 4)
    stateClass := Text.nonempty? (Text.part parts 5) }

end ContinuousField

namespace EnumeratedField

/-- Reads `key:name:state;state;...`. -/
def ofParts? (parts : List Text) : Option EnumeratedField :=
  let key := Text.part parts 0
  let states := Text.part parts 2
  if key = [] then none
  else some {
    key := key
    name := Text.orElse (Text.part parts 1) key
    values := if states = [] then defaultStates else Text.split ';' states }

end EnumeratedField

namespace CommandSpec

/-- Reads `key:port`. -/
def ofParts? (parts : List Text) : Option CommandSpec :=
  let key := Text.part parts 0
  if key = [] then none else some { key := key, port := Token.integer (Text.part parts 1) 0 }

end CommandSpec

/-- The entries of a list, each as its parts. -/
def entriesOf (value : Text) : List (List Text) := (Text.split ',' value).map (Text.split ':')

/-- One segment of a registration document. -/
inductive Segment
  | fields (group : List Field)
  | commands (group : List CommandSpec)
  | metadata (name value : Text)
  | ignored
deriving DecidableEq, Repr

namespace Segment

/-- What a segment declares. -/
def ofText (t : Text) : Segment :=
  match Token.assignment? t with
  | none => ignored
  | some (name, value) =>
    if name = "fields" then
      fields (((entriesOf value).filterMap ContinuousField.ofParts?).map .continuous)
    else if name = "states" then
      fields (((entriesOf value).filterMap EnumeratedField.ofParts?).map .enumerated)
    else if name = "cmds" then
      commands ((entriesOf value).filterMap CommandSpec.ofParts?)
    else metadata name value

end Segment

namespace Registration

/-- A field behind the others, unless its key is taken. -/
def addField (fields : List Field) (f : Field) : List Field :=
  if (fields.map Field.key).contains f.key then fields else fields ++ [f]

/-- A registration with what a segment declares. -/
def add (r : Registration) : Segment → Registration
  | .fields group => { r with fields := group.foldl addField r.fields }
  | .commands group => { r with commands := r.commands ++ group }
  | .metadata name value => { r with metadata := r.metadata.put name value }
  | .ignored => r

/-- Reads a registration document. -/
def ofText (t : Text) : Registration :=
  ((Text.split '|' t).map Segment.ofText).foldl add {}

end Registration

end FarmLink
