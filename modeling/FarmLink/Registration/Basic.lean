import FarmLink.Token.Number
import FarmLink.Value.Basic

/-!
# Registration - what a device says about itself

A registration lists the channels a device reports, with their bounds or states, the commands it
takes and the ports that carry them, and further texts kept as they came. Two registrations are
the same when their fields and commands are, and their metadata hold the same texts, in whatever
order these arrived.
-/

namespace FarmLink

/-- A numeric channel. -/
structure ContinuousField where
  key : Text
  name : Text
  unit : Option Text := none
  minValue : Option Double := none
  maxValue : Option Double := none
  stateClass : Option Text := none
deriving DecidableEq, Repr

/-- A channel that takes one of some named states. -/
structure EnumeratedField where
  key : Text
  name : Text
  values : List Text
deriving DecidableEq, Repr

/-- A channel of a device. -/
inductive Field
  | continuous (field : ContinuousField)
  | enumerated (field : EnumeratedField)
deriving DecidableEq, Repr

/-- A command that a device takes, and the port that carries it. -/
structure CommandSpec where
  key : Text
  port : Int
deriving DecidableEq, Repr

/-- A device's description of itself. -/
structure Registration where
  fields : List Field := []
  commands : List CommandSpec := []
  metadata : Dict Text := []
deriving DecidableEq, Repr

/-- A parameter of the device itself. -/
structure SystemField where
  key : Text
  name : Text
  unit : Option Text := none
  minValue : Option Double := none
  maxValue : Option Double := none
  writable : Bool := false
  stateClass : Option Text := none
deriving DecidableEq, Repr

/-- The states of a channel that names none. -/
def defaultStates : List Text := ["off", "on"]

namespace Field

def key : Field → Text
  | continuous f => f.key
  | enumerated f => f.key

end Field

/-- Equality of bounds by value. -/
def sameBound : Option Double → Option Double → Bool
  | none, none => true
  | some x, some y => x.same y
  | _, _ => false

namespace Field

/-- Equality of channels, bounds by value. -/
def same : Field → Field → Bool
  | continuous f, continuous g =>
    f.key == g.key && f.name == g.name && f.unit == g.unit && sameBound f.minValue g.minValue
      && sameBound f.maxValue g.maxValue && f.stateClass == g.stateClass
  | enumerated f, enumerated g => f == g
  | _, _ => false

/-- Equality of lists of channels. -/
def sameAll : List Field → List Field → Bool
  | [], [] => true
  | f :: fs, g :: gs => f.same g && sameAll fs gs
  | _, _ => false

end Field

namespace Registration

def fieldKeys (r : Registration) : List Text := r.fields.map Field.key

/-- Equality of metadata as maps: as many keys, and each has the same text in both. -/
def sameMetadata (a b : Dict Text) : Bool :=
  a.length == b.length && a.all fun e => b.get? e.1 == some e.2

/-- Equality of registrations. -/
def same (r s : Registration) : Bool :=
  Field.sameAll r.fields s.fields && r.commands == s.commands
    && sameMetadata r.metadata s.metadata

end Registration

end FarmLink
