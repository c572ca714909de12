import FarmLink.Token.Cut
import FarmLink.Token.Number
import FarmLink.Payload

/-!
# Telemetry - readings of a device

A telemetry frame is `key:value,key:value,...`. A token counts when it has exactly one colon; its
value is the number at its front, or its text where there is none. Diagnostics frames are
telemetry whose firmware version stays a text.
-/

namespace FarmLink

/-- The value of a reading. -/
inductive Reading
  | number (x : Double)
  | text (t : Text)
deriving DecidableEq, Repr

namespace Reading

/-- The number at the front of a token, or the token itself. -/
def ofToken (token : Text) : Reading :=
  match Token.number? token with
  | some x => number x
  | none => text token

def toValue : Reading → Value
  | number x => .float x
  | text t => .text t

end Reading

/-- The readings of a frame in the order of their keys' first tokens. -/
abbrev Telemetry := Dict Reading

namespace Telemetry

/-- The readings with those of one more token; a token that is not a pair adds nothing. -/
def addToken (keepText : List Text) (readings : Telemetry) (token : Text) : Telemetry :=
  match Token.pair? [':'] token with
  | none => readings
  | some (key, value) =>
    Dict.put readings key (if keepText.contains key then .text value else Reading.ofToken value)

/-- Reads a frame. The values of keys in `keepText` stay texts. -/
def ofText (keepText : List Text) (t : Text) : Telemetry :=
  (Text.split ',' t).foldl (addToken keepText) []

/-- The key of the firmware version. -/
def firmwareKeys : List Text := ["fw"]

/-- The dict form of readings. -/
def toDict (readings : Telemetry) : Dict Value := Dict.mapValues Reading.toValue readings

end Telemetry

end FarmLink
