import FarmLink.Form
import FarmLink.Token.Number

/-!
# Acknowledgment - the answer of a device to a command

The frame is `port:status`; what follows a second colon does not count.
-/

namespace FarmLink

/-- The answer of a device to a command. -/
structure Acknowledgment where
  port : Int
  status : Text
deriving DecidableEq, Repr

namespace Acknowledgment

/-- Reads an acknowledgment. -/
def ofText (t : Text) : Acknowledgment where
  port := Token.integer (Text.part (Text.split ':' t) 0) 0
  status := Text.orElse (Text.part (Text.split ':' t) 1) "unknown"

/-- The dict form of an acknowledgment. -/
def toDict (ack : Acknowledgment) : Dict Value :=
  Form.ackEntries (.int ack.port) (.text ack.status)

end Acknowledgment

end FarmLink
