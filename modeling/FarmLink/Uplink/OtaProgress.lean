import FarmLink.Binary.Words
import FarmLink.Form
import FarmLink.Text.Latin

/-!
# OtaProgress - how far an update over the air has come

The frame is a status byte and the number of the last chunk in two bytes, the lower first.
-/

namespace FarmLink

/-- How far an update over the air has come. -/
structure OtaProgress where
  status : UInt8
  chunkIndex : Nat
deriving DecidableEq, Repr

namespace OtaProgress

/-- Reads a frame of at least three bytes; further bytes do not count. -/
def ofBytes? : Bytes → Option OtaProgress
  | status :: low :: high :: _ => some { status := status, chunkIndex := ofLittleEndian [low, high] }
  | _ => none

/-- The dict form of a report. -/
def toDict (p : OtaProgress) : Dict Value :=
  Form.otaEntries (.int p.status.toNat) (.int p.chunkIndex)

/-- The dict form of a frame: of its report, or of the bytes that are too few for one. -/
def dictOfBytes (bs : Bytes) : Dict Value :=
  match ofBytes? bs with
  | some p => p.toDict
  | none =>
    [("raw", .list (bs.map fun b => .int b.toNat)),
      ("error", .text "OTA progress payload too short")]

end OtaProgress

end FarmLink
