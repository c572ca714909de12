import FarmLink.Value.Convert
import FarmLink.Value.Display

/-!
# Failure - what can go wrong, and how it is told

Errors are causes. `CodecError` and `TableFault` are the codec's own, with one message function
each; `Failure` adds what goes wrong below them, in numbers, texts and files. A message that would
show a whole number of more than `digitLimit` digits cannot be written, and then that is what is
reported: `CodecError.failure` and `TableFault.failure` make this choice once.
-/

namespace FarmLink

/-- Which check a registration frame fails first. -/
inductive FrameFault
  | missingMark
  | missingPipe
  | unknownKey (key : Text)
deriving DecidableEq, Repr

/-- Why a command or a record cannot be packed. -/
inductive EncodeFault
  | noPort
  | notInteger (field : Text) (value : Value)
  | outOfRange (field : Text) (bits : Nat) (value : Value)
  | operatorKind (value : Value)
  | threshold (value : Value)
  | passThroughKind (value : Value)
  | passThroughRange (value : Value)
deriving DecidableEq

/-- An error of the codec, with what caused it. -/
inductive CodecError
  | length (length recordSize : Nat)
  | frame (frame : Text) (fault : FrameFault)
  | unknownPort (port : Value)
  | encode (fault : EncodeFault)
deriving DecidableEq

/-- Why a port table is refused. -/
inductive TableFault
  | missing (key : Text) (entry : Value)
  | portKind (entry : Value)
  | unknownDecoder (decoder : Value) (port : Int)
  | portRange (port : Value)
  | duplicate (port : Int)
deriving DecidableEq

/-- Why an operation gives no result. -/
inductive Failure
  /-- A value cannot be taken for what is called for. -/
  | mismatch (m : Mismatch)
  /-- A position before the first one. -/
  | position
  /-- Cutting at the empty text. -/
  | emptySeparator
  /-- A payload that is not spelled as its encoding asks. -/
  | spelling
  /-- A payload text with a character beyond the byte numbers. -/
  | notLatin
  /-- An encoding by an unknown name. -/
  | unknownEncoding (name : Text)
  /-- A file that is not in the character encoding of texts. -/
  | malformedFile
  /-- A text that is no data document. -/
  | malformedDocument
  /-- A data document in which too many lists and dicts stand in each other. -/
  | deepDocument
  /-- A text with a surrogate, which no output can hold. -/
  | unwritable
  /-- An error of the codec. -/
  | codec (e : CodecError)
  /-- A port table that is refused. -/
  | table (fault : TableFault)
deriving DecidableEq

namespace FrameFault

def message : FrameFault → Text
  | missingMark => "Multi-frame registration required"
  | missingPipe => "Invalid frame format: missing pipe separator"
  | unknownKey key => "Invalid frame key: " ++ Text.quoted key

end FrameFault

namespace EncodeFault

def message : EncodeFault → Text
  | noPort => "No fPort given for downlink"
  | notInteger field value => field ++ " must be an integer, got " ++ value.shown
  | outOfRange field bits value =>
    field ++ " out of range for uint" ++ Text.ofNat bits ++ ": " ++ value.shown
  | operatorKind value => "operator must be a string, got " ++ value.shown
  | threshold value => "threshold is not a float32: " ++ value.shown
  | passThroughKind value => "Pass-through bytes are not integers: " ++ value.shown
  | passThroughRange value => "Pass-through bytes out of range: " ++ value.shown

/-- The name of the value at fault in the command or record. -/
def field : EncodeFault → Text
  | noPort => "fPort"
  | notInteger field _ => field
  | outOfRange field _ _ => field
  | operatorKind _ => "operator"
  | threshold _ => "threshold"
  | passThroughKind _ => "bytes"
  | passThroughRange _ => "bytes"

/-- The value at fault. -/
def value : EncodeFault → Value
  | noPort => .null
  | notInteger _ value => value
  | outOfRange _ _ value => value
  | operatorKind value => value
  | threshold value => value
  | passThroughKind value => value
  | passThroughRange value => value

end EncodeFault

namespace CodecError

/-- The message about a batch of a wrong length. -/
def lengthMessage (length recordSize : Value) : Text :=
  "Invalid state change length: " ++ length.plain ++ " (must be a positive multiple of "
    ++ recordSize.plain ++ ")"

/-- The message about a malformed frame, where no check is named. -/
def frameMessage (frame : Value) : Text := "Invalid registration frame: " ++ frame.shown

/-- The message about a port without a decoder. -/
def portMessage (port : Value) : Text := "Unknown fPort: " ++ port.plain

def message : CodecError → Text
  | length n size => lengthMessage (.int n) (.int size)
  | frame _ fault => fault.message
  | unknownPort port => portMessage port
  | encode fault => fault.message

/-- Whether all numbers in the message can be shown. -/
def isShowable : CodecError → Bool
  | unknownPort port => port.isShowable
  | encode fault => fault.value.isShowable
  | _ => true

/-- The failure reported for an error. -/
def failure (e : CodecError) : Failure :=
  if e.isShowable then .codec e else .mismatch .tooLong

end CodecError

namespace TableFault

def message : TableFault → Text
  | missing key entry => "Port map entry missing " ++ Text.quoted key ++ ": " ++ entry.shown
  | portKind entry => "Port map entry has a non-numeric port: " ++ entry.shown
  | unknownDecoder decoder port =>
    "Unknown decoder " ++ decoder.shown ++ " for fPort " ++ Text.ofInt port
  | portRange port => "port must be an application fPort 1-223, got " ++ port.plain
  | duplicate port => "Duplicate fPort in map: " ++ Text.ofInt port

/-- Whether all numbers in the message can be shown. -/
def isShowable : TableFault → Bool
  | missing _ entry => entry.isShowable
  | portKind entry => entry.isShowable
  | unknownDecoder decoder port => decoder.isShowable && FarmLink.isShowable port
  | portRange port => port.isShowable
  | duplicate port => FarmLink.isShowable port

/-- The failure reported for a refused table. -/
def failure (fault : TableFault) : Failure :=
  if fault.isShowable then .table fault else .mismatch .tooLong

end TableFault

namespace Failure

/-- The message of a failure, where the codec itself words it. -/
def message? : Failure → Option Text
  | unknownEncoding name =>
    some ("Invalid encoding " ++ Text.quoted name ++ ". Must be one of: hex, base64, text")
  | codec e => some e.message
  | table fault => some fault.message
  | _ => none

/-- Whether a failure says that a value is not a valid one, as against a value of the wrong kind,
a number too large, a position out of bounds, too deep a document, or an error of the codec. -/
def isInvalidValue : Failure → Bool
  | mismatch .wrongKind => false
  | mismatch .tooLarge => false
  | position => false
  | deepDocument => false
  | codec _ => false
  | _ => true

end Failure

end FarmLink
