import FarmLink.Failure
import FarmLink.Payload
import FarmLink.Registration.Parser

/-!
# Frame - registration documents in several frames

A document that does not fit one frame comes in frames `reg:<key>|<data>`, with blanks allowed
around the key. The data of all frames, joined by pipes, is the document.
-/

namespace FarmLink

/-- The keys that a frame may have. -/
def frameKeys : List Text := ["header", "fields", "sys", "states", "cmds"]

/-- A frame of a registration document. -/
structure Frame where
  key : Text
  data : Text
deriving DecidableEq, Repr

/-- A frame as it is handed over: as text or as payload, where a payload may also be a text. -/
inductive FrameSource
  | text (t : Text)
  | payload (p : Payload)
deriving DecidableEq

namespace Frame

/-- Reads a frame. The checks are made in this order: mark, pipe, key. -/
def check (t : Text) : Except FrameFault Frame :=
  match Text.after? "reg:" t with
  | none => .error .missingMark
  | some body =>
    match Text.cut? ['|'] body with
    | none => .error .missingPipe
    | some (head, data) =>
      let key := Text.strip Text.isBlank head
      if frameKeys.contains key then .ok { key := key, data := data }
      else .error (.unknownKey key)

/-- Reads a frame; an error carries the whole text. -/
def ofText (t : Text) : Except CodecError Frame :=
  match check t with
  | .ok frame => .ok frame
  | .error fault => .error (.frame t fault)

end Frame

namespace FrameSource

/-- The text of a frame. -/
def toText : FrameSource → Except Mismatch Text
  | text t => .ok t
  | payload (.values (.text t)) => .ok t
  | payload p => p.toText

/-- Reads a frame. -/
def read (source : FrameSource) : Except Failure Frame :=
  match source.toText with
  | .error m => .error (.mismatch m)
  | .ok t =>
    match Frame.ofText t with
    | .error e => .error e.failure
    | .ok frame => .ok frame

end FrameSource

namespace Registration

/-- The document that frames hold together; frames without data add nothing. -/
def documentOf (frames : List Frame) : Text :=
  Text.join "|" ((frames.map Frame.data).filter fun data => !data.isEmpty)

/-- Reads a registration from its frames; the first malformed frame fails it. -/
def assemble (sources : List FrameSource) : Except Failure Registration := do
  let frames ← sources.mapM FrameSource.read
  return ofText (documentOf frames)

end Registration

end FarmLink
