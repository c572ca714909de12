import FarmLink.Binary.Words
import FarmLink.Failure
import FarmLink.Payload
import FarmLink.StateChange.Basic

/-!
# Batch - state changes over the air

A frame holds one or more records of 11 bytes: five single bytes, the clock in four and the
sequence number in two, lowest byte first. A frame of another length is refused as a whole, and so
is a batch with a part that does not fit its bytes.
-/

namespace FarmLink

namespace StateChange

/-- The number of bytes in a record. -/
def recordSize : Nat := 11

/-- The records of whole groups of 11 bytes. -/
def records : Bytes → List StateChange
  | control :: new :: old :: source :: rule :: m0 :: m1 :: m2 :: m3 :: q0 :: q1 :: rest =>
    { controlIdx := control, newState := new, oldState := old, sourceId := source, ruleId := rule
      deviceMs := UInt32.ofNat (ofLittleEndian [m0, m1, m2, m3])
      seq := UInt16.ofNat (ofLittleEndian [q0, q1]) } :: records rest
  | _ => []

/-- Whether a frame is a positive number of whole records. -/
def isBatch (bs : Bytes) : Bool := bs.length != 0 && bs.length % recordSize == 0

/-- The error about a frame that is no batch. -/
def lengthError (bs : Bytes) : CodecError := .length bs.length recordSize

/-- Reads the records of a frame. -/
def parse (p : Payload) : Except Failure (List StateChange) :=
  match p.toBytes with
  | .error m => .error (.mismatch m)
  | .ok bs => if isBatch bs then .ok (records bs) else .error (lengthError bs).failure

/-- The dict form of a frame: its records, or that its length is wrong. -/
def dictOfBytes (bs : Bytes) : Dict Value :=
  if isBatch bs then
    [("stateChanges", .list ((records bs).map fun r => .dict r.toDraft.toDict))]
  else [("error", .text "InvalidLength"), ("detail", .text (lengthError bs).message)]

end StateChange

namespace StateChangeDraft

/-- A part in a number of bytes. Truth values count as numbers. -/
def packPart (name : Text) (width : Nat) (v : Value) : Except Failure Bytes :=
  let fault := (CodecError.encode (.outOfRange name (8 * width) v)).failure
  let pack (n : Int) : Except Failure Bytes :=
    if 0 ≤ n ∧ n.toNat < byteRange width then .ok (littleEndian width n.toNat) else .error fault
  match v with
  | .bool b => pack (if b then 1 else 0)
  | .int n => pack n
  | _ => .error fault

/-- The widths of the parts in the order of the layout. -/
def widths : List Nat := [1, 1, 1, 1, 1, 4, 2]

/-- A record; its first part that does not fit fails it. -/
def pack (d : StateChangeDraft) : Except Failure Bytes := do
  let cells ← (d.parts.zip widths).mapM fun cell => packPart cell.1.1 cell.2 cell.1.2
  return cells.flatten

/-- The frame of a batch; its first record that cannot be packed fails it. -/
def packAll (ds : List StateChangeDraft) : Except Failure Bytes := do
  let cells ← ds.mapM pack
  return cells.flatten

end StateChangeDraft

end FarmLink
