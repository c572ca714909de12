import FarmLink.Failure

/-!
# Report - errors as they are handed to callers

A report is what a caller sees of an error of the codec: its kind, its message, and the values it
carries, by name in alphabetical order. Callers may also make reports of their own from values of
any shape; then an error without a message of its own gets the usual one of its kind.
-/

namespace FarmLink

/-- The kinds of the codec's errors. -/
inductive ErrorKind
  | general
  | length
  | frame
  | unknownPort
  | encode
deriving DecidableEq, Repr

/-- An error as a caller sees it. -/
structure Report where
  kind : ErrorKind
  message : Text
  attributes : Dict Value
deriving DecidableEq

namespace CodecError

/-- The report of an error. -/
def report (e : CodecError) : Report :=
  match e with
  | length n size => ⟨.length, e.message, [("length", .int n), ("record_size", .int size)]⟩
  | frame t _ => ⟨.frame, e.message, [("frame", .text t)]⟩
  | unknownPort port => ⟨.unknownPort, e.message, [("port", port)]⟩
  | encode fault => ⟨.encode, e.message, [("field", .text fault.field), ("value", fault.value)]⟩

end CodecError

namespace Report

/-- A report whose message shows some values, unless a number among them cannot be shown. -/
def showing (values : List Value) (report : Report) : Except Mismatch Report :=
  if values.all Value.isShowable then .ok report else .error .tooLong

/-- A report with a given message, or with the usual one where the given one says nothing. -/
def withMessage (given : Value) (usual : Text) (shown : List Value) (kind : ErrorKind)
    (attributes : Dict Value) : Except Mismatch Report :=
  if given.isTruthy then showing [given] ⟨kind, given.plain, attributes⟩
  else showing shown ⟨kind, usual, attributes⟩

/-- The message of an error of no special kind: its arguments. -/
def generalMessage : List Value → Text
  | [] => []
  | [v] => v.plain
  | vs => "(" ++ Text.join ", " (Value.shownItems vs) ++ ")"

/-- A report from the positional arguments of its kind. A wrong number of them is refused. -/
def build : ErrorKind → List Value → Except Mismatch Report
  | .general, vs => showing vs ⟨.general, generalMessage vs, []⟩
  | .length, [n, size] => length n size .null
  | .length, [n, size, message] => length n size message
  | .frame, [t] => frame t .null
  | .frame, [t, message] => frame t message
  | .unknownPort, [port] => unknownPort port .null
  | .unknownPort, [port, message] => unknownPort port message
  | .encode, [message] =>
    showing [message] ⟨.encode, message.plain, [("field", .null), ("value", .null)]⟩
  | _, _ => .error .wrongKind
where
  length (n size message : Value) : Except Mismatch Report :=
    withMessage message (CodecError.lengthMessage n size) [n, size] .length
      [("length", n), ("record_size", size)]
  frame (t message : Value) : Except Mismatch Report :=
    withMessage message (CodecError.frameMessage t) [t] .frame [("frame", t)]
  unknownPort (port message : Value) : Except Mismatch Report :=
    withMessage message (CodecError.portMessage port) [port] .unknownPort [("port", port)]

end Report

end FarmLink
