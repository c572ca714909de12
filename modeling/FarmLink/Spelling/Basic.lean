import FarmLink.Failure
import FarmLink.Spelling.Base64
import FarmLink.Spelling.Hex

/-!
# Spelling - payloads written as text

On the command line a payload is written in hex, in base64, or as its own text.
-/

namespace FarmLink

/-- How a payload is written. -/
inductive Encoding
  | hex
  | base64
  | text
deriving DecidableEq, Repr

namespace Encoding

/-- The encoding with a name. -/
def ofName? (name : Text) : Option Encoding :=
  if name = "hex" then some hex
  else if name = "base64" then some base64
  else if name = "text" then some text
  else none

/-- The bytes that a text spells in an encoding. -/
def read (encoding : Encoding) (t : Text) : Except Failure Bytes :=
  match encoding with
  | hex => match Hex.read? t with
    | some bs => .ok bs
    | none => .error .spelling
  | base64 => match Base64.read? t with
    | some bs => .ok bs
    | none => .error .spelling
  | text => match Text.toBytes? t with
    | some bs => .ok bs
    | none => .error .notLatin

/-- The bytes that a text spells in the encoding with a name. -/
def readNamed (name t : Text) : Except Failure Bytes :=
  match ofName? name with
  | some encoding => encoding.read t
  | none => .error (.unknownEncoding name)

/-- A text that is not read is an invalid value, in every encoding and under every other name. -/
theorem isInvalidValue_of_readNamed {name t : Text} {f : Failure}
    (h : readNamed name t = .error f) : f.isInvalidValue = true := by
  unfold readNamed at h
  cases hname : ofName? name with
  | none =>
    rw [hname] at h
    cases h
    rfl
  | some encoding =>
    rw [hname] at h
    cases encoding with
    | hex | base64 | text =>
      simp only [read] at h
      split at h
      · cases h
      · cases h
        rfl

theorem exists_error_of_not_read {name t : Text} (h : ¬ ∃ bs, readNamed name t = .ok bs) :
    ∃ f, readNamed name t = .error f ∧ f.isInvalidValue = true := by
  cases hread : readNamed name t with
  | error f => exact ⟨f, rfl, isInvalidValue_of_readNamed hread⟩
  | ok bs => exact absurd ⟨bs, hread⟩ h

end Encoding

end FarmLink
