import FarmLink.Numeral.Strict
import FarmLink.Value.Basic

/-!
# Convert - values taken for numbers and for sequences

Where a number or a sequence is called for and a value of another kind is given, the value is
converted if it can stand for one, and otherwise the reason is told.
-/

namespace FarmLink

/-- Why a value cannot be taken for what is called for. -/
inductive Mismatch
  /-- A value of a kind that never can. -/
  | wrongKind
  /-- A text that is no numeral, or a number without a value. -/
  | malformed
  /-- A whole number with too many decimal digits. -/
  | tooLong
  /-- A number beyond all that the other kind has. -/
  | tooLarge
deriving DecidableEq, Repr

namespace Value

/-- The whole number that a value stands for: doubles lose their fraction, texts are numerals. -/
def toInt : Value → Except Mismatch Int
  | bool b => .ok (if b then 1 else 0)
  | int n => .ok n
  | float x =>
    if x.isNaN then .error .malformed
    else if x.isInfinite then .error .tooLarge
    else .ok x.truncate
  | text t =>
    match Numeral.integer t with
    | .ok n => .ok n
    | .error .malformed => .error .malformed
    | .error .tooLong => .error .tooLong
  | _ => .error .wrongKind

/-- The double that a value stands for: the nearest one, where whole numbers must not be beyond
the finite ones and texts are numerals. -/
def toDouble : Value → Except Mismatch Double
  | bool b => .ok (.ofInt (if b then 1 else 0))
  | int n => if (Double.ofInt n).isFinite then .ok (.ofInt n) else .error .tooLarge
  | float x => .ok x
  | text t =>
    match Numeral.double? t with
    | some x => .ok x
    | none => .error .malformed
  | _ => .error .wrongKind

/-- The items of a value: those of a list, the characters of a text, the keys of a dict. -/
def items : Value → Except Mismatch (List Value)
  | list items => .ok items
  | text t => .ok (t.map fun c => text [c])
  | dict entries => .ok (entries.map fun e => text e.1)
  | _ => .error .wrongKind

/-- The whole number under which a value is looked up in a table with such keys. Lists and dicts
cannot be looked up; other values that equal no whole number are not found. -/
def key : Value → Except Mismatch (Option Int)
  | list _ => .error .wrongKind
  | dict _ => .error .wrongKind
  | v => .ok v.whole?

/-- Lists and dicts, which cannot be looked up in a table. -/
def IsContainer : Value → Prop
  | list _ => True
  | dict _ => True
  | _ => False

theorem key_of_isContainer {v : Value} (h : v.IsContainer) : v.key = .error .wrongKind := by
  cases v with
  | list _ | dict _ => rfl
  | null | bool _ | int _ | float _ | text _ => exact absurd h id

theorem key_of_not_isContainer {v : Value} (h : ¬ v.IsContainer) : v.key = .ok v.whole? := by
  cases v with
  | list _ | dict _ => exact absurd trivial h
  | null | bool _ | int _ | float _ | text _ => rfl

end Value

end FarmLink
