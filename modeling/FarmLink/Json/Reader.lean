import FarmLink.Failure
import FarmLink.Numeral.Decimal
import FarmLink.Value.Basic

/-!
# Reader - values from JSON

The reader takes JSON and the names of the doubles without digits. Whole numbers have any size up
to `digitLimit` digits, numbers with a point or an exponent are doubles. Of two entries with the
same key the later value counts, in the earlier place. How deep lists and dicts may stand in each
other is no matter of JSON but of the reader's stack, so it is a parameter of reading. Fuel bounds
the steps; two per character are more than any text can use.
-/

namespace FarmLink.Json

def isBlank (c : CodePoint) : Bool := c == ' ' || c == '\t' || c == '\n' || c == '\r'

def skipBlanks (t : Text) : Text := t.dropWhile isBlank

/-- Why a text is no document. -/
inductive Flaw
  | malformed
  | tooLong
  | tooDeep
deriving DecidableEq, Repr

/-- How many lists and dicts may stand in each other unless said otherwise. The limit is that of the
interpreter's stack, a thousand levels for everything together; how many of them are left for a
document depends on the calls that reading it stands in, here about twenty. -/
def depthLimit : Nat := 980

namespace Flaw

/-- The failure that a flaw makes of reading. -/
def failure : Flaw → Failure
  | malformed => .malformedDocument
  | tooLong => .mismatch .tooLong
  | tooDeep => .deepDocument

end Flaw

/-- The unit that four hexadecimal digits write. -/
def unit? (a b c d : CodePoint) : Option Nat := do
  let ds ← [a, b, c, d].mapM Text.hexDigit?
  return Text.ofDigits 16 ds

/-- The character that a letter behind a backslash stands for. -/
def escape? (c : CodePoint) : Option CodePoint :=
  if c = '"' ∨ c = '\\' ∨ c = '/' then some c
  else if c = 'b' then some '\x08'
  else if c = 'f' then some '\x0c'
  else if c = 'n' then some '\n'
  else if c = 'r' then some '\r'
  else if c = 't' then some '\t'
  else none

/-- A piece of a text between quotes: a character, as it is or by its letter, or a sixteen-bit unit
that is written by its number. -/
inductive Piece
  | char (c : CodePoint)
  | unit (n : Nat)
deriving DecidableEq, Repr

/-- A piece before others. -/
def push (piece : Option Piece) (rest : Option (List Piece × Text)) :
    Option (List Piece × Text) := do
  let p ← piece
  let (ps, t) ← rest
  return (p :: ps, t)

/-- The pieces of a text up to its closing quote, and what follows that. Control characters must be
escaped. -/
def pieces? : Text → Option (List Piece × Text)
  | [] => none
  | c :: r =>
    if c = '"' then some ([], r)
    else if c = '\\' then
      match r with
      | [] => none
      | e :: r =>
        if e = 'u' then
          match r with
          | d1 :: d2 :: d3 :: d4 :: r => push ((unit? d1 d2 d3 d4).map .unit) (pieces? r)
          | _ => none
        else push ((escape? e).map .char) (pieces? r)
    else push (if c.toNat < 0x20 then none else some (.char c)) (pieces? r)

/-- A high and a low surrogate, which number one character together. -/
def ArePair (a b : Nat) : Prop := 0xD800 ≤ a ∧ a < 0xDC00 ∧ 0xDC00 ≤ b ∧ b < 0xE000

instance (a b : Nat) : Decidable (ArePair a b) :=
  inferInstanceAs (Decidable (0xD800 ≤ a ∧ a < 0xDC00 ∧ 0xDC00 ≤ b ∧ b < 0xE000))

/-- The character of a pair. -/
def pairChar (a b : Nat) : CodePoint := .ofNat (0x10000 + (a - 0xD800) * 0x400 + (b - 0xDC00))

/-- The text of pieces. Two units side by side make one character if they are a pair; surrogates
that stand as characters are not put together. -/
def ofPieces : List Piece → Text
  | [] => []
  | .char c :: ps => c :: ofPieces ps
  | .unit a :: .unit b :: ps =>
    if ArePair a b then pairChar a b :: ofPieces ps else .ofNat a :: ofPieces (.unit b :: ps)
  | .unit a :: ps => .ofNat a :: ofPieces ps

/-- The text behind an opening quote, and what follows its closing one. -/
def text? (t : Text) : Option (Text × Text) :=
  (pieces? t).map fun (ps, rest) => (ofPieces ps, rest)

/-- The digits in front of a point: zero alone, or digits that do not start with zero. -/
def whole? (t : Text) : Option (List Nat × Text) :=
  match Text.takeDigits Text.asciiDigit? t with
  | ([], _) => none
  | (0 :: _, _) => some ([0], t.drop 1)
  | (ds, rest) => some (ds, rest)

/-- The digits behind a point, if there is a point with a digit behind it. -/
def fraction? : Text → Option (List Nat × Text)
  | [] => none
  | c :: r =>
    if c = '.' then
      match Text.takeDigits Text.asciiDigit? r with
      | ([], _) => none
      | (ds, rest) => some (ds, rest)
    else none

/-- The number at the front of a text. -/
def number (t : Text) : Except Flaw (Value × Text) :=
  let (negative, unsigned) := match t with
    | c :: r => if c = '-' then (true, r) else (false, c :: r)
    | [] => (false, [])
  match whole? unsigned with
  | none => .error .malformed
  | some (whole, rest) =>
    let fraction := fraction? rest
    let behind := (fraction.map Prod.snd).getD rest
    let exponent := Decimal.exponent? Text.asciiDigit? behind
    if fraction.isNone ∧ exponent.isNone then
      if digitLimit < whole.length then .error .tooLong
      else
        let n : Int := Text.ofDigits 10 whole
        .ok (.int (if negative then -n else n), rest)
    else
      let (e, rest) := exponent.getD (0, behind)
      let x := Decimal.ofDigits negative whole ((fraction.map Prod.fst).getD []) e
      .ok (.float x.toDouble, rest)

/-- The values that have names. -/
def names : List (Text × Value) :=
  [("null", .null), ("true", .bool true), ("false", .bool false),
    ("NaN", .float (.notANumber false)), ("Infinity", .float (.infinity false)),
    ("-Infinity", .float (.infinity true))]

/-- The value whose name is at the front of a text. -/
def named? (t : Text) : Option (Value × Text) :=
  names.findSome? fun (name, v) => (Text.after? name t).map fun rest => (v, rest)

/-- What follows a character at the front of a text, behind blanks. -/
def expect? (c : CodePoint) (t : Text) : Option Text :=
  match skipBlanks t with
  | [] => none
  | d :: r => if d = c then some r else none

mutual

/-- The value at the front of a text, in which lists and dicts stand in each other to a depth. -/
def readValue : Nat → Nat → Text → Except Flaw (Value × Text)
  | 0, _, _ => .error .malformed
  | _ + 1, _, [] => .error .malformed
  | fuel + 1, depth, c :: r =>
    if c = '"' then
      match text? r with
      | none => .error .malformed
      | some (t, rest) => .ok (.text t, rest)
    else if c = '[' then
      match depth with
      | 0 => .error .tooDeep
      | depth + 1 =>
        match expect? ']' r with
        | some rest => .ok (.list [], rest)
        | none =>
          match readItems fuel depth (skipBlanks r) with
          | .error flaw => .error flaw
          | .ok (items, rest) => .ok (.list items, rest)
    else if c = '\x7b' then
      match depth with
      | 0 => .error .tooDeep
      | depth + 1 =>
        match expect? '\x7d' r with
        | some rest => .ok (.dict [], rest)
        | none =>
          match readEntries fuel depth (skipBlanks r) with
          | .error flaw => .error flaw
          | .ok (entries, rest) => .ok (.dict (Dict.ofEntries entries), rest)
    else
      match named? (c :: r) with
      | some found => .ok found
      | none => number (c :: r)

/-- Items up to the closing bracket; at least one. -/
def readItems : Nat → Nat → Text → Except Flaw (List Value × Text)
  | 0, _, _ => .error .malformed
  | fuel + 1, depth, t =>
    match readValue fuel depth t with
    | .error flaw => .error flaw
    | .ok (v, t) =>
      match expect? ']' t with
      | some rest => .ok ([v], rest)
      | none =>
        match expect? ',' t with
        | none => .error .malformed
        | some t =>
          match readItems fuel depth (skipBlanks t) with
          | .error flaw => .error flaw
          | .ok (vs, rest) => .ok (v :: vs, rest)

/-- Entries up to the closing brace; at least one. -/
def readEntries : Nat → Nat → Text → Except Flaw (List (Text × Value) × Text)
  | 0, _, _ => .error .malformed
  | fuel + 1, depth, t =>
    match expect? '"' t with
    | none => .error .malformed
    | some t =>
      match text? t with
      | none => .error .malformed
      | some (k, t) =>
        match expect? ':' t with
        | none => .error .malformed
        | some t =>
          match readValue fuel depth (skipBlanks t) with
          | .error flaw => .error flaw
          | .ok (v, t) =>
            match expect? '\x7d' t with
            | some rest => .ok ([(k, v)], rest)
            | none =>
              match expect? ',' t with
              | none => .error .malformed
              | some t =>
                match readEntries fuel depth (skipBlanks t) with
                | .error flaw => .error flaw
                | .ok (es, rest) => .ok ((k, v) :: es, rest)

end

/-- The value that a text writes, read where the stack leaves room for a depth. -/
def read (t : Text) (depth : Nat := depthLimit) : Except Flaw Value :=
  match readValue (2 * t.length + 2) depth (skipBlanks t) with
  | .error flaw => .error flaw
  | .ok (v, rest) => if skipBlanks rest = [] then .ok v else .error .malformed

end FarmLink.Json
