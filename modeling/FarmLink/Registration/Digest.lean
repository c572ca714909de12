import FarmLink.Registration.Basic

/-!
# Digest - what a registration is hashed by

Registrations that are the same must hash alike. What is hashed are the fields, the commands, and
the metadata in the order of their keys, each number standing by its residue modulo the prime
`2 ^ 61 - 1`: equal numbers have equal residues, whatever their kind.
-/

namespace FarmLink

/-- The prime `2 ^ 61 - 1`, modulo which numbers are hashed. -/
def hashPrime : Nat := 0x1FFFFFFFFFFFFFFF

/-- The hash of a number of a given size and sign; minus one is taken by minus two. -/
def hashNumber (negative : Bool) (residue : Nat) : Int :=
  let n : Int := if negative then -(residue : Int) else residue
  if n = -1 then -2 else n

/-- The hash of a whole number. -/
def hashInt (n : Int) : Int := hashNumber (n < 0) (n.natAbs % hashPrime)

/-- The hash of a finite double, whose unit is a power of two, hence of `2 ^ 61`, that is of one,
times a small power. -/
def hashDouble (x : Double) : Int :=
  hashNumber x.negative (x.units * Nat.pow 2 (61 * 18 - Format.double.scale) % hashPrime)

/-- What a registration is hashed by. -/
structure Digest where
  fields : List (Field × Option Int × Option Int)
  commands : List (Text × Int)
  metadata : Dict Text
deriving DecidableEq, Repr

namespace Field

/-- A channel without its bounds, and the hashes of these. -/
def digest : Field → Field × Option Int × Option Int
  | continuous f =>
    (continuous { f with minValue := none, maxValue := none }, f.minValue.map hashDouble,
      f.maxValue.map hashDouble)
  | enumerated f => (enumerated f, none, none)

end Field

namespace Registration

/-- The same registration with its metadata in the order of their keys. -/
def canonical (r : Registration) : Registration := { r with metadata := r.metadata.sorted }

/-- What a registration is hashed by. -/
def digest (r : Registration) : Digest where
  fields := r.fields.map Field.digest
  commands := r.commands.map fun c => (c.key, hashInt c.port)
  metadata := r.canonical.metadata

end Registration

end FarmLink
