import FarmLink.Binary.Double

/-!
# Single - narrowing a double to single precision

A finite double becomes the nearest single; one that would become infinite has none. Infinities
stay, and what is not a number keeps its sign and the upper part of its payload, made quiet.
-/

namespace FarmLink.Double

/-- The 31 bits below the sign of the single for a double, if there is one. -/
def singleMagnitude? (x : Double) : Option Nat :=
  if x.isNaN then some (0x7FC00000 ||| (x.magnitude % 0x10000000000000) >>> 29)
  else if x.isInfinite then some Format.single.infinite
  else
    let m := Format.single.round x.units unitsPerOne
    if m < Format.single.infinite then some m else none

/-- The 32 bits of the single for a double, if there is one. -/
def toSingleBits? (x : Double) : Option Nat :=
  x.singleMagnitude?.map fun m => m + if x.negative then 0x80000000 else 0

end FarmLink.Double
