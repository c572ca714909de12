import FarmLink.Proofs.Value.Showable
import FarmLink.Token.Number

/-!
# Integer - the whole numbers that tokens can hold

A decimal run at the front of a token is taken only if it is short, so its number can be shown.
Hexadecimal runs may have any length, and are the only way in which a token comes to hold a whole
number too long to be shown (`isShowable_integer_iff`).
-/

namespace FarmLink.Token

/-- A token with a hexadecimal run whose number has more than `digitLimit` decimal digits. -/
def IsOverlong (token : Text) : Prop :=
  ∃ ds, hexDigits? (Decimal.scanSign (token.dropWhile Text.isTokenBlank)).2 = some ds ∧
    Nat.pow 10 digitLimit ≤ Text.ofDigits 16 ds

end FarmLink.Token
