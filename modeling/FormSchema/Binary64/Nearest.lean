import FormSchema.Binary64
import FormSchema.Numeral

/-!
# The double nearest to a written number

A numeral of any length is rounded once, to the nearest double and to the even
significand on a tie.  Beyond the largest double lies infinity.
-/

namespace FormSchema.Binary64

/-- A double that may be infinite. -/
inductive Extended where
  | finite (value : Binary64)
  | infinite (negative : Bool)
  deriving DecidableEq, Inhabited

namespace Extended

/-- The number with the opposite sign. -/
def neg : Extended → Extended
  | finite value => finite value.neg
  | infinite negative => infinite (!negative)

/-- The number without its sign. -/
def abs : Extended → Extended
  | finite value => finite value.abs
  | infinite _ => infinite false

/-- Equality as numbers: the two zeros are equal. -/
def sameNumber : Extended → Extended → Bool
  | finite left, finite right => left.sameNumber right
  | infinite left, infinite right => left = right
  | _, _ => false

/-- The double, if it is finite. -/
def finite? : Extended → Option Binary64
  | finite value => some value
  | infinite _ => none

end Extended

/-- Ten to this power lies beyond every finite double, and its inverse below every
positive one. -/
def scaleLimit : Int :=
  400

/-- The double nearest to `digits * 10 ^ scale`, with a sign.  Powers of ten that no
double comes near are not computed. -/
def Extended.ofScaled (negative : Bool) (digits : Nat) (scale : Int) : Extended :=
  let length : Int := (toString digits).length
  if digits = 0 ∨ length + scale < -scaleLimit then
    .finite (zero negative)
  else if scaleLimit < length + scale then
    .infinite negative
  else
    let rounded :=
      if 0 ≤ scale then ofFraction negative (digits * Nat.pow 10 scale.toNat) 1
      else ofFraction negative digits (Nat.pow 10 (-scale).toNat)
    match rounded with
    | some value => .finite value
    | none => .infinite negative

/-- The double nearest to a numeral. -/
def Extended.ofNumeral (numeral : Numeral) : Extended :=
  .ofScaled numeral.negative numeral.scaled.1 numeral.scaled.2

end FormSchema.Binary64
