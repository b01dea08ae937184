/-!
# Finite double-precision numbers, held exactly

A `Binary64` is a finite IEEE 754 double as an exact dyadic rational: a sign, a
significand below `2 ^ 53` and a power of two.  Every finite double, negative
zero included, has exactly one such value, so equality of doubles as data is
equality of structures.

Arithmetic rounds once, to the nearest double and to the even significand on a
tie.  It is carried out on natural numbers, and a result beyond the largest
finite double is `none`.  Powers are written with `Nat.pow`, so that they are the
same ones beside a library that has others.
-/

namespace FormSchema

/-- A finite double, of value `significand * 2 ^ exponent` with a sign.  Only the
smallest exponent admits a significand below `2 ^ 52`, so representations are
unique. -/
structure Binary64 where
  negative : Bool
  significand : Nat
  exponent : Int
  significand_lt : significand < Nat.pow 2 53
  exponent_ge : -1074 ≤ exponent
  exponent_le : exponent ≤ 971
  normalized : Nat.pow 2 52 ≤ significand ∨ exponent = -1074
  deriving DecidableEq

namespace Binary64

/-- Zero, of either sign. -/
def zero (negative : Bool) : Binary64 :=
  ⟨negative, 0, -1074, by decide, by decide, by decide, .inr rfl⟩

instance : Inhabited Binary64 := ⟨zero false⟩

/-- The double with the given parts, if they form one. -/
def ofParts? (negative : Bool) (significand : Nat) (exponent : Int) : Option Binary64 :=
  if parts : significand < Nat.pow 2 53 ∧ -1074 ≤ exponent ∧ exponent ≤ 971 ∧
      (Nat.pow 2 52 ≤ significand ∨ exponent = -1074) then
    some ⟨negative, significand, exponent, parts.1, parts.2.1, parts.2.2.1, parts.2.2.2⟩
  else
    none

/-- The natural number nearest to `numerator / denominator`; of two equally near
ones, the even one. -/
def roundQuotient (numerator denominator : Nat) : Nat :=
  let quotient := numerator / denominator
  let twice := 2 * (numerator % denominator)
  if denominator < twice ∨ (twice = denominator ∧ quotient % 2 = 1) then
    quotient + 1
  else
    quotient

/-- The quotient of `numerator / denominator` by `2 ^ exponent`, as a fraction. -/
def scaledFraction (numerator denominator : Nat) (exponent : Int) : Nat × Nat :=
  if 0 ≤ exponent then
    (numerator, denominator * Nat.pow 2 exponent.toNat)
  else
    (numerator * Nat.pow 2 (-exponent).toNat, denominator)

/-- The exponent at which a positive fraction is rounded: the one that leaves a
significand of 53 bits, but never below the smallest exponent of a double. -/
def roundingExponent (numerator denominator : Nat) : Int :=
  let estimate : Int := max ((numerator.log2 : Int) - denominator.log2 - 53) (-1074)
  let fraction := scaledFraction numerator denominator estimate
  if Nat.pow 2 53 ≤ fraction.1 / fraction.2 then estimate + 1 else estimate

/-- The double nearest to a fraction with a positive denominator, or `none` when
that lies beyond the largest finite double. -/
def ofFraction (negative : Bool) (numerator denominator : Nat) : Option Binary64 :=
  if numerator = 0 then
    some (zero negative)
  else
    let exponent := roundingExponent numerator denominator
    let fraction := scaledFraction numerator denominator exponent
    let significand := roundQuotient fraction.1 fraction.2
    if significand = Nat.pow 2 53 then
      ofParts? negative (Nat.pow 2 52) (exponent + 1)
    else
      ofParts? negative significand exponent

/-- The double nearest to a natural number. -/
def ofNat (value : Nat) : Option Binary64 :=
  ofFraction false value 1

/-- The double nearest to an integer. -/
def ofInt (value : Int) : Option Binary64 :=
  ofFraction (value < 0) value.natAbs 1

/-- The double nearest to a power of ten. -/
def powerOfTen (exponent : Nat) : Option Binary64 :=
  ofNat (Nat.pow 10 exponent)

/-- The magnitude of a double as an exact fraction. -/
def toFraction (value : Binary64) : Nat × Nat :=
  if 0 ≤ value.exponent then
    (value.significand * Nat.pow 2 value.exponent.toNat, 1)
  else
    (value.significand, Nat.pow 2 (-value.exponent).toNat)

/-- The rounded product. -/
def mul (left right : Binary64) : Option Binary64 :=
  ofFraction (left.negative != right.negative)
    (left.toFraction.1 * right.toFraction.1) (left.toFraction.2 * right.toFraction.2)

/-- The rounded quotient; there is none by zero. -/
def div (left right : Binary64) : Option Binary64 :=
  if right.significand = 0 then
    none
  else
    ofFraction (left.negative != right.negative)
      (left.toFraction.1 * right.toFraction.2) (left.toFraction.2 * right.toFraction.1)

/-- The number with the opposite sign. -/
def neg (value : Binary64) : Binary64 :=
  { value with negative := !value.negative }

/-- The number without its sign. -/
def abs (value : Binary64) : Binary64 :=
  { value with negative := false }

/-- Is this one of the two zeros? -/
def isZero (value : Binary64) : Bool :=
  value.significand = 0

/-- The integer that a double is equal to, if there is one. -/
def toInt? (value : Binary64) : Option Int :=
  let fraction := value.toFraction
  if fraction.1 % fraction.2 = 0 then
    let magnitude : Int := fraction.1 / fraction.2
    some (if value.negative then -magnitude else magnitude)
  else
    none

/-- Equality as numbers: the two zeros are equal. -/
def sameNumber (left right : Binary64) : Bool :=
  (left.isZero && right.isZero) || left = right

end Binary64

end FormSchema
