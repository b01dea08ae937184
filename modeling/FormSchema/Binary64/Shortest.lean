import FormSchema.Binary64
import FormSchema.Numeral

/-!
# The shortest decimal text of a double

Among the decimal numbers that round to a given double, the text uses one with
the fewest significant digits, and of those the nearest to the double.

The search is exact.  For each number of digits it looks at the two neighbours
of the double on that decimal grid and keeps those inside the interval of reals
that round to the double; the interval holds its end points exactly when the
significand is even.
-/

namespace FormSchema.Binary64

/-- A positive decimal number `digits * 10 ^ (scale - (number of digits) + 1)`: the
first digit has the weight `10 ^ scale`. -/
structure Decimal where
  digits : Nat
  scale : Int
  deriving DecidableEq

/-- The interval of reals that round to a positive double, as numerators over one
common denominator together with the double itself. -/
structure RoundingInterval where
  lower : Nat
  value : Nat
  upper : Nat
  denominator : Nat
  closed : Bool

/-- The rounding interval of a nonzero double.  Below a power of two the next
double is only half as far away. -/
def roundingInterval (value : Binary64) : RoundingInterval :=
  let below := if value.significand = Nat.pow 2 52 ∧ -1074 < value.exponent then 1 else 2
  let centre := 4 * value.significand
  let closed := value.significand % 2 = 0
  let quarter := value.exponent - 2
  if 0 ≤ quarter then
    let unit := Nat.pow 2 quarter.toNat
    ⟨(centre - below) * unit, centre * unit, (centre + 2) * unit, 1, closed⟩
  else
    ⟨centre - below, centre, centre + 2, Nat.pow 2 (-quarter).toNat, closed⟩

/-- The weight of the first digit of `numerator / denominator`: the largest power
of ten that is at most that positive fraction. -/
def leadingScale (numerator denominator : Nat) : Int :=
  let estimate : Int := ((numerator.log2 : Int) - denominator.log2) * 30103 / 100000
  let atLeast (scale : Int) : Bool :=
    if 0 ≤ scale then
      denominator * Nat.pow 10 scale.toNat ≤ numerator
    else
      denominator ≤ numerator * Nat.pow 10 (-scale).toNat
  if atLeast (estimate + 1) then estimate + 1
  else if atLeast estimate then estimate
  else if atLeast (estimate - 1) then estimate - 1
  else estimate - 2

/-- The nearer of the two neighbours of the double on the grid of `unit`-multiples
that lie inside the interval, if one does.  All numbers are over the common
denominator `interval.denominator * shrink`, where the grid unit is `unit`. -/
def neighbour (interval : RoundingInterval) (shrink unit : Nat) : Option Nat :=
  let lower := interval.lower * shrink
  let value := interval.value * shrink
  let upper := interval.upper * shrink
  let inside (point : Nat) : Bool :=
    if interval.closed then lower ≤ point ∧ point ≤ upper else lower < point ∧ point < upper
  let floor := value / unit
  let down := inside (floor * unit)
  let up := inside ((floor + 1) * unit)
  let nearDown := 2 * (value - floor * unit)
  if down ∧ up then
    if nearDown < unit ∨ (nearDown = unit ∧ floor % 2 = 0) then some floor else some (floor + 1)
  else if down then
    some floor
  else if up then
    some (floor + 1)
  else
    none

/-- A decimal with the given number of digits that rounds to the double. -/
def decimalOfLength (interval : RoundingInterval) (scale : Int) (length : Nat) : Option Nat :=
  let step : Int := scale - length + 1
  if 0 ≤ step then
    neighbour interval 1 (interval.denominator * Nat.pow 10 step.toNat)
  else
    neighbour interval (Nat.pow 10 (-step).toNat) interval.denominator

/-- The first of the lengths `first`, `first + 1`, … with a decimal that rounds to
the double; `remaining` lengths are tried. -/
def searchDecimal (interval : RoundingInterval) (scale : Int) : Nat → Nat → Option Nat
  | _, 0 => none
  | length, remaining + 1 =>
      match decimalOfLength interval scale length with
      | some digits => some digits
      | none => searchDecimal interval scale (length + 1) remaining

/-- The digits of a positive natural number without its trailing zeros; at most
`fuel` zeros are dropped. -/
def dropZeros : Nat → Nat → Nat
  | 0, digits => digits
  | fuel + 1, digits => if digits % 10 = 0 then dropZeros fuel (digits / 10) else digits

/-- The shortest decimal that rounds to a nonzero double.  Seventeen digits always
suffice. -/
def shortest (value : Binary64) : Decimal :=
  let interval := value.roundingInterval
  let scale := leadingScale interval.value interval.denominator
  let digits := (searchDecimal interval scale 1 17).getD 0
  let text := (toString digits).length
  if digits = 0 then
    ⟨0, 0⟩
  else if digits = Nat.pow 10 (text - 1) ∧ decimalOfLength interval (scale + 1) 1 = some 1 then
    ⟨1, scale + 1⟩
  else
    ⟨dropZeros 17 digits, scale⟩

/-- A power of ten is written in positional notation when its exponent lies between
these bounds, and with an exponent otherwise. -/
def positionalScales : Int × Int :=
  (-5, 15)

/-- A positive decimal with a sign, written out.  Positional notation always has a point
with a digit on each side; scientific notation has a point only between two digits. -/
def Decimal.numeral (negative : Bool) (decimal : Decimal) : Numeral :=
  let digits := (toString decimal.digits).toList
  if positionalScales.1 ≤ decimal.scale ∧ decimal.scale ≤ positionalScales.2 then
    if decimal.scale < 0 then
      ⟨negative, ['0'], some (List.replicate (-decimal.scale - 1).toNat '0' ++ digits), none⟩
    else
      let whole := decimal.scale.toNat + 1
      let padded := digits ++ List.replicate (whole - digits.length) '0'
      let fraction := padded.drop whole
      ⟨negative, padded.take whole, some (if fraction.isEmpty then ['0'] else fraction), none⟩
  else
    let fraction := digits.drop 1
    ⟨negative, digits.take 1, if fraction.isEmpty then none else some fraction,
      some ⟨decimal.scale < 0, (toString decimal.scale.natAbs).toList⟩⟩

/-- The shortest numeral of a double. -/
def numeral (value : Binary64) : Numeral :=
  if value.isZero then ⟨value.negative, ['0'], some ['0'], none⟩
  else value.shortest.numeral value.negative

/-- The text of a double. -/
def text (value : Binary64) : String :=
  String.ofList value.numeral.chars

end FormSchema.Binary64
