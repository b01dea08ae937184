import FormSchema.Binary64.Nearest
import FormSchema.Binary64.Shortest
import FormSchema.Decoding.NumberText
import FormSchema.Json.Basic

/-!
# What filters work on

Filters pass values on far more often than they compute with them.  So a number that is
not a small integer is kept as it was written until a comparison or an operation asks
for its value, which is then the nearest double.  A number that leaves a filter unchanged
is read again from its written form, as one in a JSON text is.

A `Datum` is a JSON value with such numbers in it; `Datum.ofJson` and `Datum.toJson` lead
from one to the other.
-/

namespace FormSchema

/-- A number inside a filter. -/
inductive Quantity where
  /-- An integer that a signed 64-bit word holds. -/
  | word (value : Int)
  /-- Any other number, as it was written. -/
  | written (numeral : Numeral)
  /-- The result of an operation on doubles. -/
  | computed (value : Binary64.Extended)
  deriving DecidableEq, Inhabited

namespace Quantity

/-- Does a signed 64-bit word hold the integer? -/
def fitsWord (value : Int) : Bool :=
  -(Int.pow 2 63) ≤ value && value < Int.pow 2 63

/-- An integer in the range of a signed 64-bit word; integers beyond it wrap around. -/
def wrapped (value : Int) : Quantity :=
  word (value.bmod (Nat.pow 2 64))

/-- A number that a filter is given. -/
def ofNumber : Number → Quantity
  | .integer value => if fitsWord value then word value else written (.ofInt value)
  | .double value => written value.numeral

/-- A number that stands in a filter. -/
def ofNumeral (numeral : Numeral) : Quantity :=
  let value : Int := digitsValue numeral.whole
  if numeral.isWhole ∧ numeral.negative = false ∧ fitsWord value then word value
  else written numeral

/-- The number that leaves a filter, if it is one that JSON has. -/
def toNumber? : Quantity → Option Number
  | word value => some (.integer value)
  | written numeral => if numeral.isJson then numeral.value? else none
  | computed value => value.finite?.map .double

/-- The nearest double. -/
def toDouble : Quantity → Binary64.Extended
  | word value => .ofScaled (value < 0) value.natAbs 0
  | written numeral => .ofNumeral numeral
  | computed value => value

/-- Equality as numbers.  Integers are compared exactly, and otherwise the nearest doubles
are. -/
def same : Quantity → Quantity → Bool
  | word left, word right => left = right
  | left, right => left.toDouble.sameNumber right.toDouble

/-- The number with the opposite sign. -/
def neg : Quantity → Quantity
  | word value => wrapped (-value)
  | number => computed number.toDouble.neg

/-- The number without its sign. -/
def abs : Quantity → Quantity
  | word value => wrapped value.natAbs
  | number => computed number.toDouble.abs

end Quantity

/-- A value inside a filter. -/
inductive Datum where
  | null
  | bool (value : Bool)
  | number (value : Quantity)
  | string (value : String)
  | array (items : List Datum)
  | object (members : List (String × Datum))
  deriving Inhabited

namespace Datum

/-- A natural number as a value. -/
def ofNat (value : Nat) : Datum :=
  .number (.word value)

mutual

/-- A value that a filter is given. -/
def ofJson : Json → Datum
  | .null => null
  | .bool value => bool value
  | .number value => number (.ofNumber value)
  | .string value => string value
  | .array items => array (ofItems items)
  | .object members => object (ofMembers members)

/-- The items of an array that a filter is given. -/
def ofItems : List Json → List Datum
  | [] => []
  | item :: rest => ofJson item :: ofItems rest

/-- The members of an object that a filter is given. -/
def ofMembers : List (String × Json) → List (String × Datum)
  | [] => []
  | (name, value) :: rest => (name, ofJson value) :: ofMembers rest

end

mutual

/-- The value that leaves a filter.  A number that JSON does not have becomes null. -/
def toJson : Datum → Json
  | null => .null
  | bool value => .bool value
  | number value =>
      match value.toNumber? with
      | some value => .number value
      | none => .null
  | string value => .string value
  | array items => .array (toItems items)
  | object members => .object (toMembers members)

/-- The items of an array that leaves a filter. -/
def toItems : List Datum → List Json
  | [] => []
  | item :: rest => item.toJson :: toItems rest

/-- The members of an object that leaves a filter. -/
def toMembers : List (String × Datum) → List (String × Json)
  | [] => []
  | (name, value) :: rest => (name, value.toJson) :: toMembers rest

end

mutual

/-- Equality of values, which ignores the order of members. -/
def same : Datum → Datum → Bool
  | null, null => true
  | bool left, bool right => left = right
  | number left, number right => left.same right
  | string left, string right => left = right
  | array left, array right => sameItems left right
  | object left, object right => left.length = right.length && sameMembers left right
  | _, _ => false

/-- Equality item by item. -/
def sameItems : List Datum → List Datum → Bool
  | [], [] => true
  | left :: lefts, right :: rights => left.same right && sameItems lefts rights
  | _, _ => false

/-- Does every member of the first object occur in the second with an equal value? -/
def sameMembers : List (String × Datum) → List (String × Datum) → Bool
  | [], _ => true
  | (name, value) :: rest, others =>
      (match others.lookup name with
        | some other => value.same other
        | none => false) && sameMembers rest others

end

end Datum

end FormSchema
