import FormSchema.Json.Basic
import FormSchema.Timestamp

/-!
# The primitive types

A schema of the type form names one of eleven primitives.  Six of them are integer
types, which take every number of integral value within inclusive bounds, however
it is written.
-/

namespace FormSchema

/-- A primitive type. -/
inductive Primitive where
  | boolean
  | int8
  | uint8
  | int16
  | uint16
  | int32
  | uint32
  | float32
  | float64
  | string
  | timestamp
  deriving DecidableEq, Inhabited

namespace Primitive

/-- The primitives, in the order in which messages list them. -/
def all : List Primitive :=
  [boolean, int8, uint8, int16, uint16, int32, uint32, float32, float64, string, timestamp]

/-- The name of a primitive in a schema. -/
def name : Primitive → String
  | boolean => "boolean"
  | int8 => "int8"
  | uint8 => "uint8"
  | int16 => "int16"
  | uint16 => "uint16"
  | int32 => "int32"
  | uint32 => "uint32"
  | float32 => "float32"
  | float64 => "float64"
  | string => "string"
  | timestamp => "timestamp"

/-- The primitive with a name. -/
def ofName? (text : String) : Option Primitive :=
  all.find? fun primitive => primitive.name = text

/-- The inclusive bounds of an integer type. -/
def bounds? : Primitive → Option (Int × Int)
  | int8 => some (-128, 127)
  | uint8 => some (0, 255)
  | int16 => some (-32768, 32767)
  | uint16 => some (0, 65535)
  | int32 => some (-2147483648, 2147483647)
  | uint32 => some (0, 4294967295)
  | _ => none

/-- Is the value a number equal to an integer within the bounds?  Numbers are compared
as doubles, which represent every bound exactly. -/
def isIntegerWithin (lower upper : Int) : Json → Bool
  | .number number =>
      match number.toDouble?.bind Binary64.toInt? with
      | some value => lower ≤ value && value ≤ upper
      | none => false
  | _ => false

/-- Does a value have the primitive type? -/
def accepts (primitive : Primitive) (value : Json) : Bool :=
  match primitive.bounds? with
  | some (lower, upper) => isIntegerWithin lower upper value
  | none =>
      match primitive, value with
      | boolean, .bool _ => true
      | float32, .number _ => true
      | float64, .number _ => true
      | string, .string _ => true
      | timestamp, .string text => Timestamp.accepts text
      | _, _ => false

end Primitive

end FormSchema
